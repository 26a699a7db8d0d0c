import Uv.Marker.Assumption
import Uv.Marker.Disjointness

namespace Uv.Marker

open Library Uv.Marker.Tree Function

/-!
# Extras in markers

Extras can be assumed, they can be dropped, and everything else can be dropped.  A marker
without its extras applies where some selection of extras satisfies it.  The extras alone
are satisfied by a selection for which some outcomes of all other tests lead to `true`.
These outcomes may be incompatible, so that it matters that the knowledge about platforms
never makes a disjunction of unsatisfiable trees satisfiable.
-/

variable {env : MarkerEnvironment} {active : List ExtraName}

namespace Tree

variable {sets : IntervalSets}

/-! ## Trees that hold for all values of some variables -/

variable {tree : Tree sets}

section

variable {drop : Variable -> Bool} {base : Assignment}
  (harmless : ∀ var, drop var = false -> var.isConflictingVariable = false)

variable (drop base) in
/-- The tree has one value whatever the values of the dropped variables are. -/
def Constantly (value : Bool) (tree : Tree sets) : Prop :=
  ∀ world, AgreeOff drop base world -> tree.denote world = value

lemma Constantly.not {value : Bool} (constantly : tree.Constantly drop base value)
    (reduced : tree.Reduced) : tree.not.Constantly drop base (!value) := by
  intro world agree
  rw [denote_not _ reduced, constantly world agree]

include harmless

/-- Knowledge about platforms does not touch a conjunction that holds for all platforms. -/
lemma and_constantly {x y : Tree sets} (reduced : x.Reduced) (reduced' : y.Reduced)
    (valid : x.Constantly drop base true) (valid' : y.Constantly drop base true) :
    (and x y).Constantly drop base true := by
  intro world agree
  refine and_of_lasting reduced reduced' (valid world agree) (valid' world agree) fun level => ?_
  -- Some platform is possible, and there both trees hold.
  rcases exists_admitted base with ⟨other, admitted, agree'⟩
  have kept : AgreeOff drop base (splice level world other) := by
    intro var kept
    rw [splice]
    split
    · exact agree var kept
    · exact (agree' var (harmless var kept)).symm
  exact ⟨other, admitted, valid _ kept, valid' _ kept⟩

lemma or_constantly {x y : Tree sets} (reduced : x.Reduced) (reduced' : y.Reduced)
    (never : x.Constantly drop base false) (never' : y.Constantly drop base false) :
    (or x y).Constantly drop base false :=
  (and_constantly harmless reduced.not reduced'.not (never.not reduced)
    (never'.not reduced')).not (and_isConjunction reduced.not reduced'.not).reduced

lemma disjoinAll_constantly {trees : List (Tree sets)}
    (all : ∀ tree ∈ trees, tree.Reduced /\ tree.Constantly drop base false) :
    (disjoinAll trees).Constantly drop base false := by
  have loop : ∀ rest : List (Tree sets), ∀ union : Tree sets, union.Reduced ->
      union.Constantly drop base false ->
      (∀ tree ∈ rest, tree.Reduced /\ tree.Constantly drop base false) ->
      (rest.foldl or union).Constantly drop base false := by
    intro rest
    induction rest with
    | nil => exact fun union _ never _ => never
    | cons tree rest ih =>
      intro union reduced never all
      have own := all tree List.mem_cons_self
      exact ih _ (or_reduced reduced own.1) (or_constantly harmless reduced own.1 never own.2)
        (List.forall_mem_cons.mp all).2
  exact loop trees (.leaf false) (.leaf false) (fun _ _ => rfl) all

/-- Trees that cannot be satisfied stay so when they are joined. -/
lemma merges_of_kept : Merges sets drop base := by
  intro var _ trees all world agree holds
  by_contra none
  have never : (disjoinAll trees).Constantly drop base false := by
    refine disjoinAll_constantly harmless fun tree mem => ⟨(all tree mem).1, fun world agree => ?_⟩
    exact Bool.eq_false_iff.mpr fun holds => none ⟨tree, mem, world, agree, holds⟩
  exact Bool.false_ne_true ((never world agree).symm.trans holds)

/-- The projection holds only where some values of the dropped variables satisfy the tree. -/
lemma exists_of_project (reduced : tree.Reduced) (holds : (project drop tree).denote base) :
    ∃ world, AgreeOff drop base world /\ tree.denote world :=
  (project_isProjection drop reduced).sound base (merges_of_kept harmless) holds

end

/-! ## Selections of extras -/

/-- Of an extra only the Boolean value counts. -/
def plainExtra : Variable -> Point -> Point
  | .extra _, point => .ofBool point.boolean
  | _, point => point

lemma Reduced.respects_plainExtra (reduced : tree.Reduced) :
    tree.Respects plainExtra := by
  induction tree using induct with
  | leaf value => exact .leaf value
  | node var children ih =>
    refine .node ?_ fun child mem => ih child mem (reduced.child mem)
    have kind := reduced.kind
    cases var with
    | extra name =>
      cases children with
      | version edges => cases kind
      | string edges => cases kind
      | boolean high low => exact fun _ => rfl
    | _ =>
      cases children with
      | version edges => exact fun _ _ _ => rfl
      | string edges => exact fun _ _ _ => rfl
      | boolean high low => exact fun _ => rfl

/-- The extras of a tree that are active. -/
def activeExtras (tree : Tree sets) (world : Assignment) : List ExtraName :=
  tree.vars.filterMap fun var =>
    match var with
    | .extra name => if (world var).boolean then some name else none
    | _ => none

lemma contains_activeExtras {name : ExtraName} (occurs : .extra name ∈ tree.vars)
    (world : Assignment) :
    (tree.activeExtras world).contains name = (world (.extra name)).boolean := by
  rw [Bool.eq_iff_iff, List.contains_iff_mem, activeExtras, List.mem_filterMap]
  constructor
  · rintro ⟨var, _, found⟩
    cases var with
    | extra other =>
      dsimp only at found
      split at found
      next active =>
        cases found
        exact active
      next => cases found
    | _ => cases found
  · intro active
    exact ⟨.extra name, occurs, by dsimp only; rw [if_pos active]⟩

/-- Only the tests of `extra` see the selection. -/
lemma observe_extras {var : Variable} (other : var.isExtra = false) (env : MarkerEnvironment)
    (active chosen : List ExtraName) :
    observe env (.extras active) var = observe env (.extras chosen) var := by
  cases var with
  | extra name => cases other
  | list pair => cases pair <;> rfl
  | _ => rfl

lemma agreeOff_valuation (env : MarkerEnvironment) (active chosen : List ExtraName) :
    AgreeOff Variable.isExtra (valuation env (.extras active)) (valuation env (.extras chosen)) :=
  fun _ other => congrArg (Option.getD · _) (observe_extras other env active chosen)

/-- An assignment that differs from an environment in extras only is a selection of extras. -/
lemma denote_activeExtras (reduced : tree.Reduced) {world : Assignment}
    (agree : AgreeOff Variable.isExtra (valuation env (.extras active)) world) :
    tree.denote (valuation env (.extras (tree.activeExtras world))) = tree.denote world := by
  rw [denote, denote, <- reduced.respects_plainExtra.eval_image world]
  refine eval_congr fun var occurs => ?_
  cases isExtra : var.isExtra with
  | true =>
    cases var with
    | extra name =>
      change Point.ofBool _ = Point.ofBool _
      rw [<- contains_activeExtras occurs]
      rfl
    | _ => cases isExtra
  | false =>
    have plain : plainExtra var (world var) = world var := by
      cases var with
      | extra name => cases isExtra
      | _ => rfl
    rw [plain, <- agree var isExtra]
    exact agreeOff_valuation env _ active var isExtra

/-- The tests that have no value do not depend on the extras. -/
lemma isSome_observe (env : MarkerEnvironment) (active chosen : List ExtraName) (var : Variable) :
    (observe env (.extras active) var).isSome = (observe env (.extras chosen) var).isSome := by
  cases var with
  | list pair => cases pair <;> rfl
  | _ => rfl

/-- Evaluation meets no test without a value, whichever extras are active. -/
def SettledForExtras (env : MarkerEnvironment) (extras : ExtrasEnvironment) (tree : Tree sets) : Prop :=
  ∀ world, AgreeOff Variable.isExtra (valuation env extras) world ->
    ∀ var ∈ tree.met world, (observe env extras var).isSome = true

lemma SettledForExtras.settled (settled : tree.SettledForExtras env (.extras active))
    (chosen : List ExtraName) : tree.Settled env (.extras chosen) := fun var met =>
  (isSome_observe env chosen active var).trans (settled _ (agreeOff_valuation env active chosen) var met)

end Tree

namespace MarkerTree

variable {sets : IntervalSets}

/-- Without its extras a marker applies in an environment exactly if it applies there with some
selection of extras.  Its extras alone apply for a selection exactly if some values of all other
tests satisfy the marker together with that selection. -/
theorem withoutExtras_onlyExtras_iff (marker : MarkerTree sets) (env : MarkerEnvironment)
    (active : List ExtraName) :
    (marker.tree.SettledForExtras env (.extras active) ->
      (marker.withoutExtras.tree.evaluate env (.extras active) = true <->
        ∃ chosen, marker.tree.evaluate env (.extras chosen) = true)) /\
    (marker.onlyExtras.tree.evaluate env (.extras active) = true <->
      ∃ world : Assignment, (∀ name, world (.extra name) = .ofBool (active.contains name)) /\
          marker.denote world = true) := by
  constructor
  · intro settled
    have projection := project_isProjection Variable.isExtra marker.reduced
    have remaining : marker.withoutExtras.tree.Settled env (.extras active) := by
      intro var met
      rcases projection.met _ var met with ⟨_, world, agree, met⟩
      exact settled world agree var met
    rw [evaluate_eq_denote (reduced _) remaining]
    refine marker.denote_withoutExtras_iff.trans ⟨?_, ?_⟩
    · rintro ⟨world, agree, holds⟩
      refine ⟨marker.tree.activeExtras world, ?_⟩
      rw [evaluate_eq_denote marker.reduced (settled.settled _)]
      exact (denote_activeExtras marker.reduced agree).trans holds
    · rintro ⟨chosen, applies⟩
      exact ⟨_, agreeOff_valuation env active chosen, denote_of_evaluate applies⟩
  · have projection := project_isProjection (fun var => !var.isExtra) marker.reduced
    have remaining : marker.onlyExtras.tree.Settled env (.extras active) := by
      intro var met
      have isExtra := (projection.met _ var met).1
      cases var with
      | extra name => rfl
      | _ => cases isExtra
    have agree_iff : ∀ world : Assignment,
        Tree.AgreeOff (fun var => !var.isExtra) (valuation env (.extras active)) world <->
          ∀ name, world (.extra name) = .ofBool (active.contains name) := by
      refine fun world => ⟨fun agree name => (agree (.extra name) rfl).symm, ?_⟩
      intro selected var kept
      cases var with
      | extra name => exact (selected name).symm
      | _ => cases kept
    rw [evaluate_eq_denote (reduced _) remaining]
    constructor
    · intro holds
      have harmless : ∀ var : Variable, (!var.isExtra) = false ->
          var.isConflictingVariable = false :=
        fun var kept => isConflictingVariable_of_isExtra var (by simpa using kept)
      rcases exists_of_project harmless marker.reduced holds with ⟨world, agree, holds⟩
      exact ⟨world, (agree_iff world).mp agree, holds⟩
    · rintro ⟨world, selected, holds⟩
      exact projection.complete _ world ((agree_iff world).mpr selected) holds

theorem withoutExtras_onlyExtras_release :
    (extraByRelease.withoutExtras.tree.evaluate (darwinEnvironment "23.1.0") (.extras []) = true <->
      ∃ chosen, extraByRelease.tree.evaluate (darwinEnvironment "23.1.0")
        (.extras chosen) = true) := by
  refine (withoutExtras_onlyExtras_iff extraByRelease _ []).1 ?_
  have decided : extraByRelease.tree.Decided (darwinEnvironment "23.1.0") (.extras []) := by
    unfold Tree.Decided
    decide +kernel
  exact fun _ _ var met => decided var (mem_vars_of_met met)

/-- A release that is no version makes the marker false for every selection of extras.  Without
the extras the release is not tested. -/
theorem withoutExtras_undecided :
    extraByRelease.withoutExtras.tree.evaluate (darwinEnvironment "custom") (.extras []) = true /\
      ∀ chosen, extraByRelease.tree.evaluate (darwinEnvironment "custom") (.extras chosen) =
        false := by
  have first : extraByRelease.tree.top = some (.versionString .platformRelease) := by decide +kernel
  have unread : (Pep440.Version.fromStr "custom").toOption.isNone = true := by decide +kernel
  refine ⟨by decide +kernel, fun chosen => ?_⟩
  have unseen : observe (darwinEnvironment "custom") (.extras chosen)
      (.versionString .platformRelease) = none := by
    change (Pep440.Version.fromStr "custom").toOption.map Point.ofVersion = none
    rw [Option.isNone_iff_eq_none.mp unread, Option.map_none]
  cases shape : extraByRelease.tree with
  | leaf value =>
    rw [shape] at first
    cases first
  | node var children =>
    rw [shape] at first
    rw [Option.some.inj first, evaluate_node, unseen]
    rfl

/-! ## Assumed extras -/

/-- Assuming extras amounts to evaluating with the selection that has them. -/
lemma evaluate_simplifyExtras (marker : MarkerTree sets) {value : Bool} {isExtra : ExtraName -> Bool}
    {chosen : List ExtraName} (settled : marker.tree.Settled env (.extras chosen))
    (selected : ∀ name, chosen.contains name =
      if isExtra name then value else active.contains name) :
    (marker.simplifyExtras value isExtra).tree.evaluate env (.extras active) =
      marker.tree.evaluate env (.extras chosen) := by
  have restriction := restrictBy_isRestriction (assumeExtras value isExtra) marker.reduced
  have same : assumed (assumeExtras value isExtra) (valuation env (.extras active)) =
      valuation env (.extras chosen) := by
    funext var
    cases isExtraVar : var.isExtra with
    | true =>
      cases var with
      | extra name =>
        change _ = Point.ofBool (chosen.contains name)
        rw [selected name, assumed, assumeExtras]
        cases isExtra name <;> rfl
      | _ => cases isExtraVar
    | false =>
      have free : assumeExtras value isExtra var = none := by
        cases var with
        | extra name => cases isExtraVar
        | _ => rfl
      rw [assumed, free]
      exact agreeOff_valuation env active chosen var isExtraVar
  have remaining : (marker.simplifyExtras value isExtra).tree.Settled env (.extras active) :=
    fun var met => (isSome_observe env active chosen var).trans
      (settled var (same ▸ restriction.met _ var met))
  rw [evaluate_eq_denote (reduced _) remaining, evaluate_eq_denote marker.reduced settled, <- same]
  exact marker.denote_simplifyExtras value isExtra

/-- A simplified marker is evaluated as the marker is with the assumed extras added to the
selection, or taken from it, if that evaluation of the marker meets no test without a value. -/
theorem simplifyExtras_correct (marker : MarkerTree sets) (env : MarkerEnvironment)
    (active extras : List ExtraName) :
    (marker.tree.Settled env (.extras (active ++ extras)) ->
      (marker.simplifyExtrasWith extras.contains).tree.evaluate env (.extras active) =
        marker.tree.evaluate env (.extras (active ++ extras))) /\
    (marker.tree.Settled env (.extras (active.filter fun name => !extras.contains name)) ->
      (marker.simplifyNotExtrasWith extras.contains).tree.evaluate env (.extras active) =
        marker.tree.evaluate env (.extras (active.filter fun name => !extras.contains name))) := by
  constructor
  all_goals
    refine fun settled => evaluate_simplifyExtras marker settled fun name => ?_
    cases mem : extras.contains name <;> simp_all

theorem simplifyExtras_correct_release :
    (extraByRelease.simplifyExtrasWith ["a"].contains).tree.evaluate (darwinEnvironment "23.1.0")
      (.extras ["b"]) = extraByRelease.tree.evaluate (darwinEnvironment "23.1.0") (.extras ["b", "a"]) := by
  refine (simplifyExtras_correct extraByRelease _ ["b"] ["a"]).1 ?_
  unfold Tree.Settled
  decide +kernel

/-- With both extras assumed, the release is not tested. -/
theorem simplifyExtras_undecided :
    (extraByRelease.simplifyExtrasWith ["a", "b"].contains).tree.evaluate (darwinEnvironment "custom")
        (.extras []) = true /\
      extraByRelease.tree.evaluate (darwinEnvironment "custom") (.extras ["a", "b"]) = false := by
  constructor <;> decide +kernel

end MarkerTree

end Uv.Marker
