import Uv.Marker.MarkerTree

namespace Uv.Marker

/-!
# Disjointness against conjunction

`is_disjoint` walks two diagrams on its own and never builds their conjunction,
except where both start with a platform variable.  Platform variables come before
all others.  A tree that starts with another variable therefore has none at all,
and no call below it can meet an incompatible pair: there the conjunction is exact,
and the walk decides whether it is `false`.
-/

namespace Tree

open Function

variable {sets : IntervalSets} {x y : Tree sets}

/-- No test of the tree is about a variable with known-incompatible values. -/
def Harmless (tree : Tree sets) : Prop :=
  ∀ var ∈ tree.vars, var.isConflictingVariable = false

/-- A tree is harmless if its first test is. -/
lemma Reduced.harmless {var : Variable} {children : Edges sets (Tree sets)}
    (reduced : (Tree.node var children).Reduced) (first : var.isConflictingVariable = false) :
    (Tree.node var children).Harmless := by
  intro other occurs
  have le := reduced.le_of_mem occurs
  cases conflicting : other.isConflictingVariable with
  | false => rfl
  | true => exact (Variable.isConflictingVariable_of_le le conflicting).symm.trans first

lemma harmless_of_conflicts (reduced : x.Reduced) (reduced' : y.Reduced)
    (nontrivial : andTrivial x y = none) (apart : conflicts x y = false) :
    x.Harmless \/ y.Harmless := by
  rcases nodes_of_andTrivial nontrivial with ⟨var, children, var', children', rfl, rfl⟩
  rcases Bool.and_eq_false_iff.mp apart with first | first
  · exact .inl (reduced.harmless first)
  · exact .inr (reduced'.harmless first)

lemma conflicts_of_harmless (harmless : x.Harmless \/ y.Harmless) : conflicts x y = false := by
  have top : ∀ {tree : Tree sets}, tree.Harmless ->
      tree.top.any Variable.isConflictingVariable = false := by
    intro tree harmless
    cases tree with
    | leaf value => rfl
    | node var children => exact harmless var (mem_vars_self _ _)
  rcases harmless with harmless | harmless
  · rw [conflicts, top harmless, Bool.false_and]
  · rw [conflicts, top harmless, Bool.and_false]

/-- The platform check plays no part if one of the trees is harmless. -/
lemma andWithin_exact {fuel : Nat} : ∀ {x y : Tree sets}, x.Reduced -> y.Reduced ->
    x.Harmless \/ y.Harmless -> x.size + y.size < fuel ->
    IsConjunction (fun _ => False) x y (andWithin fuel x y) := by
  induction fuel with
  | zero => exact fun _ _ _ small => by cases small
  | succ fuel ih =>
    intro x y reduced reduced' harmless small
    rw [andWithin]
    cases trivialCase : andTrivial x y with
    | some z => exact andTrivial_isConjunction reduced reduced' trivialCase
    | none =>
      rcases nodes_of_andTrivial trivialCase with ⟨var, children, var', children', rfl, rfl⟩
      simp only [conflicts_of_harmless harmless, Bool.false_and, Bool.false_eq_true, if_false]
      refine expand_isConjunction reduced reduced' fun x y reduced reduced' smaller within => ?_
      refine ih reduced reduced' ?_ (by omega)
      -- One operand tests nothing that the harmless tree does not test.
      rcases within with ⟨first, second⟩ | ⟨first, second⟩
      · exact harmless.imp (fun h var occurs => h var (first occurs))
          fun h var occurs => h var (second occurs)
      · exact harmless.symm.imp (fun h var occurs => h var (second occurs))
          fun h var occurs => h var (first occurs)

/-- A conjunction that is exact is `false` just when the trees are disjoint. -/
lemma IsConjunction.isFalse_iff {z : Tree sets}
    (conjunction : IsConjunction (fun _ => False) x y z) :
    z.isFalse <-> Disjoint x y := by
  constructor
  · intro isFalse world first second
    have holds := conjunction.complete world first second id
    exact Tree.not_isFalse_of_denote holds isFalse
  · intro disjoint
    by_contra notFalse
    rcases conjunction.reduced.satisfiable notFalse with ⟨world, holds⟩
    have parts := conjunction.sound world holds
    exact disjoint world parts.1 parts.2

lemma isDisjoint_eq (reduced : x.Reduced) (reduced' : y.Reduced) :
    x.isDisjoint y = (and x y).isFalse := by
  rw [isDisjoint]
  cases trivialCase : andTrivial x y with
  | some z => rw [and, andWithin, trivialCase]
  | none =>
    dsimp only
    cases apart : conflicts x y with
    | true => exact if_pos rfl
    | false =>
      rw [if_neg Bool.false_ne_true, Bool.eq_iff_iff, disjointness_iff reduced reduced']
      have harmless := harmless_of_conflicts reduced reduced' trivialCase apart
      exact (andWithin_exact reduced reduced' harmless (Nat.lt_succ_self _)).isFalse_iff.symm

/-! ## Conjunctions of trees that can hold together -/

/-- The values of one assignment up to a variable, and those of another one after it. -/
def splice (level : WithBot Variable) (world other : Assignment) : Assignment :=
  fun var => if var <= level then world var else other var

/-- However many of the first values are fixed, the trees hold together with later values of an
assignment that is not excluded. -/
def Lasting (world : Assignment) (x y : Tree sets) : Prop :=
  ∀ level, ∃ other, ¬ Excluded other /\ x.denote (splice level world other) = true /\
    y.denote (splice level world other) = true

lemma splice_bot (world other : Assignment) : splice ⊥ world other = other :=
  funext fun var => if_neg (WithBot.not_coe_le_bot var)

lemma Lasting.symm {world : Assignment} (lasting : Lasting world x y) : Lasting world y x := by
  intro level
  rcases lasting level with ⟨other, admitted, holds, holds'⟩
  exact ⟨other, admitted, holds', holds⟩

lemma Lasting.cofactors {world : Assignment} {first : Variable} {x' y' : Tree sets}
    (lasting : Lasting world x y) (left : Cofactor first world x x') (right : Cofactor first world y y')
    (least : ∀ var, var ∈ x.vars \/ var ∈ y.vars -> first <= var) : Lasting world x' y' := by
  intro level
  rcases lasting (max level first) with ⟨other, admitted, holds, holds'⟩
  have same : ∀ var, first <= var ->
      update (splice level world other) first (world first) var =
        splice (max level first) world other var := by
    intro var le
    by_cases equal : var = first
    · rw [equal, update_self, splice, if_pos (le_max_right _ _)]
    · have later : ¬ (var : WithBot Variable) <= first :=
        fun before => equal (le_antisymm (WithBot.coe_le_coe.mp before) le)
      rw [update_of_ne equal, splice, splice]
      simp only [le_max_iff, later, or_false]
  refine ⟨other, admitted, (left.eval _).trans (Eq.trans ?_ holds),
    (right.eval _).trans (Eq.trans ?_ holds')⟩
  · exact eval_congr fun var occurs => same var (least var (.inl occurs))
  · exact eval_congr fun var occurs => same var (least var (.inr occurs))

/-- Below no test does the conjunction imply the exclusions. -/
lemma andWithin_of_lasting {fuel : Nat} {world : Assignment} : ∀ {x y : Tree sets}, x.Reduced ->
    y.Reduced -> x.size + y.size < fuel -> x.denote world -> y.denote world ->
    Lasting world x y -> (andWithin fuel x y).denote world := by
  induction fuel with
  | zero => exact fun _ _ small => by cases small
  | succ fuel ih =>
    intro x y reduced reduced' small holds holds' lasting
    rw [andWithin]
    split
    next z trivialCase =>
      have spec := @andTrivial_isConjunction _ (fun _ => False) x y z reduced reduced' trivialCase
      exact spec.complete world holds holds' id
    next trivialCase =>
      rcases nodes_of_andTrivial trivialCase with ⟨var, children, var', children', rfl, rfl⟩
      have fits := fun {bound : Nat} (smaller : bound < _) =>
        Nat.lt_of_lt_of_le smaller (Nat.le_of_lt_succ small)
      rcases expand_expands reduced reduced' fun x y (reduced : x.Reduced) (reduced' : y.Reduced)
        smaller _ => andWithin_isConjunction reduced reduced' (fits smaller) with ⟨first, expands⟩
      dsimp only
      split
      next collapse =>
        have expanded := expands.isConjunction
        rw [Bool.and_eq_true] at collapse
        have disjoint := (disjointness_iff expanded.reduced exclusions_reduced.not).mp collapse.2
        rcases lasting ⊥ with ⟨other, admitted, first, second⟩
        rw [splice_bot] at first second
        refine absurd ?_ (disjoint other (expanded.complete other first second admitted))
        rw [denote_not _ exclusions_reduced, Bool.not_eq_true', Bool.eq_false_iff]
        exact fun excluded => admitted ((denote_exclusions other).mp excluded)
      · rcases expands.follows world with ⟨x, y, z, left, right, smaller, call, _, denotes, _⟩
        have lasting := lasting.cofactors left right expands.least
        have holds := left.denotes.trans holds
        have holds' := right.denotes.trans holds'
        rw [denotes]
        rcases call with rfl | rfl
        · exact ih left.reduced right.reduced (fits smaller) holds holds' lasting
        · exact ih right.reduced left.reduced (fits (by omega)) holds' holds lasting.symm

lemma and_of_lasting (reduced : x.Reduced) (reduced' : y.Reduced) {world : Assignment}
    (holds : x.denote world) (holds' : y.denote world) (lasting : Lasting world x y) :
    (and x y).denote world :=
  andWithin_of_lasting reduced reduced' (Nat.lt_succ_self _) holds holds' lasting

/-- Where the trees hold together, they also do for platforms that are not excluded.  This is
still so when the value of `os_name`, which is tested first, is given. -/
def Feasible (x y : Tree sets) : Prop :=
  ∀ world, x.denote world = true -> y.denote world = true ->
    (∃ other, ¬ Excluded other /\ x.denote other = true /\ y.denote other = true) /\
    ∃ other, ¬ Excluded other /\
      x.denote (update other (.string .osName) (world (.string .osName))) = true /\
      y.denote (update other (.string .osName) (world (.string .osName))) = true

/-- Values of `sys_platform` occur in all incompatible pairs. -/
lemma Feasible.lasting (feasible : Feasible x y) {world : Assignment} (holds : x.denote world)
    (holds' : y.denote world) : Lasting world x y := by
  intro level
  rcases feasible world holds holds' with ⟨⟨other, admitted, both⟩, other', admitted', both'⟩
  rcases lt_or_ge level (Variable.string .osName) with before | after
  · have same : splice level world other = other := by
      refine funext fun var => if_neg fun le => ?_
      exact absurd (WithBot.coe_lt_coe.mp (le.trans_lt before)) var.osName_le.not_gt
    exact ⟨other, admitted, same.symm ▸ both⟩
  rcases lt_or_ge level (Variable.string .sysPlatform) with before | after
  · have same : splice level world other' =
        update other' (.string .osName) (world (.string .osName)) := by
      funext var
      rw [splice]
      split
      next le =>
        have first := Variable.eq_osName_of_lt (WithBot.coe_lt_coe.mp (le.trans_lt before))
        rw [first, update_self]
      next later =>
        rw [update_of_ne]
        rintro rfl
        exact later after
    exact ⟨other', admitted', same.symm ▸ both'⟩
  · have spliced : ∀ point, splice level world (update world (.string .sysPlatform) point) = world := by
      refine fun point => funext fun var => ?_
      rw [splice]
      split
      · rfl
      next later =>
        rw [update_of_ne]
        rintro rfl
        exact later after
    refine ⟨update world (.string .sysPlatform)
      { world (.string .sysPlatform) with string := ⟨"", .exact⟩ }, ?_, ?_⟩
    · rintro ⟨pair, mem, _, second⟩
      have known : ∀ pair ∈ incompatiblePairs, pair.2.1 = .sysPlatform /\ "" ≠ pair.2.2 := by decide
      refine (known pair mem).2 ((hasValue_iff ?_).mp second)
      rw [(known pair mem).1, update_self]
    · rw [spliced]
      exact ⟨holds, holds'⟩

/-- One tree tests no platform, or the trees can hold together. -/
def Exact (x y : Tree sets) : Prop :=
  (x.Harmless \/ y.Harmless) \/ Feasible x y

/-- Both trees test platforms, and they hold together in excluded combinations only. -/
def Apart (x y : Tree sets) : Prop :=
  ¬ x.Harmless /\ ¬ y.Harmless /\ x.beq y = false /\
    ∀ world, x.denote world = true -> y.denote world = true -> Excluded world

section

variable (reduced : x.Reduced) (reduced' : y.Reduced)

include reduced reduced'

lemma Exact.denote_and (exact : Exact x y) (world : Assignment) :
    (and x y).denote world = (x.denote world && y.denote world) := by
  rw [Bool.eq_iff_iff, Bool.and_eq_true]
  refine ⟨(and_isConjunction reduced reduced').sound world, fun both => ?_⟩
  rcases exact with harmless | feasible
  · exact (andWithin_exact reduced reduced' harmless (Nat.lt_succ_self _)).complete world
      both.1 both.2 id
  · exact and_of_lasting reduced reduced' both.1 both.2 (feasible.lasting both.1 both.2)

lemma Apart.and_eq (apart : Apart x y) : and x y = .leaf false := by
  rcases apart with ⟨tests, tests', different, excluded⟩
  cases trivialCase : andTrivial x y with
  | some z =>
    rw [and, andWithin, trivialCase]
    -- Neither tree is a constant, so that they are complements.
    have constant : ∀ {value : Bool} {tree : Tree sets}, tree = .leaf value -> tree.Harmless := by
      rintro value _ rfl var occurs
      cases occurs
    rw [andTrivial, if_neg fun isTrue => tests (constant ((isTrue_iff x).mp isTrue)),
      if_neg fun isTrue => tests' (constant ((isTrue_iff y).mp isTrue)), different,
      if_neg Bool.false_ne_true] at trivialCase
    split at trivialCase
    · exact (Option.some.inj trivialCase).symm
    split at trivialCase
    · exact (Option.some.inj trivialCase).symm
    · cases trivialCase
  | none =>
    refine and_eq_false reduced reduced' ?_ trivialCase excluded
    by_contra conflicting
    have harmless := harmless_of_conflicts reduced reduced' trivialCase
      (Bool.eq_false_iff.mpr conflicting)
    exact harmless.elim tests tests'

end

end Tree

namespace MarkerTree

variable {sets : IntervalSets} {marker other : MarkerTree sets}

lemma denote_and_of_exact (exact : marker.tree.Exact other.tree) (world : Assignment) :
    (marker.and other).denote world = (marker.denote world && other.denote world) :=
  exact.denote_and marker.reduced other.reduced world

lemma denote_and_of_apart (apart : marker.tree.Apart other.tree) (world : Assignment) :
    (marker.and other).denote world = false :=
  congrArg (fun tree => Tree.denote tree world) (apart.and_eq marker.reduced other.reduced)

end MarkerTree

/-- Two markers are disjoint just when their conjunction is the marker that never
applies. -/
theorem MarkerTree.isDisjoint_iff_and {sets : IntervalSets} (marker other : MarkerTree sets) :
    marker.isDisjoint other = true <-> marker.and other = MarkerTree.FALSE := by
  rw [<- MarkerTree.isFalse_iff]
  exact Bool.eq_iff_iff.mp (Tree.isDisjoint_eq marker.reduced other.reduced)

end Uv.Marker
