import Uv.Marker.Algebra

namespace Uv.Marker

open Pep440 Library

/-!
# Known-incompatible platforms

The standard allows every combination of platform values, but some never occur:
no Windows reports `sys_platform == 'darwin'`.  The pairs that are known to be
incompatible form a tree of their own, the exclusions, and a conjunction that
implies the exclusions is `false`.
-/

/-- A platform variable with one of its values. -/
abbrev PlatformValue := CanonicalMarkerValueString × String

/-- The pairs of values that are known to be incompatible. -/
def incompatiblePairs : List (PlatformValue × PlatformValue) :=
  [ ((.osName, "nt"), (.sysPlatform, "linux")),
    ((.osName, "nt"), (.sysPlatform, "darwin")),
    ((.osName, "nt"), (.sysPlatform, "ios")),
    ((.osName, "posix"), (.sysPlatform, "win32")) ] ++
  ["FreeBSD", "NetBSD", "OpenBSD", "SunOS", "iOS", "iPadOS"].flatMap fun platformSystem =>
    ["aix", "android", "emscripten", "ios", "linux", "darwin", "win32", "cygwin", "wasi"].filterMap
      fun sysPlatform =>
        -- These values are compatible.
        if sysPlatform == "ios" && (platformSystem == "iOS" || platformSystem == "iPadOS") then none
        else some ((.platformSystem, platformSystem), (.sysPlatform, sysPlatform))

/-- The platform variable has the value. -/
def hasValue (world : Assignment) (value : PlatformValue) : Bool :=
  Segment.admits compare ⟨.included value.2, .included value.2⟩ (world (.string value.1)).string

variable {world : Assignment}

lemma hasValue_iff {value : PlatformValue} {string : String}
    (assigned : (world (.string value.1)).string = ⟨string, .exact⟩) :
    hasValue world value <-> string = value.2 := by
  rw [hasValue, assigned, Segment.admits, Bool.and_eq_true,
    Bound.includedAbove_exact stringCompare_orderedBy,
    Bound.includedBelow_exact stringCompare_orderedBy, and_comm]
  exact le_antisymm_iff.symm

/-- The assignment has two incompatible values. -/
def Excluded (world : Assignment) : Prop :=
  ∃ pair ∈ incompatiblePairs, hasValue world pair.1 = true /\ hasValue world pair.2 = true

/-- Some assignment that is not excluded agrees on all variables without incompatible values. -/
lemma exists_admitted (world : Assignment) :
    ∃ world', ¬ Excluded world' /\ ∀ var : Variable, var.isConflictingVariable = false ->
        world' var = world var := by
  refine ⟨fun var => if var.isConflictingVariable then
    ⟨(world var).version, ⟨"", .exact⟩, (world var).boolean⟩ else world var, ?_, ?_⟩
  · rintro ⟨pair, mem, first, _⟩
    have known : ∀ pair ∈ incompatiblePairs,
        pair.1.1.isConflicting /\ "" ≠ pair.1.2 := by decide
    rcases known pair mem with ⟨conflicting, nonempty⟩
    refine nonempty ((hasValue_iff ?_).mp first)
    have conflicting : (Variable.string pair.1.1).isConflictingVariable := conflicting
    rw [if_pos conflicting]
  · intro var harmless
    exact if_neg (Bool.eq_false_iff.mp harmless)

namespace Tree

variable {sets : IntervalSets} (value : PlatformValue)

/-- The tree of `key == value`. -/
def stringEqual : Tree sets :=
  stringNode (.string value.1) (sets.strings.singleton value.2)

lemma stringEqual_decides :
    (stringEqual value : Tree sets).Decides (.string value.1) fun point =>
      Segment.admits compare ⟨.included value.2, .included value.2⟩ point.string := by
  have singleton : ∀ spot, sets.strings.mem (sets.strings.singleton value.2) spot =
      Segment.admits compare ⟨.included value.2, .included value.2⟩ spot :=
    fun spot => sets.strings.mem_singleton value.2 spot
  simp only [<- singleton]
  exact stringNode_decides rfl _

variable (sets) in
/-- The disjunction of the incompatible pairs. -/
def exclusions : Tree sets :=
  incompatiblePairs.foldl
    (fun tree pair => disjunction tree (conjunction (stringEqual pair.1) (stringEqual pair.2)))
    (.leaf false)

/-- The loop that builds the exclusions. -/
lemma foldl_exclusions (pairs : List (PlatformValue × PlatformValue)) : ∀ tree : Tree sets,
    tree.Reduced ->
    let result := pairs.foldl
      (fun tree pair => disjunction tree (conjunction (stringEqual pair.1) (stringEqual pair.2))) tree
    result.Reduced /\ ∀ world, result.denote world <->
      tree.denote world \/ ∃ pair ∈ pairs,
        hasValue world pair.1 /\ hasValue world pair.2 := by
  induction pairs with
  | nil =>
    intro tree reduced
    refine ⟨reduced, fun world => ?_⟩
    simp
  | cons pair pairs ih =>
    intro tree reduced
    have first := @stringEqual_decides sets pair.1
    have second := @stringEqual_decides sets pair.2
    rcases denote_conjunction first.reduced second.reduced with ⟨bothReduced, both⟩
    rcases denote_disjunction reduced bothReduced with ⟨nextReduced, next⟩
    rcases ih _ nextReduced with ⟨resultReduced, denotes⟩
    refine ⟨resultReduced, fun world => (denotes world).trans ?_⟩
    rw [next, both, first.denotes, second.denotes, Bool.or_eq_true, Bool.and_eq_true]
    simp only [List.mem_cons, or_and_right, exists_or, exists_eq_left, or_assoc]
    exact Iff.rfl

lemma exclusions_reduced : (exclusions sets).Reduced :=
  (foldl_exclusions incompatiblePairs (.leaf false) (.leaf false)).1

lemma denote_exclusions (world : Assignment) :
    (exclusions sets).denote world <-> Excluded world := by
  refine ((foldl_exclusions incompatiblePairs (.leaf false) (.leaf false)).2 world).trans ?_
  exact or_iff_right Bool.false_ne_true

/-! ## Conjunction with knowledge about platforms -/

variable (x y : Tree sets)

/-- Both trees start with a variable that occurs in an incompatible pair. -/
def conflicts : Bool :=
  x.top.any Variable.isConflictingVariable && y.top.any Variable.isConflictingVariable

/-- If the conjunction includes known incompatibilities only, it is `false`. -/
def andWithin : Nat -> Tree sets -> Tree sets -> Tree sets
  | 0, _, _ => .leaf false
  | fuel + 1, x, y =>
    match andTrivial x y with
    | some z => z
    | none =>
      let node := expand (andWithin fuel) x y
      if conflicts x y && disjointness node (exclusions sets).not then .leaf false else node

def and : Tree sets :=
  andWithin (x.size + y.size + 1) x y

def or : Tree sets :=
  (and x.not y.not).not

lemma andWithin_isConjunction {fuel : Nat} : ∀ {x y : Tree sets}, x.Reduced -> y.Reduced ->
    x.size + y.size < fuel -> IsConjunction Excluded x y (andWithin fuel x y) := by
  induction fuel with
  | zero => exact fun _ _ small => by cases small
  | succ fuel ih =>
    intro x y reduced reduced' small
    rw [andWithin]
    split
    next z trivialCase => exact andTrivial_isConjunction reduced reduced' trivialCase
    next trivialCase =>
      rcases nodes_of_andTrivial trivialCase with ⟨var, children, var', children', rfl, rfl⟩
      have expanded := expand_isConjunction reduced reduced'
        fun x y (reduced : x.Reduced) (reduced' : y.Reduced) smaller _ =>
          ih reduced reduced' (Nat.lt_of_lt_of_le smaller (Nat.le_of_lt_succ small))
      dsimp only
      split
      next collapse =>
        rw [Bool.and_eq_true] at collapse
        have disjoint := (disjointness_iff expanded.reduced exclusions_reduced.not).mp collapse.2
        refine IsConjunction.of_excluded fun world first second => ?_
        by_contra admitted
        refine disjoint world (expanded.complete world first second admitted) ?_
        rw [denote_not _ exclusions_reduced, Bool.not_eq_true', Bool.eq_false_iff]
        exact fun excluded => admitted ((denote_exclusions world).mp excluded)
      · exact expanded

variable {x y : Tree sets} (reduced : x.Reduced) (reduced' : y.Reduced)

include reduced reduced'

lemma and_isConjunction : IsConjunction Excluded x y (and x y) :=
  andWithin_isConjunction reduced reduced' (Nat.lt_succ_self _)

/-- A conjunction of platform tests that holds in excluded combinations only is `false`. -/
lemma and_eq_false (conflicting : conflicts x y) (nontrivial : andTrivial x y = none)
    (excluded : ∀ world, x.denote world -> y.denote world ->
      Excluded world) : and x y = .leaf false := by
  rw [and, andWithin, nontrivial]
  rcases nodes_of_andTrivial nontrivial with ⟨var, children, var', children', rfl, rfl⟩
  have expanded := expand_isConjunction reduced reduced'
    fun x y (reduced : x.Reduced) (reduced' : y.Reduced) smaller _ =>
      andWithin_isConjunction reduced reduced' smaller
  have disjoint := (disjointness_iff expanded.reduced exclusions_reduced.not).mpr ?_
  · dsimp only
    rw [conflicting, disjoint, Bool.and_self, if_pos rfl]
  · intro world both apart
    rw [denote_not _ exclusions_reduced, Bool.not_eq_true', Bool.eq_false_iff] at apart
    have parts := expanded.sound world both
    exact apart ((denote_exclusions world).mpr (excluded world parts.1 parts.2))

/-- Where no values are excluded, conjunction is exact. -/
lemma denote_and (admitted : ¬ Excluded world) :
    (and x y).denote world = (x.denote world && y.denote world) := by
  have spec := and_isConjunction reduced reduced'
  rw [Bool.eq_iff_iff, Bool.and_eq_true]
  exact ⟨spec.sound world, fun both => spec.complete world both.1 both.2 admitted⟩

lemma or_reduced : (or x y).Reduced :=
  (and_isConjunction reduced.not reduced'.not).reduced.not

lemma denote_or (admitted : ¬ Excluded world) :
    (or x y).denote world = (x.denote world || y.denote world) := by
  have spec := and_isConjunction reduced.not reduced'.not
  rw [or, denote_not _ spec.reduced, denote_and reduced.not reduced'.not admitted,
    denote_not _ reduced, denote_not _ reduced', Bool.not_and, Bool.not_not, Bool.not_not]

/-- A disjunction holds wherever one of its operands does. -/
lemma denote_or_of_denote (holds : x.denote world \/ y.denote world) :
    (or x y).denote world := by
  have spec := and_isConjunction reduced.not reduced'.not
  rw [or, denote_not _ spec.reduced, Bool.not_eq_true', Bool.eq_false_iff]
  intro both
  have parts := spec.sound world both
  rw [denote_not _ reduced, denote_not _ reduced', Bool.not_eq_true', Bool.not_eq_true'] at parts
  rcases holds with holds | holds
  · exact Bool.false_ne_true (parts.1.symm.trans holds)
  · exact Bool.false_ne_true (parts.2.symm.trans holds)

end Tree

end Uv.Marker
