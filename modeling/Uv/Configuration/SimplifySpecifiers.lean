import Uv.Configuration.Coverage
import Uv.Library.Pruning
import Uv.Pep440.SpecifierDisplay

namespace Uv.Configuration

open Library Pep440 List VersionRangeCoverage

/-!
# Removing implied specifiers

A list of specifiers is brought into a normal order, and a clause is dropped if
the others exclude every version that it excludes.  Two properties of the list are
kept on purpose: whether a clause opts into pre-releases, and whether the list is a
single pin, which permits yanked versions.  The loop is the general one that drops
items one after the other, with these conditions for what is removable.
-/

variable (specifier : VersionSpecifier)

/-- The specifier mentions a pre-release. -/
def specifierOptsIntoPrereleases : Bool :=
  match specifier.operator with
  | .notEqual | .notEqualStar => false
  | .equal | .equalStar | .exactEqual | .tildeEqual | .lessThan | .lessThanEqual | .greaterThan
  | .greaterThanEqual => specifier.version.anyPrerelease

/-- A standalone equality clause permits its version even when it is yanked. -/
def allowsYanked : List VersionSpecifier -> Bool
  | [] => false
  | specifier :: rest =>
    rest.isEmpty &&
      match specifier.operator with
      | .equal | .exactEqual => true
      | .notEqual | .tildeEqual | .lessThan | .lessThanEqual | .greaterThan | .greaterThanEqual
      | .equalStar | .notEqualStar => false

/-- The length of a release without its trailing zeros, looking at the first
numbers only.  One number is always left. -/
def significantLength (release : List UInt64) : Nat -> Nat
  | 0 => 0
  | 1 => 1
  | length + 2 =>
    if release[length + 1]? == some 0 then significantLength release (length + 1) else length + 2

lemma significantLength_pos (release : List UInt64) (length : Nat) :
    0 < significantLength release (length + 1) := by
  induction length with
  | zero => exact Nat.one_pos
  | succ length ih =>
    rw [significantLength]
    split
    · exact ih
    · exact Nat.succ_pos _

lemma take_significant_ne_nil (version : Version) :
    version.release.take (significantLength version.release version.release.length) ≠ [] := by
  intro empty
  cases release : version.release with
  | nil => exact version.nonempty release
  | cons number rest =>
    rw [release, length_cons] at empty
    have positive := significantLength_pos (number :: rest) rest.length
    rw [take_eq_nil_iff] at empty
    rcases empty with zero | none
    · exact positive.ne' zero
    · cases none

/-- The specifier without insignificant trailing zeros. -/
def trimTrailingZeros : VersionSpecifier :=
  let release := specifier.version.release
  let releaseLen := significantLength release release.length
  if releaseLen = release.length then specifier
  else
    let version := specifier.version.withRelease (release.take releaseLen)
      (take_significant_ne_nil specifier.version)
    match VersionSpecifier.fromVersion specifier.operator version with
    | .ok normalized => normalized
    | .error _ => specifier

/-- Trailing zeros are dropped where they do not change what is accepted. -/
def normalizeSpecifier : VersionSpecifier :=
  match specifier.operator with
  | .equalStar | .notEqualStar | .tildeEqual => specifier
  | .equal | .exactEqual | .notEqual | .lessThan | .lessThanEqual | .greaterThan
  | .greaterThanEqual => trimTrailingZeros specifier

/-- The specifiers that are retained, apart from the one at the index. -/
def remainingOf (specifiers : List VersionSpecifier) (retained : List Bool) (index : Nat) :
    List VersionSpecifier :=
  (specifiers.zipIdx.filter fun entry =>
    entry.2 != index && retained.getD entry.2 false).map Prod.fst

structure SimplifyState where
  coverage : VersionRangeCoverage
  retained : List Bool
  retainedCount : Nat
  prereleaseCount : Nat

section

variable (alg : RangeAlgebra Version Version.cmp)

/-- The versions that a specifier excludes, with canonical bounds. -/
def exclusionOf (specifier : VersionSpecifier) : Option alg.Ranges :=
  (specifier.toRanges alg).map fun range => alg.complement (canonical alg range)

/-- One pass of the loop.  A failure is a panic. -/
def simplifyStep (specifiers : List VersionSpecifier) (exclusions : List alg.Ranges)
    (state : SimplifyState) (entry : VersionSpecifier × Nat) : Option SimplifyState :=
  let (specifier, index) := entry
  let remaining := remainingOf specifiers state.retained index
  if state.retainedCount == 2 && allowsYanked remaining ||
      specifierOptsIntoPrereleases specifier && state.prereleaseCount == 1 then some state
  else do
    let exclusion <- exclusions[index]?
    let redundant <- state.coverage.isRedundant alg exclusion
    if redundant then do
      let coverage <- state.coverage.remove alg exclusion
      some
        { coverage := coverage
          retained := state.retained.set index false
          retainedCount := state.retainedCount - 1
          prereleaseCount := state.prereleaseCount -
            if specifierOptsIntoPrereleases specifier then 1 else 0 }
    else some state

/-- The specifiers whose flags are set. -/
def retainedOf {α : Type} (items : List α) (retained : List Bool) : List α :=
  (items.zip retained).filterMap fun entry => if entry.2 then some entry.1 else none

def simplifySpecifiers (list : VersionSpecifiers) : Option VersionSpecifiers := do
  let specifiers := (list.specifiers.map normalizeSpecifier).mergeSort
    fun left right => decide (left.display <= right.display)
  let exclusions <- specifiers.mapM (exclusionOf alg)
  let coverage <- VersionRangeCoverage.new alg exclusions
  let state <- specifiers.zipIdx.foldlM (simplifyStep alg specifiers exclusions)
    { coverage := coverage
      retained := List.replicate specifiers.length true
      retainedCount := specifiers.length
      prereleaseCount := specifiers.countP specifierOptsIntoPrereleases }
  some (.fromUnsorted (retainedOf specifiers state.retained))

end

/-! ## Flags and lists -/

variable {flags : List Bool}

section

variable {α β : Type}

lemma retainedOf_cons_false (item : α) (items : List α) (flags : List Bool) :
    retainedOf (item :: items) (false :: flags) = retainedOf items flags := rfl

lemma retainedOf_cons_true (item : α) (items : List α) (flags : List Bool) :
    retainedOf (item :: items) (true :: flags) = item :: retainedOf items flags := rfl

lemma retainedOf_append {before after : List α} {flags' : List Bool}
    (same : flags.length = before.length) :
    retainedOf (before ++ after) (flags ++ flags') =
      retainedOf before flags ++ retainedOf after flags' := by
  rw [retainedOf, zip_append same.symm, filterMap_append, <- retainedOf, <- retainedOf]

lemma retainedOf_replicate (items : List α) :
    retainedOf items (List.replicate items.length true) = items := by
  induction items with
  | nil => rfl
  | cons item rest ih => rw [length_cons, replicate_succ, retainedOf_cons_true, ih]

lemma retainedOf_map (change : α -> β) (items : List α) (flags : List Bool) :
    retainedOf (items.map change) flags = (retainedOf items flags).map change := by
  induction items generalizing flags with
  | nil => rfl
  | cons item rest ih =>
    cases flags with
    | nil => rfl
    | cons flag flags =>
      cases flag with
      | false => rw [map_cons, retainedOf_cons_false, retainedOf_cons_false, ih]
      | true => rw [map_cons, retainedOf_cons_true, retainedOf_cons_true, map_cons, ih]

/-- Filtering numbered items by a test of their numbers. -/
lemma filter_zipIdx {test : Nat -> Bool} (items : List α) :
    ∀ (start : Nat) (flags : List Bool), flags.length = items.length ->
      (∀ offset, offset < items.length -> test (start + offset) = flags.getD offset false) ->
      ((items.zipIdx start).filter fun entry => test entry.2).map Prod.fst =
        retainedOf items flags := by
  induction items with
  | nil => exact fun start flags _ _ => rfl
  | cons item rest ih =>
    intro start flags length tests
    cases flags with
    | nil => exact absurd length (Nat.zero_ne_add_one _)
    | cons flag flags =>
      have first := tests 0 (Nat.succ_pos _)
      rw [Nat.add_zero, getD_cons_zero] at first
      have later := ih (start + 1) flags (Nat.succ.inj length) fun offset small => by
        rw [Nat.add_right_comm, Nat.add_assoc, tests (offset + 1) (Nat.succ_lt_succ small),
          getD_cons_succ]
      rw [zipIdx_cons, filter_cons]
      cases flag with
      | false => rw [if_neg (by rw [first]; exact Bool.false_ne_true), later, retainedOf_cons_false]
      | true => rw [if_pos first, map_cons, later, retainedOf_cons_true]

/-- In the middle of the loop, what remains is what was kept and what is to come. -/
lemma remainingOf_middle (before : List VersionSpecifier) (specifier : VersionSpecifier)
    (after : List VersionSpecifier) (same : flags.length = before.length) :
    remainingOf (before ++ specifier :: after)
        (flags ++ List.replicate (after.length + 1) true) before.length =
      retainedOf before flags ++ after := by
  have early : ∀ offset, offset < before.length ->
      (0 + offset != before.length &&
        (flags ++ replicate (after.length + 1) true).getD (0 + offset) false) =
          flags.getD offset false := by
    intro offset small
    have different : (offset != before.length) := bne_iff_ne.mpr (Nat.ne_of_lt small)
    rw [Nat.zero_add, different, Bool.true_and, getD_append _ _ _ _ (by omega)]
  have late : ∀ offset, offset < after.length ->
      (before.length + 1 + offset != before.length &&
        (flags ++ replicate (after.length + 1) true).getD (before.length + 1 + offset) false) =
          (replicate after.length true).getD offset false := by
    intro offset small
    have different : (before.length + 1 + offset != before.length) :=
      bne_iff_ne.mpr (by omega)
    rw [different, Bool.true_and, getD_append_right _ _ _ _ (by omega),
      getD_replicate _ (by omega), getD_replicate _ small]
  have own : (before.length != before.length &&
      (flags ++ replicate (after.length + 1) true).getD before.length false) = false := by
    rw [bne_self_eq_false, Bool.false_and]
  have first := @filter_zipIdx _ (fun other => other != before.length &&
    (flags ++ replicate (after.length + 1) true).getD other false) before 0 flags same early
  have last := @filter_zipIdx _ (fun other => other != before.length &&
    (flags ++ replicate (after.length + 1) true).getD other false) after (before.length + 1)
    (replicate after.length true) length_replicate late
  rw [remainingOf, zipIdx_append, zipIdx_cons, Nat.zero_add, filter_append,
    map_append, first, filter_cons, if_neg (by rw [own]; exact Bool.false_ne_true), last,
    retainedOf_replicate]

end

/-! ## The loop drops removable items -/

section

variable (alg : RangeAlgebra Version Version.cmp) (others : List (VersionSpecifier × alg.Ranges))

variable (item : VersionSpecifier × alg.Ranges)

/-- The others exclude what the item excludes. -/
def Implied : Prop :=
  ∀ spot, alg.mem item.2 spot = true -> ∃ other ∈ others, alg.mem other.2 spot = true

/-- The others are no single pin, and the item is not the only one that opts into
pre-releases. -/
def spared {α : Type} (others : List (VersionSpecifier × α)) (item : VersionSpecifier × α) : Bool :=
  !allowsYanked (others.map Prod.fst) &&
    (!specifierOptsIntoPrereleases item.1 ||
      others.any fun other => specifierOptsIntoPrereleases other.1)

open Classical in
/-- What the loop asks of an item, in view of the others that are left. -/
noncomputable def removable : Bool :=
  spared others item && decide (Implied alg others item)

open Classical in
lemma removable_iff {alg : RangeAlgebra Version Version.cmp}
    {others : List (VersionSpecifier × alg.Ranges)} {item : VersionSpecifier × alg.Ranges} :
    removable alg others item <->
      spared others item /\ Implied alg others item := by
  rw [removable, Bool.and_eq_true, decide_eq_true_iff]

variable {alg : RangeAlgebra Version Version.cmp}

lemma allowsYanked_length {specifiers : List VersionSpecifier}
    (single : allowsYanked specifiers) : specifiers.length = 1 := by
  cases specifiers with
  | nil => cases single
  | cons specifier rest =>
    rw [allowsYanked, Bool.and_eq_true, List.isEmpty_iff] at single
    rw [single.1, List.length_singleton]

/-- The state between two passes: the items before were kept or dropped, and those
to come are all there. -/
structure SimplifyState.Agrees (state : SimplifyState) (flags : List Bool)
    (kept todo : List (VersionSpecifier × alg.Ranges)) : Prop where
  retained : state.retained = flags ++ List.replicate todo.length true
  retainedCount : state.retainedCount = (kept ++ todo).length
  prereleaseCount : state.prereleaseCount =
    (kept ++ todo).countP fun item => specifierOptsIntoPrereleases item.1
  tracks : state.coverage.Tracks fun spot =>
    VersionRangeCoverage.covering alg ((kept ++ todo).map Prod.snd) spot

lemma covering_middle (kept : List alg.Ranges) (exclusion : alg.Ranges)
    (rest : List alg.Ranges) (spot : Position Version) :
    VersionRangeCoverage.covering alg (kept ++ exclusion :: rest) spot =
      VersionRangeCoverage.covering alg (kept ++ rest) spot +
        if alg.mem exclusion spot then 1 else 0 := by
  rw [covering, covering, perm_middle.countP_eq, countP_cons]

variable {state : SimplifyState} {kept rest : List (VersionSpecifier × alg.Ranges)}
variable {item : VersionSpecifier × alg.Ranges}

section

variable (agrees : state.Agrees flags kept (item :: rest))

include agrees

/-- The test of a pass is whether the item is removable. -/
lemma SimplifyState.Agrees.redundant (mem : state.coverage.ListsAll alg item.2) :
    ∃ answer, state.coverage.isRedundant alg item.2 = some answer /\
      (answer <-> Implied alg (kept ++ rest) item) := by
  rcases isRedundant_spec agrees.tracks mem with ⟨answer, asked, spec⟩
  refine ⟨answer, asked, spec.trans (forall_congr' fun spot => imp_congr_right fun inside => ?_)⟩
  rw [map_append, map_cons, covering_middle, if_pos inside, <- map_append, covering]
  have positive : (2 : Int) <= ((((kept ++ rest).map Prod.snd).countP
      (fun exclusion => alg.mem exclusion spot) + 1 : Nat) : Int) <->
        0 < ((kept ++ rest).map Prod.snd).countP fun exclusion => alg.mem exclusion spot := by
    omega
  rw [positive, countP_pos_iff]
  constructor
  · rintro ⟨exclusion, found, member⟩
    rcases mem_map.mp found with ⟨other, found', rfl⟩
    exact ⟨other, found', member⟩
  · rintro ⟨other, found, member⟩
    exact ⟨other.2, mem_map_of_mem found, member⟩

/-- The two conditions under which a pass keeps an item without a further look. -/
lemma SimplifyState.Agrees.guard_iff :
    (state.retainedCount == 2 && allowsYanked ((kept ++ rest).map Prod.fst) ||
      specifierOptsIntoPrereleases item.1 && state.prereleaseCount == 1) =
      !spared (kept ++ rest) item := by
  have pins : (state.retainedCount == 2 && allowsYanked ((kept ++ rest).map Prod.fst)) =
      allowsYanked ((kept ++ rest).map Prod.fst) := by
    cases single : allowsYanked ((kept ++ rest).map Prod.fst) with
    | false => rw [Bool.and_false]
    | true =>
      have length := allowsYanked_length single
      rw [length_map, length_append] at length
      have two : state.retainedCount = 2 := by
        rw [agrees.retainedCount, length_append, length_cons]
        omega
      rw [two]
      rfl
  have prereleases : (specifierOptsIntoPrereleases item.1 && state.prereleaseCount == 1) =
      (specifierOptsIntoPrereleases item.1 &&
        !(kept ++ rest).any fun other => specifierOptsIntoPrereleases other.1) := by
    cases opts : specifierOptsIntoPrereleases item.1 with
    | false => rfl
    | true =>
      rw [Bool.true_and, Bool.true_and, agrees.prereleaseCount, perm_middle.countP_eq,
        countP_cons, if_pos opts, Bool.eq_iff_iff, beq_iff_eq, Bool.not_eq_true',
        any_eq_false, Nat.add_eq_right, countP_eq_zero]
  rw [pins, prereleases, spared, Bool.not_and, Bool.not_not, Bool.not_or, Bool.not_not]

/-- After an item was kept. -/
lemma SimplifyState.Agrees.keep :
    state.Agrees (flags ++ [true]) (kept ++ [item]) rest where
  retained := by
    rw [agrees.retained, length_cons, replicate_succ, append_assoc, singleton_append]
  retainedCount := by rw [agrees.retainedCount, append_assoc, singleton_append]
  prereleaseCount := by rw [agrees.prereleaseCount, append_assoc, singleton_append]
  tracks := by
    rw [append_assoc, singleton_append]
    exact agrees.tracks

/-- After an item was dropped. -/
lemma SimplifyState.Agrees.drop {index : Nat} (spot : flags.length = index)
    (mem : state.coverage.ListsAll alg item.2) :
    ∃ coverage, state.coverage.remove alg item.2 = some coverage /\
      coverage.endpoints = state.coverage.endpoints /\
      SimplifyState.Agrees
        { coverage := coverage
          retained := state.retained.set index false
          retainedCount := state.retainedCount - 1
          prereleaseCount := state.prereleaseCount -
            if specifierOptsIntoPrereleases item.1 then 1 else 0 }
        (flags ++ [false]) kept rest := by
  rcases update_spec agrees.tracks mem (-1) with
    ⟨coverage, updated, endpoints, tracks⟩
  refine ⟨coverage, updated, endpoints, ?_, ?_, ?_, ?_⟩
  · rw [agrees.retained, <- spot, set_append_right _ _ (Nat.le_refl _), Nat.sub_self,
      length_cons, replicate_succ, set_cons_zero, append_assoc, singleton_append]
  · simp only [agrees.retainedCount, length_append, length_cons]
    omega
  · simp only [agrees.prereleaseCount, perm_middle.countP_eq, countP_cons, Nat.add_sub_cancel]
  · have same : (fun spot =>
        (covering alg ((kept ++ item :: rest).map Prod.snd) spot : Int) +
          if alg.mem item.2 spot then -1 else 0) = fun spot =>
        (covering alg ((kept ++ rest).map Prod.snd) spot : Int) := by
      funext spot
      rw [map_append, map_cons, covering_middle, <- map_append]
      split <;> omega
    rw [<- same]
    exact tracks

end

/-- One pass keeps the item, or drops it if it is removable. -/
lemma simplifyStep_spec {before : List (VersionSpecifier × alg.Ranges)}
    (length : flags.length = before.length)
    (agrees : state.Agrees flags (retainedOf before flags) (item :: rest))
    (mem : state.coverage.ListsAll alg item.2) :
    ∃ state', simplifyStep alg ((before ++ item :: rest).map Prod.fst)
          ((before ++ item :: rest).map Prod.snd) state (item.1, before.length) = some state' /\
        state'.coverage.endpoints = state.coverage.endpoints /\
        if removable alg (retainedOf before flags ++ rest) item then
          state'.Agrees (flags ++ [false]) (retainedOf before flags) rest
        else state'.Agrees (flags ++ [true]) (retainedOf before flags ++ [item]) rest := by
  have remaining : remainingOf ((before ++ item :: rest).map Prod.fst) state.retained before.length =
      (retainedOf before flags ++ rest).map Prod.fst := by
    rw [agrees.retained, map_append, map_cons, length_cons, map_append]
    have middle := remainingOf_middle (before.map Prod.fst) item.1 (rest.map Prod.fst)
      (length.trans (length_map Prod.fst).symm)
    rw [length_map, length_map, retainedOf_map] at middle
    exact middle
  have own : ((before ++ item :: rest).map Prod.snd)[before.length]? = some item.2 := by
    rw [getElem?_map, getElem?_append_right (Nat.le_refl _), Nat.sub_self,
      getElem?_cons_zero, Option.map_some]
  rcases agrees.redundant mem with ⟨answer, asked, spec⟩
  unfold simplifyStep
  simp only [remaining, own, Option.bind_eq_bind, Option.bind_some, asked, agrees.guard_iff]
  cases guard : spared (retainedOf before flags ++ rest) item with
  | false =>
    rw [Bool.not_false, if_pos rfl]
    refine ⟨state, rfl, rfl, ?_⟩
    rw [if_neg fun holds => Bool.false_ne_true (guard.symm.trans (removable_iff.mp holds).1)]
    exact agrees.keep
  | true =>
    rw [Bool.not_true, if_neg Bool.false_ne_true]
    cases answer with
    | false =>
      rw [if_neg Bool.false_ne_true]
      refine ⟨state, rfl, rfl, ?_⟩
      rw [if_neg fun holds => Bool.false_ne_true (spec.mpr (removable_iff.mp holds).2)]
      exact agrees.keep
    | true =>
      rcases agrees.drop length mem with ⟨coverage, removed, endpoints, dropped⟩
      rw [if_pos rfl, removed]
      refine ⟨_, rfl, endpoints, ?_⟩
      rw [if_pos (removable_iff.mpr ⟨guard, spec.mp rfl⟩)]
      exact dropped

/-- The whole loop prunes the list. -/
lemma simplifyLoop_spec (todo : List (VersionSpecifier × alg.Ranges)) :
    ∀ {state : SimplifyState} {flags : List Bool}
      {before : List (VersionSpecifier × alg.Ranges)}, flags.length = before.length ->
      state.Agrees flags (retainedOf before flags) todo ->
      (∀ item ∈ todo, state.coverage.ListsAll alg item.2) ->
      ∃ state', ((todo.map Prod.fst).zipIdx before.length).foldlM
            (simplifyStep alg ((before ++ todo).map Prod.fst) ((before ++ todo).map Prod.snd))
            state = some state' /\
          retainedOf (before ++ todo) state'.retained =
            pruneFrom (removable alg) (retainedOf before flags) todo := by
  induction todo with
  | nil =>
    intro state flags before length agrees _
    refine ⟨state, rfl, ?_⟩
    rw [agrees.retained, retainedOf_append length]
    exact append_nil _
  | cons item rest ih =>
    intro state flags before length agrees mem
    rcases simplifyStep_spec length agrees (mem item mem_cons_self) with
      ⟨state', stepped, endpoints, outcome⟩
    have mem' : ∀ item ∈ rest, state'.coverage.ListsAll alg item.2 := by
      intro item found cut mem'
      unfold VersionRangeCoverage.Lists
      rw [endpoints]
      exact mem item (mem_cons_of_mem _ found) cut mem'
    have longer : ∀ flag, (flags ++ [flag]).length = (before ++ [item]).length := by
      intro flag
      rw [length_append, length_append, length]
      rfl
    have joined : before ++ item :: rest = before ++ [item] ++ rest := by
      rw [append_assoc, singleton_append]
    have continued : ∀ flag, state'.Agrees (flags ++ [flag])
        (retainedOf (before ++ [item]) (flags ++ [flag])) rest -> ∃ final,
        (((item :: rest).map Prod.fst).zipIdx before.length).foldlM
            (simplifyStep alg ((before ++ item :: rest).map Prod.fst)
              ((before ++ item :: rest).map Prod.snd)) state = some final /\
          retainedOf (before ++ item :: rest) final.retained =
            pruneFrom (removable alg) (retainedOf (before ++ [item]) (flags ++ [flag]))
              rest := by
      intro flag next
      rcases ih (longer flag) next mem' with ⟨final, folded, result⟩
      refine ⟨final, ?_, ?_⟩
      · rw [map_cons, zipIdx_cons, foldlM_cons, stepped]
        rw [length_append, length_singleton, <- joined] at folded
        exact folded
      · rw [joined]
        exact result
    have shorter : retainedOf (before ++ [item]) (flags ++ [false]) = retainedOf before flags := by
      rw [retainedOf_append length, retainedOf_cons_false]
      exact append_nil _
    have kept : retainedOf (before ++ [item]) (flags ++ [true]) =
        retainedOf before flags ++ [item] := by
      rw [retainedOf_append length, retainedOf_cons_true]
      rfl
    rw [pruneFrom]
    split
    next dropped =>
      rw [if_pos dropped] at outcome
      rw [<- shorter]
      apply continued
      rw [shorter]
      exact outcome
    next needed =>
      rw [if_neg needed] at outcome
      rw [<- kept]
      apply continued
      rw [kept]
      exact outcome

end

end Uv.Configuration
