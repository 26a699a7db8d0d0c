import Uv.Pep440.SpecifierCorrect

namespace Uv.Pep440

open Library List

/-!
# Specifiers read by their release only

Interpreter versions are compared by their release.  A specifier is then a set of
intervals whose bounds are releases, and what it requires of the other parts of a
version is forgotten.  `LowerBound` and `UpperBound` are the ends of such a set.
-/

/-! ## Versions that are a release -/

variable (release : List UInt64)

/-- The release without the zeros at its end, or a single zero. -/
def trimmedRelease : List UInt64 :=
  match rposition (· != 0) release with
  | some lastNonZero => release.take (lastNonZero + 1)
  | none => [0]

/-- A release with its first two numbers written out. -/
lemma releaseKey_eq_cons_cons :
    releaseKey release = releaseKey (release.getD 0 0 :: release.getD 1 0 :: release.drop 2) := by
  unfold releaseKey
  congr 1
  funext index
  rcases release with _ | ⟨first, _ | ⟨second, rest⟩⟩
  all_goals rcases index with _ | _ | index <;> rfl

variable {test : UInt64 -> Bool}

/-- Behind the last number that passes the test, none passes it. -/
lemma rposition_some {list : List UInt64} {last : Nat} (found : rposition test list = some last) :
    (∃ number, list[last]? = some number /\ test number) /\
      ∀ index number, last < index -> list[index]? = some number -> test number = false := by
  rw [rposition, Option.map_eq_some_iff] at found
  rcases found with ⟨fromEnd, found, rfl⟩
  rcases List.findIdx?_eq_some_iff_getElem.mp found with ⟨inside, passes, before⟩
  rw [List.length_reverse] at inside
  rw [List.getElem_reverse] at passes
  refine ⟨⟨_, List.getElem?_eq_getElem (by omega), passes⟩, ?_⟩
  intro index number later mem
  rcases List.getElem?_eq_some_iff.mp mem with ⟨within, rfl⟩
  have fails := before (list.length - 1 - index) (by omega)
  rw [List.getElem_reverse] at fails
  have same : list.length - 1 - (list.length - 1 - index) = index := by omega
  simpa only [same, Bool.not_eq_true] using fails

lemma rposition_none {list : List UInt64}
    (missing : rposition test list = none) {number : UInt64} (mem : number ∈ list) :
    test number = false := by
  rw [rposition, Option.map_eq_none_iff, findIdx?_eq_none_iff] at missing
  exact missing number (mem_reverse.mpr mem)

/-- Zeros at the end of a release do not matter to its order. -/
lemma releaseKey_trimmedRelease :
    releaseKey (trimmedRelease release) = releaseKey release := by
  unfold releaseKey
  congr 1
  funext index
  rw [trimmedRelease]
  cases found : rposition (· != 0) release with
  | none =>
    have zero : ∀ index, release.getD index 0 = 0 := by
      intro index
      cases mem : release[index]? with
      | none => rw [getD_eq_getElem?_getD, mem]; rfl
      | some number =>
        have fails := rposition_none found (mem_of_getElem? mem)
        rw [getD_eq_getElem?_getD, mem]
        simpa using fails
    rw [zero]
    cases index <;> rfl
  | some last =>
    rcases rposition_some found with ⟨_, behind⟩
    dsimp only
    rw [getD_eq_getElem?_getD, getD_eq_getElem?_getD, getElem?_take]
    split
    · rfl
    next outside =>
      cases mem : release[index]? with
      | none => rfl
      | some number =>
        have fails := behind index number (by omega) mem
        have zero : number = 0 := by simpa using fails
        rw [zero]
        rfl

/-- The trimmed release has one or two numbers when only zeros follow the second one. -/
lemma trimmedRelease_cases {release : List UInt64} (nonempty : release ≠ []) :
    ((release.drop 2).all (· == 0) /\
        (trimmedRelease release = [release.getD 0 0] /\ release.getD 1 0 = 0 \/
          trimmedRelease release = [release.getD 0 0, release.getD 1 0] /\ release.getD 1 0 ≠ 0)) \/
      (release.drop 2).all (· == 0) = false /\ 3 <= (trimmedRelease release).length := by
  rcases release with _ | ⟨first, rest⟩
  · exact absurd rfl nonempty
  rw [trimmedRelease]
  cases found : rposition (· != 0) (first :: rest) with
  | none =>
    have zero : ∀ number ∈ first :: rest, number = 0 := by
      intro number mem
      have fails := rposition_none found mem
      simpa using fails
    left
    have head := zero first List.mem_cons_self
    subst head
    refine ⟨?_, .inl ⟨rfl, ?_⟩⟩
    · rw [List.all_eq_true]
      intro number mem
      exact beq_iff_eq.mpr (zero number (List.mem_of_mem_drop mem))
    · cases rest with
      | nil => rfl
      | cons second rest => exact zero second (by simp)
  | some last =>
    rcases rposition_some found with ⟨⟨number, mem, passes⟩, behind⟩
    have zeroBehind : ∀ index number, last < index ->
        (first :: rest)[index]? = some number -> number = 0 := by
      intro index number later mem
      have fails := behind index number later mem
      simpa using fails
    have zeros : last < 2 -> ((first :: rest).drop 2).all (· == 0) := by
      intro small
      rw [List.all_eq_true]
      intro number mem
      rcases List.mem_iff_getElem?.mp mem with ⟨index, mem⟩
      rw [List.getElem?_drop] at mem
      exact beq_iff_eq.mpr (zeroBehind _ number (by omega) mem)
    rcases last with _ | _ | last
    · refine .inl ⟨zeros (by omega), .inl ⟨rfl, ?_⟩⟩
      cases rest with
      | nil => rfl
      | cons second rest => exact zeroBehind 1 second (by omega) rfl
    · refine .inl ⟨zeros (by omega), .inr ?_⟩
      cases rest with
      | nil => exact absurd mem nofun
      | cons second rest =>
        cases mem
        exact ⟨rfl, bne_iff_ne.mp passes⟩
    · right
      rcases List.getElem?_eq_some_iff.mp mem with ⟨within, _⟩
      refine ⟨?_, ?_⟩
      · rw [Bool.eq_false_iff, ne_eq, List.all_eq_true]
        intro allZero
        have member : number ∈ (first :: rest).drop 2 := by
          rw [List.mem_iff_getElem?]
          refine ⟨last, ?_⟩
          rw [List.getElem?_drop, Nat.add_comm]
          exact mem
        rw [beq_iff_eq.mp (allZero number member)] at passes
        cases passes
      · dsimp only
        rw [List.length_take]
        omega

namespace Version

/-- The version is nothing but its release. -/
structure ReleaseOnly (version : Version) : Prop where
  epoch : version.epoch = 0
  pre : version.pre = none
  post : version.post = none
  dev : version.dev = none
  localVersion : version.localVersion = .empty
  min : version.min = none
  max : version.max = none

variable (numbers : List UInt64) (nonempty : numbers ≠ [])

lemma new_releaseOnly :
    (new numbers nonempty).ReleaseOnly where
  epoch := by rw [<- record_epoch, record_new]
  pre := by rw [<- record_pre, record_new]
  post := by rw [<- record_post, record_new]
  dev := by rw [<- record_dev, record_new]
  localVersion := by rw [<- record_localVersion, record_new]
  min := by rw [<- record_min, record_new]
  max := by rw [<- record_max, record_new]

@[simp] lemma release_new :
    (new numbers nonempty).release = numbers := by
  rw [<- record_release, record_new]

variable (version : Version)

/-- Only the release, without the zeros at its end. -/
def onlyReleaseTrimmed : Version :=
  match rposition (· != 0) version.release with
  | some lastNonZero =>
    if lastNonZero + 1 = version.release.length /\ version.epoch = 0 /\ version.pre.isNone /\
        version.post.isNone /\ version.dev.isNone /\ version.localVersion.isEmpty /\
        version.min.isNone /\ version.max.isNone then
      version
    else
      new (version.release.take (lastNonZero + 1)) (by
        intro empty
        rcases List.take_eq_nil_iff.mp empty with zero | empty
        · exact absurd zero (Nat.succ_ne_zero _)
        · exact version.nonempty empty)
  | none => new [0] zeroRelease_ne_nil

lemma onlyReleaseTrimmed_spec :
    version.onlyReleaseTrimmed.ReleaseOnly /\
      version.onlyReleaseTrimmed.release = trimmedRelease version.release := by
  rw [onlyReleaseTrimmed, trimmedRelease]
  split
  next lastNonZero found =>
    split
    next already =>
      rcases already with ⟨whole, epoch, pre, post, dev, localEmpty, min, max⟩
      rw [Option.isNone_iff_eq_none] at pre post dev min max
      rw [whole, take_length]
      exact ⟨⟨epoch, pre, post, dev, VersionSpecifier.localVersion_of_isEmpty localEmpty, min, max⟩, rfl⟩
    · exact ⟨new_releaseOnly _ _, release_new _ _⟩
  · exact ⟨new_releaseOnly _ _, release_new _ _⟩

lemma onlyRelease_spec :
    version.onlyRelease.ReleaseOnly /\ version.onlyRelease.release = version.release :=
  ⟨new_releaseOnly _ _, release_new _ _⟩

/-! ## Comparing releases -/

variable {version : Version}

lemma ReleaseOnly.record_eq (only : version.ReleaseOnly) :
    version.record = ⟨0, version.release, none, none, none, .empty, none, none⟩ := by
  rw [Version.record_eq, only.epoch, only.pre, only.post, only.dev, only.localVersion, only.min,
    only.max]

/-- What follows the release in the key of a version that has nothing else. -/
lemma ReleaseOnly.key_eq (only : version.ReleaseOnly) :
    version.key = toLex (0, toLex (releaseKey version.release,
      (SortableTuple.mk 5 0 none 0 .empty).key)) := by
  rw [key, only.record_eq]
  rfl

/-- Trimming a version that is equal to a release gives an equal version. -/
lemma ReleaseOnly.key_onlyReleaseTrimmed {release : Version}
    (only : release.ReleaseOnly) (same : release.key = version.key) :
    version.onlyReleaseTrimmed.key = version.key := by
  have numbers : releaseKey release.release = releaseKey version.release := by
    have inner := congrArg (fun key => (ofLex (ofLex key).2).1) same
    rw [only.key_eq, key, Version.record_eq] at inner
    exact inner
  rcases version.onlyReleaseTrimmed_spec with ⟨trimmedOnly, trimmed⟩
  rw [trimmedOnly.key_eq, trimmed, releaseKey_trimmedRelease, <- numbers, <- only.key_eq, same]

section

variable {left right : Version} (leftOnly : left.ReleaseOnly) (rightOnly : right.ReleaseOnly)

include leftOnly rightOnly

lemma ReleaseOnly.key_lt_iff :
    left.key < right.key <-> releaseKey left.release < releaseKey right.release := by
  rw [leftOnly.key_eq, rightOnly.key_eq, Prod.Lex.toLex_lt_toLex, Prod.Lex.toLex_lt_toLex]
  simp

lemma ReleaseOnly.key_le_iff :
    left.key <= right.key <-> releaseKey left.release <= releaseKey right.release := by
  rw [<- not_lt]
  exact (not_congr (rightOnly.key_lt_iff leftOnly)).trans not_lt

lemma ReleaseOnly.eq_iff :
    left.eq right <-> releaseKey left.release = releaseKey right.release := by
  rw [eq, beq_iff_eq, cmp_orderedBy.eq_iff, le_antisymm_iff, le_antisymm_iff,
    leftOnly.key_le_iff rightOnly, rightOnly.key_le_iff leftOnly]

end

end Version

/-! ## Ranges -/

namespace VersionSpecifier

/-- The same operator, with only the release of the version. -/
def onlyRelease (spec : VersionSpecifier) : VersionSpecifier where
  operator := spec.operator
  version := spec.version.onlyRelease
  compatible isTilde := by
    rw [spec.version.onlyRelease_spec.2]
    exact spec.compatible isTilde

variable (version : Version)

def equalsVersion : VersionSpecifier := ⟨.equal, version, nofun⟩
def equalsStarVersion : VersionSpecifier := ⟨.equalStar, version, nofun⟩
def notEqualsStarVersion : VersionSpecifier := ⟨.notEqualStar, version, nofun⟩
def greaterThanEqualVersion : VersionSpecifier :=
  ⟨.greaterThanEqual, version, nofun⟩
def lessThanVersion : VersionSpecifier := ⟨.lessThan, version, nofun⟩

/-- The numbers from a release up to the release with its last number bumped. -/
def releaseStarSegment : Segment Version :=
  ⟨.included version, .excluded (.new (bumpLast version.release) (bumpLast_release_ne_nil version))⟩

section

variable (alg : RangeAlgebra Version Version.cmp)

/-- The interval set of a specifier, for versions that consist of a release. -/
def releaseSpecifierToRange (spec : VersionSpecifier) (trim : Bool) : alg.Ranges :=
  let version := spec.version
  let trimmed := if trim then version.onlyReleaseTrimmed else version.onlyRelease
  match shape : spec.operator with
  | .equal => alg.singleton trimmed
  | .exactEqual => alg.singleton trimmed
  | .notEqual => alg.complement (alg.singleton trimmed)
  | .lessThan => alg.strictlyLowerThan trimmed
  | .lessThanEqual => alg.lowerThan trimmed
  | .greaterThan => alg.strictlyHigherThan trimmed
  | .greaterThanEqual => alg.higherThan trimmed
  | .tildeEqual =>
    alg.fromRangeBounds ⟨.included trimmed, .excluded (.new (bumpLast version.release.dropLast)
      (bumpLast_ne_nil (dropLast_ne_nil (spec.compatible shape))))⟩
  -- The lower end is the version as it was written.
  | .equalStar => alg.fromRangeBounds (releaseStarSegment version)
  | .notEqualStar => alg.complement (alg.fromRangeBounds (releaseStarSegment version))

end

end VersionSpecifier

/-- The loop over a list of specifiers, which intersects their ranges. -/
def VersionSpecifiers.releaseSpecifiersToRanges (alg : RangeAlgebra Version Version.cmp)
    (list : VersionSpecifiers) : alg.Ranges :=
  list.specifiers.foldl
    (fun range spec => alg.intersection range (spec.releaseSpecifierToRange alg false))
    alg.full

/-! ## The ends of a range -/

/-- Forget everything but the release of a bound. -/
def trimBound : Bound Version -> Bound Version
  | .included version => .included version.onlyReleaseTrimmed
  | .excluded version => .excluded version.onlyReleaseTrimmed
  | .unbounded => .unbounded

/-- The first two numbers of the release. -/
def majorMinor (version : Version) : Version :=
  .new (version.release.take 2) (by
    intro empty
    rcases List.take_eq_nil_iff.mp empty with zero | empty
    · exact absurd zero (Nat.succ_ne_zero _)
    · exact version.nonempty empty)

structure LowerBound where
  bound : Bound Version

namespace LowerBound

def new (bound : Bound Version) : LowerBound := ⟨trimBound bound⟩

/-- `>3.10.1` becomes `>=3.10`, like `>=3.10.1`. -/
def majorMinor : LowerBound -> LowerBound
  | ⟨.included version⟩ => ⟨.included (Pep440.majorMinor version)⟩
  | ⟨.excluded version⟩ => ⟨.included (Pep440.majorMinor version)⟩
  | ⟨.unbounded⟩ => ⟨.unbounded⟩

def contains (lower : LowerBound) (version : Version) : Bool :=
  match lower.bound with
  | .included bound => bound.le version
  | .excluded bound => bound.lt version
  | .unbounded => true

def cmp : LowerBound -> LowerBound -> Ordering
  | ⟨.unbounded⟩, ⟨.unbounded⟩ => .eq
  | ⟨.included _⟩, ⟨.unbounded⟩ => .gt
  | ⟨.excluded _⟩, ⟨.unbounded⟩ => .gt
  | ⟨.unbounded⟩, ⟨.included _⟩ => .lt
  | ⟨.included left⟩, ⟨.included right⟩ => left.cmp right
  | ⟨.excluded left⟩, ⟨.included right⟩ =>
    match left.cmp right with
    | .lt => .lt
    | .eq => .gt
    | .gt => .gt
  | ⟨.unbounded⟩, ⟨.excluded _⟩ => .lt
  | ⟨.included left⟩, ⟨.excluded right⟩ =>
    match left.cmp right with
    | .lt => .lt
    | .eq => .lt
    | .gt => .gt
  | ⟨.excluded left⟩, ⟨.excluded right⟩ => left.cmp right

end LowerBound

structure UpperBound where
  bound : Bound Version

namespace UpperBound

def new (bound : Bound Version) : UpperBound := ⟨trimBound bound⟩

/-- `<3.10.1` becomes `<=3.10`, but `<3.10.0` becomes `<3.10`. -/
def majorMinor : UpperBound -> UpperBound
  | ⟨.included version⟩ => ⟨.included (Pep440.majorMinor version)⟩
  | ⟨.excluded version⟩ =>
    if version.release[2]?.any (· > 0) then ⟨.included (Pep440.majorMinor version)⟩
    else ⟨.excluded (Pep440.majorMinor version)⟩
  | ⟨.unbounded⟩ => ⟨.unbounded⟩

def contains (upper : UpperBound) (version : Version) : Bool :=
  match upper.bound with
  | .included bound => bound.ge version
  | .excluded bound => bound.gt version
  | .unbounded => true

def cmp : UpperBound -> UpperBound -> Ordering
  | ⟨.unbounded⟩, ⟨.unbounded⟩ => .eq
  | ⟨.included _⟩, ⟨.unbounded⟩ => .lt
  | ⟨.excluded _⟩, ⟨.unbounded⟩ => .lt
  | ⟨.unbounded⟩, ⟨.included _⟩ => .gt
  | ⟨.included left⟩, ⟨.included right⟩ => left.cmp right
  | ⟨.excluded left⟩, ⟨.included right⟩ =>
    match left.cmp right with
    | .lt => .lt
    | .eq => .lt
    | .gt => .gt
  | ⟨.unbounded⟩, ⟨.excluded _⟩ => .gt
  | ⟨.included left⟩, ⟨.excluded right⟩ =>
    match left.cmp right with
    | .lt => .lt
    | .eq => .gt
    | .gt => .gt
  | ⟨.excluded left⟩, ⟨.excluded right⟩ => left.cmp right

end UpperBound

end Uv.Pep440
