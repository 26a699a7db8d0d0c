import Uv.Library.IntervalBounds
import Uv.Pep440.SpecifierCorrect

namespace Uv.Pep440

open Library List Version Option

/-!
# Bounds that no version has

Some bounds of the interval sets are artificial versions.  Canonicalization
replaces such a bound by the least version that can be written down above it, if
there is one, and drops what lies below the smallest version of all.  It changes
the interval set and none of the versions in it.
-/

/-- `checked_add(1)`. -/
def checkedSucc (number : UInt64) : Option UInt64 :=
  if number = u64Max then none else some (number + 1)

variable {number : UInt64}

lemma checkedSucc_toNat {next : UInt64} (found : checkedSucc number = some next) :
    next.toNat = number.toNat + 1 := by
  unfold checkedSucc at found
  split at found
  · cases found
  next small =>
    cases found
    have below := number.toNat_lt
    have different : number.toNat ≠ 2 ^ 64 - 1 := fun same => small (UInt64.toNat_inj.mp same)
    exact succ_toNat (by omega)

/-- The smallest valid version, `0.dev0`. -/
def Version.pep440Min : Version := (Version.new [0] zeroRelease_ne_nil).withDev (some 0)

/-- The least version that can be written down above an artificial one. -/
def sentinelSuccessor (version : Version) : Option Version :=
  match version.localVersion with
  | .max =>
    let version := version.withoutLocal
    match version.dev with
    | some dev => (checkedSucc dev).map fun dev => version.withDev (some dev)
    | none =>
      match version.post with
      | some post =>
        (checkedSucc post).map fun post => (version.withPost (some post)).withDev (some 0)
      | none => some ((version.withPost (some 0)).withDev (some 0))
  | .segments _ =>
    if version.min.isSome then some ((version.withMin none .absent).withDev (some 0))
    else if version.max.isSome then
      match version.pre with
      | some pre =>
        (checkedSucc pre.number).map fun number =>
          ((version.withMax none .absent).withPre (some ⟨pre.kind, number⟩)).withDev (some 0)
      | none => none
    else none

def lowerBoundNeedsCanonicalization : Bound Version -> Bool
  | .included version => version.le .pep440Min || (sentinelSuccessor version).isSome
  | .excluded version => version.lt .pep440Min || (sentinelSuccessor version).isSome
  | .unbounded => false

def upperBoundNeedsCanonicalization : Bound Version -> Bool
  | .included version => version.lt .pep440Min || (sentinelSuccessor version).isSome
  | .excluded version => version.le .pep440Min || (sentinelSuccessor version).isSome
  | .unbounded => false

def canonicalizeLowerBound : Bound Version -> Bound Version
  | .included version => (sentinelSuccessor version).elim (.included version) .included
  | .excluded version => (sentinelSuccessor version).elim (.excluded version) .included
  | .unbounded => .unbounded

def canonicalizeUpperBound : Bound Version -> Bound Version
  | .included version => (sentinelSuccessor version).elim (.included version) .excluded
  | .excluded version => (sentinelSuccessor version).elim (.excluded version) .excluded
  | .unbounded => .unbounded

/-- A lower bound that no version misses is dropped. -/
def dropFloor : Bound Version -> Bound Version
  | .included version => if version.le .pep440Min then .unbounded else .included version
  | .excluded version => if version.lt .pep440Min then .unbounded else .excluded version
  | .unbounded => .unbounded

/-- An upper bound that every version misses. -/
def belowFloor : Bound Version -> Bool
  | .included version => version.lt .pep440Min
  | .excluded version => version.le .pep440Min
  | .unbounded => false

def canonicalizeSegment (segment : Segment Version) : Option (Segment Version) :=
  let lower := dropFloor (canonicalizeLowerBound segment.lower)
  let upper := canonicalizeUpperBound segment.upper
  if belowFloor upper then none else some ⟨lower, upper⟩

/-- No result means that the set is canonical already. -/
def canonicalizeVersionRanges (alg : RangeAlgebra Version Version.cmp)
    (ranges : alg.Ranges) : Option alg.Ranges :=
  if (alg.segments ranges).any fun segment =>
      lowerBoundNeedsCanonicalization segment.lower ||
        upperBoundNeedsCanonicalization segment.upper then
    some (alg.fromIter ((alg.segments ranges).filterMap canonicalizeSegment))
  else none

/-! ## The smallest version -/

variable {bound : Nat} {version : Version}

namespace Version

/-- A version that can be written down. -/
abbrev Real (version : Version) : Prop := version.Parsed Grammar.Components.limit

lemma pep440Min_base : pep440Min.base = toLex (0, releaseKey []) := by
  rw [base_record, pep440Min, record_withDev, record_new, <- releaseKey_zero]
  rfl

lemma pep440Min_place : pep440Min.place = Place.of 1 0 0 0 := by
  rw [place_record, pep440Min, record_withDev, record_new]
  rfl

lemma pep440Min_localVersion : pep440Min.localVersion = .empty := by
  rw [<- record_localVersion, pep440Min, record_withDev, record_new]

lemma base_least (version : Version) : pep440Min.base <= version.base := by
  rw [pep440Min_base, base, Prod.Lex.toLex_le_toLex]
  rcases Nat.eq_zero_or_pos version.epoch.toNat with zero | positive
  · exact .inr ⟨zero.symm, releaseKey_nil_le _⟩
  · exact .inl positive

lemma Parsed.devZero_le_place (parsed : version.Parsed bound) :
    Place.of 1 0 0 0 <= version.place := by
  rw [parsed.place_eq]
  exact devZero_le_placeOf

/-- No version that can be written down is smaller. -/
lemma Parsed.pep440Min_le (parsed : version.Parsed bound) :
    pep440Min.splitKey <= version.splitKey := by
  rw [splitKey_le_iff pep440Min_localVersion, publicKey_le_iff, pep440Min_place]
  rcases lt_or_eq_of_le version.base_least with less | same
  · exact .inl less
  · exact .inr ⟨same, parsed.devZero_le_place⟩

end Version

/-! ## The next version above an artificial one -/

/-- The bounds that occur: a version without marks, one with the "max" local part,
a release marked "min", and a release or pre-release marked "max". -/
inductive Boundary (version : Version) : Prop where
  | plain (segments : List LocalSegment) (spelled : version.localVersion = .segments segments)
      (min : version.min = none) (max : version.max = none)
  | localMax (greatest : version.localVersion = .max) (min : version.min = none)
      (max : version.max = none)
  | minMark (noLocal : version.localVersion = .empty) (marked : version.min.isSome = true)
      (max : version.max = none) (pre : version.pre = none) (post : version.post = none)
  | maxMark (noLocal : version.localVersion = .empty) (min : version.min = none)
      (marked : version.max.isSome = true) (post : version.post = none) (dev : version.dev = none)

section

variable {pre pre' : Option Prerelease} {post post' dev' : Option UInt64}

lemma devRank_le (dev : Option UInt64) : devRank dev <= 2 ^ 64 - 1 := by
  have bound := (dev.getD u64Max).toNat_lt
  unfold devRank
  omega

lemma placeOf_components (pre : Option Prerelease) (post dev : Option UInt64) :
    ∃ stage number, ∃ rank last,
      placeOf pre post dev = Place.of stage number rank last /\ last <= 2 ^ 64 - 1 /\
        (rank = 0 \/ rank = postRank post) /\ (stage = 5 -> number = 0 /\ rank = 0 /\ last = 0) /\
          (stage = 6 -> number = 0 /\ 0 < rank) /\ 1 <= stage /\ stage <= 6 := by
  cases pre with
  | some pre =>
    have stages := preStage_bounds pre.kind
    exact ⟨_, _, _, _, rfl, devRank_le dev, .inr rfl, by omega, by omega, by omega, by omega⟩
  | none =>
    cases post with
    | some post =>
      exact ⟨_, _, _, _, rfl, devRank_le dev, .inr rfl, by omega,
        fun _ => ⟨rfl, Nat.succ_pos _⟩, by omega, by omega⟩
    | none =>
      cases dev with
      | some dev =>
        have below := dev.toNat_lt
        exact ⟨_, _, _, _, rfl, by omega, .inl rfl, by omega, by omega, by omega, by omega⟩
      | none =>
        exact ⟨_, _, _, _, rfl, by omega, .inl rfl, fun _ => ⟨rfl, rfl, rfl⟩, by omega,
          by omega, by omega⟩

/-- Above a post-release come the dev-releases of the next one. -/
lemma placeOf_post_lt_iff {next : UInt64} (succ : next.toNat = number.toNat + 1) :
    placeOf pre (some number) none < placeOf pre' post' dev' <->
      placeOf pre (some next) (some 0) <= placeOf pre' post' dev' := by
  rcases placeOf_components pre' post' dev' with ⟨stage, first, rank, last, shape, small, _⟩
  have zero : devRank (some 0) = 0 := rfl
  rw [shape, <- not_lt]
  cases pre with
  | some pre | none =>
    simp only [placeOf, Place.lt_iff, postRank_some, devRank_none, zero, succ]
    omega

/-- Above a version without post and dev numbers come the dev-releases of its
first post-release. -/
lemma placeOf_final_lt_iff :
    placeOf pre none none < placeOf pre' post' dev' <->
      placeOf pre (some 0) (some 0) <= placeOf pre' post' dev' := by
  rcases placeOf_components pre' post' dev' with
    ⟨stage, first, rank, last, shape, small, _, final, posts, _, _⟩
  have zero : devRank (some 0) = 0 := rfl
  have one : postRank (some 0) = 1 := rfl
  rw [shape, <- not_lt]
  cases pre with
  | some pre =>
    simp only [placeOf, Place.lt_iff, postRank_none, devRank_none, zero, one]
    omega
  | none =>
    simp only [placeOf, Place.lt_iff, zero, one]
    omega

/-- Above a pre-release marked "max" come the dev-releases of the next pre-release. -/
lemma placeOf_maxPre_lt_iff {kind : PrereleaseKind} {next : UInt64}
    (succ : next.toNat = number.toNat + 1)
    (fits : ∀ value, post' = some value -> value.toNat < 2 ^ 64 - 1) :
    (placeOf (some ⟨kind, number⟩) (some u64Max) none < placeOf pre' post' dev' <->
      placeOf (some ⟨kind, next⟩) none (some 0) <= placeOf pre' post' dev') := by
  rcases placeOf_components pre' post' dev' with
    ⟨stage, first, rank, last, shape, small, ranked, _⟩
  have zero : devRank (some 0) = 0 := rfl
  have largest : postRank (some u64Max) = 2 ^ 64 := rfl
  have below : rank < 2 ^ 64 := by
    rcases ranked with none | same
    · omega
    · rw [same]
      cases post' with
      | none => decide
      | some value =>
        have bound := fits value rfl
        rw [postRank_some]
        omega
  rw [shape, <- not_lt]
  simp only [placeOf, Place.lt_iff, postRank_none, devRank_none, zero, largest, succ]
  omega

end

section

variable {boundary next version : Version}

/-- The next version differs in its suffixes and has no local part. -/
structure IsNext (boundary next : Version) : Prop where
  base : next.base = boundary.base
  noLocal : next.localVersion = .empty
  place {version : Version} (real : version.Real) :
    boundary.place < version.place <-> next.place <= version.place

lemma isNext_of_record (suffixed : VersionFull) (shape : next.record = suffixed)
    (epoch : suffixed.epoch = boundary.epoch) (release : suffixed.release = boundary.release)
    (noLocal : suffixed.localVersion = .empty)
    (place : ∀ {version : Version}, version.Real -> (boundary.place < version.place <->
      markedPlace suffixed.pre suffixed.post suffixed.dev suffixed.min suffixed.max <=
        version.place)) : IsNext boundary next where
  base := by rw [base_record, shape, epoch, release, base]
  noLocal := by rw [<- record_localVersion, shape, noLocal]
  place real := by rw [place real, place_record next, shape]

lemma isNext_localMax (greatest : boundary.localVersion = .max) (min : boundary.min = none)
    (max : boundary.max = none) (found : sentinelSuccessor boundary = some next) :
    IsNext boundary next := by
  have own : boundary.place = placeOf boundary.pre boundary.post boundary.dev := by
    rw [place_eq, min, max]
    rfl
  have dev : boundary.withoutLocal.dev = boundary.dev := by
    rw [<- record_dev, record_withoutLocal, record_dev]
  have post : boundary.withoutLocal.post = boundary.post := by
    rw [<- record_post, record_withoutLocal, record_post]
  unfold sentinelSuccessor at found
  rw [greatest] at found
  simp only [dev, post] at found
  cases devs : boundary.dev with
  | some number =>
    simp only [devs, map_eq_some_iff] at found
    rcases found with ⟨number', succ, rfl⟩
    refine isNext_of_record
      { boundary.record with localVersion := .empty, dev := some number' }
      (by rw [record_withDev, record_withoutLocal]) (record_epoch _) (record_release _) rfl ?_
    intro version real
    have fits : number.toNat < 2 ^ 64 - 1 := by
      have below := number'.toNat_lt
      rw [checkedSucc_toNat succ] at below
      omega
    have bumped : number + 1 = number' := by
      apply UInt64.toNat_inj.mp
      rw [checkedSucc_toNat succ, succ_toNat fits]
    simp only [record_pre, record_post, record_min, record_max, min, max]
    rw [own, devs, <- bumped]
    exact placeOf_dev_lt_iff fits version.place
  | none =>
    cases posts : boundary.post with
    | some number =>
      simp only [devs, posts, map_eq_some_iff] at found
      rcases found with ⟨number', succ, rfl⟩
      refine isNext_of_record
        { boundary.record with localVersion := .empty, post := some number', dev := some 0 }
        (by rw [record_withDev, record_withPost, record_withoutLocal])
        (record_epoch _) (record_release _) rfl ?_
      intro version real
      simp only [record_pre, record_min, record_max, min, max]
      rw [own, devs, posts, real.place_eq]
      exact placeOf_post_lt_iff (checkedSucc_toNat succ)
    | none =>
      simp only [devs, posts, some.injEq] at found
      subst found
      refine isNext_of_record
        { boundary.record with localVersion := .empty, post := some 0, dev := some 0 }
        (by rw [record_withDev, record_withPost, record_withoutLocal])
        (record_epoch _) (record_release _) rfl ?_
      intro version real
      simp only [record_pre, record_min, record_max, min, max]
      rw [own, devs, posts, real.place_eq]
      exact placeOf_final_lt_iff

lemma isNext_minMark (noLocal : boundary.localVersion = .empty)
    (marked : boundary.min.isSome) (max : boundary.max = none) (pre : boundary.pre = none)
    (post : boundary.post = none) (found : sentinelSuccessor boundary = some next) :
    IsNext boundary next := by
  unfold sentinelSuccessor at found
  rw [noLocal] at found
  simp only [LocalVersion.empty, if_pos marked, some.injEq] at found
  subst found
  refine isNext_of_record { boundary.record with min := none, dev := some 0 }
    (by rw [record_withDev, record_withMin]) (record_epoch _) (record_release _)
    ((record_localVersion _).trans noLocal) ?_
  intro version real
  simp only [record_pre, record_post, record_max, pre, post, max]
  rcases isSome_iff_exists.mp marked with ⟨value, mark⟩
  rw [place_eq, mark, max, real.place_eq]
  have least := @devZero_le_placeOf version.pre version.post version.dev
  refine iff_of_true (lt_of_lt_of_le ?_ least) least
  change Place.of 0 0 (postRank boundary.post) value.toNat < Place.of 1 0 0 0
  rw [Place.lt_iff]
  omega

lemma isNext_maxMark (noLocal : boundary.localVersion = .empty) (min : boundary.min = none)
    (marked : boundary.max.isSome) (post : boundary.post = none)
    (dev : boundary.dev = none) (found : sentinelSuccessor boundary = some next) :
    IsNext boundary next := by
  have unmarked : ¬ boundary.min.isSome := by
    rw [min]
    exact Bool.false_ne_true
  unfold sentinelSuccessor at found
  rw [noLocal] at found
  simp only [LocalVersion.empty, if_neg unmarked, if_pos marked] at found
  cases pres : boundary.pre with
  | none =>
    rw [pres] at found
    cases found
  | some pre =>
    simp only [pres, map_eq_some_iff] at found
    rcases found with ⟨number, succ, rfl⟩
    refine isNext_of_record
      { boundary.record with max := none, pre := some ⟨pre.kind, number⟩, dev := some 0 }
      (by rw [record_withDev, record_withPre, record_withMax])
      (record_epoch _) (record_release _)
      ((record_localVersion _).trans noLocal) ?_
    intro version real
    simp only [record_post, record_min, post, min]
    rw [place_eq, pres, min, dev, real.place_eq]
    simp only [markedPlace, if_pos marked]
    exact placeOf_maxPre_lt_iff (checkedSucc_toNat succ) real.post

lemma Boundary.isNext (shape : Boundary boundary)
    (found : sentinelSuccessor boundary = some next) : IsNext boundary next := by
  cases shape with
  | plain segments spelled min max =>
    simp only [sentinelSuccessor, spelled, min, max, isSome_none, Bool.false_eq_true,
      if_false] at found
    cases found
  | localMax greatest min max => exact isNext_localMax greatest min max found
  | minMark noLocal marked max pre post => exact isNext_minMark noLocal marked max pre post found
  | maxMark noLocal min marked post dev => exact isNext_maxMark noLocal min marked post dev found

lemma IsNext.publicKey_lt_iff (isNext : IsNext boundary next) (real : version.Real) :
    boundary.publicKey < version.publicKey <-> next.publicKey <= version.publicKey := by
  rw [Version.publicKey_lt_iff, Version.publicKey_le_iff, isNext.base, isNext.place real]

variable (shape : Boundary boundary) (found : sentinelSuccessor boundary = some next)
  (real : version.Real)

include shape found real

/-- What is artificial is the local part or the place of the suffixes. -/
lemma Boundary.artificial :
    boundary.localVersion = .max \/ boundary.place ≠ version.place := by
  cases shape with
  | plain segments spelled min max =>
    simp only [sentinelSuccessor, spelled, min, max, isSome_none, Bool.false_eq_true,
      if_false] at found
    cases found
  | localMax greatest min max => exact .inl greatest
  | minMark noLocal marked max pre post =>
    refine .inr fun places => ?_
    rcases isSome_iff_exists.mp marked with ⟨value, mark⟩
    have least := real.devZero_le_place
    rw [<- places, place_eq, mark, <- not_lt] at least
    apply least
    change Place.of 0 0 _ value.toNat < Place.of 1 0 0 0
    rw [Place.lt_iff]
    omega
  | maxMark noLocal min marked post dev =>
    refine .inr fun places => ?_
    rw [place_eq, real.place_eq, min, dev] at places
    simp only [markedPlace, if_pos marked] at places
    exact placeOf_max_ne real.post places

/-- With the same public part, an artificial version is the greater one. -/
lemma Boundary.localKey_lt (publics : boundary.publicKey = version.publicKey) :
    version.localKey < boundary.localKey := by
  have places : boundary.place = version.place := (Prod.ext_iff.mp (toLex_inj.mp publics)).2
  have greatest := (shape.artificial found real).resolve_right fun different => different places
  have own : boundary.localKey = LocalVersion.max.key := congrArg LocalVersion.key greatest
  rw [own]
  exact real.localKey_lt_top

/-- What lies above an artificial version begins with the next one. -/
lemma Boundary.le_iff :
    boundary.splitKey <= version.splitKey <-> next.splitKey <= version.splitKey := by
  have isNext := shape.isNext found
  rw [splitKey_le_iff isNext.noLocal, <- isNext.publicKey_lt_iff real, splitKey,
    splitKey, Prod.Lex.toLex_le_toLex]
  refine or_iff_left ?_
  rintro ⟨publics, locals⟩
  exact not_lt.mpr locals (shape.localKey_lt found real publics)

/-- An artificial version is none that can be written down. -/
lemma Boundary.splitKey_ne :
    boundary.splitKey ≠ version.splitKey := by
  intro same
  have parts := Prod.ext_iff.mp (toLex_inj.mp same)
  exact (shape.localKey_lt found real parts.1).ne parts.2.symm

lemma Boundary.lt_iff :
    boundary.splitKey < version.splitKey <-> next.splitKey <= version.splitKey := by
  rw [<- shape.le_iff found real, le_iff_lt_or_eq, or_iff_left (shape.splitKey_ne found real)]

end

/-! ## Canonicalization keeps the versions -/

section

variable {version : Version} {bound : Bound Version}

section

variable (real : version.Real)

include real

lemma canonicalizeLowerBound_admits (shape : ∀ cut ∈ bound.lowerCuts, Boundary cut.value) :
    (canonicalizeLowerBound bound).admitsAbove Version.cmp ⟨version, .exact⟩ =
      bound.admitsAbove Version.cmp ⟨version, .exact⟩ := by
  cases bound with
  | included value =>
    have own : Boundary value := shape _ mem_cons_self
    cases found : sentinelSuccessor value with
    | none => rw [canonicalizeLowerBound, found, elim_none]
    | some next =>
      rw [canonicalizeLowerBound, found, elim_some, Bool.eq_iff_iff,
        Bound.includedAbove_exact cmp_orderedBy_splitKey,
        Bound.includedAbove_exact cmp_orderedBy_splitKey, own.le_iff found real]
  | excluded value =>
    have own : Boundary value := shape _ mem_cons_self
    cases found : sentinelSuccessor value with
    | none => rw [canonicalizeLowerBound, found, elim_none]
    | some next =>
      rw [canonicalizeLowerBound, found, elim_some, Bool.eq_iff_iff,
        Bound.includedAbove_exact cmp_orderedBy_splitKey,
        Bound.excludedAbove_exact cmp_orderedBy_splitKey, own.lt_iff found real]
  | unbounded => rfl

lemma canonicalizeUpperBound_admits (shape : ∀ cut ∈ bound.upperCuts, Boundary cut.value) :
    (canonicalizeUpperBound bound).admitsBelow Version.cmp ⟨version, .exact⟩ =
      bound.admitsBelow Version.cmp ⟨version, .exact⟩ := by
  cases bound with
  | included value =>
    have own : Boundary value := shape _ mem_cons_self
    cases found : sentinelSuccessor value with
    | none => rw [canonicalizeUpperBound, found, elim_none]
    | some next =>
      rw [canonicalizeUpperBound, found, elim_some, Bool.eq_iff_iff,
        Bound.excludedBelow_exact cmp_orderedBy_splitKey,
        Bound.includedBelow_exact cmp_orderedBy_splitKey, <- not_le, <- own.lt_iff found real, not_lt]
  | excluded value =>
    have own : Boundary value := shape _ mem_cons_self
    cases found : sentinelSuccessor value with
    | none => rw [canonicalizeUpperBound, found, elim_none]
    | some next =>
      rw [canonicalizeUpperBound, found, elim_some, Bool.eq_iff_iff,
        Bound.excludedBelow_exact cmp_orderedBy_splitKey,
        Bound.excludedBelow_exact cmp_orderedBy_splitKey, <- not_le, <- own.le_iff found real, not_le]
  | unbounded => rfl

lemma dropFloor_admits (bound : Bound Version) :
    (dropFloor bound).admitsAbove Version.cmp ⟨version, .exact⟩ =
      bound.admitsAbove Version.cmp ⟨version, .exact⟩ := by
  cases bound with
  | included value =>
    rw [dropFloor]
    split
    next low =>
      rw [le_iff] at low
      exact ((Bound.includedAbove_exact cmp_orderedBy_splitKey value version).mpr
        (low.trans real.pep440Min_le)).symm
    · rfl
  | excluded value =>
    rw [dropFloor]
    split
    next low =>
      rw [lt_iff] at low
      exact ((Bound.excludedAbove_exact cmp_orderedBy_splitKey value version).mpr
        (low.trans_le real.pep440Min_le)).symm
    · rfl
  | unbounded => rfl

lemma belowFloor_admits (below : belowFloor bound) :
    bound.admitsBelow Version.cmp ⟨version, .exact⟩ = false := by
  rw [<- Bool.not_eq_true]
  cases bound with
  | included value =>
    rw [belowFloor, lt_iff] at below
    rw [Bound.includedBelow_exact cmp_orderedBy_splitKey, not_le]
    exact below.trans_le real.pep440Min_le
  | excluded value =>
    rw [belowFloor, le_iff] at below
    rw [Bound.excludedBelow_exact cmp_orderedBy_splitKey, not_lt]
    exact below.trans real.pep440Min_le
  | unbounded => cases below

lemma canonicalizeSegment_admits {segment : Segment Version}
    (shape : ∀ cut ∈ segment.cuts, Boundary cut.value) :
    (canonicalizeSegment segment).any (fun changed => changed.admits Version.cmp ⟨version, .exact⟩) =
      segment.admits Version.cmp ⟨version, .exact⟩ := by
  have lowers := canonicalizeLowerBound_admits real
    fun cut mem => shape cut (mem_append_left _ mem)
  have uppers := canonicalizeUpperBound_admits real
    fun cut mem => shape cut (mem_append_right _ mem)
  unfold canonicalizeSegment
  simp only
  split
  next below =>
    rw [any_none, Segment.admits, <- uppers, belowFloor_admits real below, Bool.and_false]
  · rw [any_some, Segment.admits, Segment.admits, dropFloor_admits real, lowers, uppers]

end

end

section

variable {alg : RangeAlgebra Version Version.cmp}

/-- The canonical set, or the set itself where it is canonical. -/
def canonical (alg : RangeAlgebra Version Version.cmp) (ranges : alg.Ranges) :
    alg.Ranges :=
  (canonicalizeVersionRanges alg ranges).getD ranges

lemma any_filterMap {α β : Type} {change : α -> Option β} {test : β -> Bool} {test' : α -> Bool}
    {list : List α} (same : ∀ item ∈ list, (change item).any test = test' item) :
    (list.filterMap change).any test = list.any test' := by
  induction list with
  | nil => rfl
  | cons item rest ih =>
    have later := ih (forall_mem_cons.mp same).2
    have here := same item mem_cons_self
    rw [any_cons, <- later, <- here]
    cases found : change item with
    | none => rw [filterMap_cons_none found, any_none, Bool.false_or]
    | some changed => rw [filterMap_cons_some found, any_cons, any_some]

lemma contains_canonical {ranges : alg.Ranges} (real : version.Real)
    (shape : ∀ cut ∈ alg.cuts ranges, Boundary cut.value) :
    alg.contains (canonical alg ranges) version = alg.contains ranges version := by
  unfold canonical canonicalizeVersionRanges
  split
  · rw [getD_some, alg.contains_eq, alg.contains_eq, alg.mem_fromIter, covers, covers]
    apply any_filterMap
    intro segment mem
    exact canonicalizeSegment_admits real
      fun cut found => shape cut (RangeAlgebra.mem_cuts mem found)
  · rfl

end

/-! ## The bounds of a specifier -/

namespace Version

variable {bound : Nat} {version : Version}

lemma Parsed.mono {bound' : Nat} (le : bound <= bound') (parsed : version.Parsed bound) :
    version.Parsed bound' where
  epoch := parsed.epoch.trans_le le
  release := fun number mem => (parsed.release number mem).trans_le le
  pre := fun pre found => (parsed.pre pre found).trans_le le
  post := fun number found => (parsed.post number found).trans_le le
  dev := fun number found => (parsed.dev number found).trans_le le
  localVersion := parsed.localVersion
  min := parsed.min
  max := parsed.max

lemma Parsed.withDev (parsed : version.Parsed bound) {value : Option UInt64}
    (fits : ∀ number, value = some number -> number.toNat < bound) :
    (version.withDev value).Parsed bound := by
  have shape := version.record_withDev value
  constructor
  · rw [<- record_epoch, shape, record_epoch]
    exact parsed.epoch
  · rw [<- record_release, shape, record_release]
    exact parsed.release
  · rw [<- record_pre, shape, record_pre]
    exact parsed.pre
  · rw [<- record_post, shape, record_post]
    exact parsed.post
  · rw [<- record_dev, shape]
    exact fits
  · rw [<- record_localVersion, shape, record_localVersion]
    exact parsed.localVersion
  · rw [<- record_min, shape, record_min]
    exact parsed.min
  · rw [<- record_max, shape, record_max]
    exact parsed.max

/-- The first dev-release of a release. -/
lemma parsed_devZero {epoch : UInt64} {release : List UInt64} (small : epoch.toNat < bound)
    (fits : ∀ number ∈ release, number.toNat < bound) (shape : version.record =
      { epoch := epoch, release := release, pre := none, post := none,
        dev := some 0, localVersion := .empty, min := none, max := none }) :
    version.Parsed bound := by
  constructor
  · rw [<- record_epoch, shape]
    exact small
  · rw [<- record_release, shape]
    exact fits
  · rw [<- record_pre, shape]
    intro pre found
    cases found
  · rw [<- record_post, shape]
    intro number found
    cases found
  · rw [<- record_dev, shape]
    intro number found
    cases found
    exact Nat.zero_lt_of_lt small
  · rw [<- record_localVersion, shape]
    exact ⟨[], rfl⟩
  · rw [<- record_min, shape]
  · rw [<- record_max, shape]

end Version

/-- The boundaries that a specifier can have, with the side on which they are cut. -/
inductive EncodedCut (bound : Nat) : Cut Version -> Prop where
  | plain {value : Version} (after : Bool) (parsed : value.Parsed bound) :
      EncodedCut bound ⟨value, after⟩
  | localMax {value : Version} (after : Bool) (parsed : value.Parsed bound) :
      EncodedCut bound ⟨value.withLocal .max, after⟩
  | minMark {value : Version} (parsed : value.Parsed bound) (noLocal : value.localVersion = .empty)
      (pre : value.pre = none) (post : value.post = none) :
      EncodedCut bound ⟨value.withMin (some 0) .zero, false⟩
  | maxMark {value : Version} (parsed : value.Parsed bound) (noLocal : value.localVersion = .empty)
      (post : value.post = none) (dev : value.dev = none) :
      EncodedCut bound ⟨value.withMax (some 0) .zero, true⟩

lemma EncodedCut.boundary {cut : Cut Version} (encoded : EncodedCut bound cut) :
    Boundary cut.value := by
  cases encoded with
  | plain after parsed =>
    rcases parsed.localVersion with ⟨segments, spelled⟩
    exact .plain segments spelled parsed.min parsed.max
  | @localMax value after parsed =>
    have shape := value.record_withLocal .max
    refine .localMax ?_ ?_ ?_
    · rw [<- record_localVersion, shape]
    · rw [<- record_min, shape, record_min, parsed.min]
    · rw [<- record_max, shape, record_max, parsed.max]
  | @minMark value parsed noLocal pre post =>
    have shape := value.record_withMin (some 0) .zero
    refine .minMark ?_ ?_ ?_ ?_ ?_
    · rw [<- record_localVersion, shape, record_localVersion, noLocal]
    · rw [<- record_min, shape]
      rfl
    · rw [<- record_max, shape, record_max, parsed.max]
    · rw [<- record_pre, shape, record_pre, pre]
    · rw [<- record_post, shape, record_post, post]
  | @maxMark value parsed noLocal post dev =>
    have shape := value.record_withMax (some 0) .zero
    refine .maxMark ?_ ?_ ?_ ?_ ?_
    · rw [<- record_localVersion, shape, record_localVersion, noLocal]
    · rw [<- record_min, shape, record_min, parsed.min]
    · rw [<- record_max, shape]
      rfl
    · rw [<- record_post, shape, record_post, post]
    · rw [<- record_dev, shape, record_dev, dev]

lemma forall_mem_of_subset_pair {α : Type} {holds : α -> Prop} {list : List α} {left right : α}
    (within : list ⊆ [left, right]) (first : holds left) (second : holds right) :
    ∀ item ∈ list, holds item := by
  intro item mem
  rcases mem_cons.mp (within mem) with rfl | rest
  · exact first
  · rw [mem_singleton.mp rest]
    exact second

lemma succ_toNat_lt (small : number.toNat < bound) :
    (number + 1).toNat < bound + 1 := by
  rw [UInt64.toNat_add, UInt64.toNat_one]
  omega

lemma bumpLast_lt (numbers : List UInt64) (fits : ∀ number ∈ numbers, number.toNat < bound) :
    ∀ number ∈ bumpLast numbers, number.toNat < bound + 1 := by
  induction numbers with
  | nil => exact fun number mem => by cases mem
  | cons head rest ih =>
    cases rest with
    | nil =>
      intro number mem
      rw [mem_singleton.mp mem]
      exact succ_toNat_lt (fits head mem_cons_self)
    | cons next rest =>
      intro number mem
      rcases mem_cons.mp mem with same | later
      · rw [same]
        exact (fits head mem_cons_self).trans (Nat.lt_succ_self _)
      · exact ih (forall_mem_cons.mp fits).2 number later

namespace VersionSpecifier

section

variable {bound : Nat} {this : Version} (parsed : this.Parsed bound)
include parsed

lemma parsed_firstDev : (this.withDev (some 0)).Parsed (bound + 1) := by
  refine (parsed.mono (Nat.le_succ _)).withDev ?_
  intro number found
  cases found
  exact Nat.succ_pos _

lemma parsed_starUpper (bare : this.Bare) :
    (starUpper (this.withDev (some 0))).Parsed (bound + 1) := by
  refine parsed_devZero (parsed.epoch.trans (Nat.lt_succ_self _))
    (bumpLast_lt this.release parsed.release) ?_
  rw [starUpper_record bare, record_eq, bare.pre, bare.post, bare.localVersion, parsed.min,
    parsed.max]

lemma parsed_compatibleUpper (two : 2 <= this.release.length) :
    (compatibleUpper this two).Parsed (bound + 1) := by
  refine parsed_devZero (parsed.epoch.trans (Nat.lt_succ_self _))
    (bumpLast_lt this.release.dropLast fun number mem =>
      parsed.release number (mem_of_mem_dropLast mem)) ?_
  rw [compatibleUpper, record_withDev, record_withEpoch, record_new]

variable {alg : RangeAlgebra Version Version.cmp} (traced : alg.Traced)
include traced

lemma cuts_equalRanges {ranges : alg.Ranges} (converted : equalRanges alg this = some ranges) :
    ∀ cut ∈ alg.cuts ranges, EncodedCut (bound + 1) cut := by
  have own := parsed.mono (Nat.le_succ bound)
  unfold equalRanges at converted
  split at converted
  · cases converted
    exact forall_mem_of_subset_pair (traced.between _ _) (.plain _ own) (.localMax _ own)
  · cases converted
    exact forall_mem_of_subset_pair (traced.singleton _) (.plain _ own) (.plain _ own)
  · cases converted

lemma cuts_lessThanRanges (noLocal : this.localVersion = .empty) :
    ∀ cut ∈ alg.cuts (lessThanRanges alg this), EncodedCut (bound + 1) cut := by
  have own := parsed.mono (Nat.le_succ bound)
  unfold lessThanRanges
  intro cut mem
  split at mem
  · rw [mem_singleton.mp (traced.strictlyLowerThan _ mem)]
    exact .plain _ own
  next final =>
    split at mem
    · rw [mem_singleton.mp (traced.strictlyLowerThan _ mem)]
      exact .plain _ (parsed_firstDev parsed)
    next noPost =>
      rw [mem_singleton.mp (traced.strictlyLowerThan _ mem)]
      rw [Bool.not_eq_true] at final noPost
      exact .minMark own noLocal (final_iff.mp final).1 (not_isSome_iff_eq_none.mp fun some =>
        Bool.false_ne_true (noPost.symm.trans some))

lemma cuts_greaterThanRanges (noLocal : this.localVersion = .empty) :
    ∀ cut ∈ alg.cuts (greaterThanRanges alg this), EncodedCut (bound + 1) cut := by
  have own := parsed.mono (Nat.le_succ bound)
  unfold greaterThanRanges
  intro cut mem
  cases devs : this.dev with
  | some dev =>
    simp only [devs] at mem
    rw [mem_singleton.mp (traced.higherThan _ mem)]
    refine .plain _ (own.withDev ?_)
    intro number found
    cases found
    exact succ_toNat_lt (parsed.dev dev devs)
  | none =>
    simp only [devs] at mem
    split at mem
    · rw [mem_singleton.mp (traced.strictlyHigherThan _ mem)]
      exact .localMax _ own
    next noPost =>
      rw [mem_singleton.mp (traced.strictlyHigherThan _ mem)]
      rw [Bool.not_eq_true] at noPost
      exact .maxMark own noLocal (not_isSome_iff_eq_none.mp fun some =>
        Bool.false_ne_true (noPost.symm.trans some)) devs

lemma cuts_starSegment (bare : this.Bare) :
    ∀ cut ∈ alg.cuts (alg.fromRangeBounds (starSegment this)),
      EncodedCut (bound + 1) cut := by
  exact forall_mem_of_subset_pair (traced.fromRangeBounds _)
    (.plain _ (parsed_firstDev parsed)) (.plain _ (parsed_starUpper parsed bare))

end

variable {alg : RangeAlgebra Version Version.cmp} {spec : VersionSpecifier}

/-- The interval set of a specifier has boundaries of these kinds only. -/
lemma Accepted.cuts_toRanges (traced : alg.Traced) (accepted : spec.Accepted)
    (parsed : spec.version.Parsed bound) {ranges : alg.Ranges}
    (converted : spec.toRanges alg = some ranges) :
    ∀ cut ∈ alg.cuts ranges, EncodedCut (bound + 1) cut := by
  rcases spec with ⟨operator, this, compatible⟩
  simp only at parsed
  have own := parsed.mono (Nat.le_succ bound)
  cases operator with
  | equal => exact cuts_equalRanges parsed traced converted
  | exactEqual =>
    cases converted
    exact forall_mem_of_subset_pair (traced.singleton _) (.plain _ own) (.plain _ own)
  | notEqual =>
    rcases map_eq_some_iff.mp converted with ⟨inner, convertedInner, rfl⟩
    intro cut mem
    exact cuts_equalRanges parsed traced convertedInner cut (traced.complement _ mem)
  | tildeEqual =>
    cases converted
    exact forall_mem_of_subset_pair (traced.fromRangeBounds _) (.plain _ own)
      (.plain _ (parsed_compatibleUpper parsed (compatible rfl)))
  | lessThan =>
    cases converted
    exact cuts_lessThanRanges parsed traced (accepted.noLocal rfl)
  | lessThanEqual =>
    cases converted
    intro cut mem
    rw [mem_singleton.mp (traced.lowerThan _ mem)]
    exact .localMax _ own
  | greaterThan =>
    cases converted
    exact cuts_greaterThanRanges parsed traced (accepted.noLocal rfl)
  | greaterThanEqual =>
    cases converted
    intro cut mem
    rw [mem_singleton.mp (traced.higherThan _ mem)]
    exact .plain _ own
  | equalStar =>
    cases converted
    exact cuts_starSegment parsed traced (accepted.bare (.inl rfl))
  | notEqualStar =>
    cases converted
    intro cut mem
    exact cuts_starSegment parsed traced (accepted.bare (.inr rfl)) cut
      (traced.complement _ mem)

/-- A version that can be written down is in the canonical set of a specifier
exactly when it satisfies the specifier. -/
lemma Accepted.contains_canonical (traced : alg.Traced) (accepted : spec.Accepted)
    (real : version.Real) {ranges : alg.Ranges}
    (converted : spec.toRanges alg = some ranges) :
    alg.contains (canonical alg ranges) version = spec.contains version := by
  rcases accepted.toRanges_contains alg real with ⟨ranges', converted', same⟩
  rw [converted] at converted'
  cases converted'
  rw [Pep440.contains_canonical real fun cut mem =>
    (accepted.cuts_toRanges traced accepted.parsed converted cut mem).boundary, same]

end VersionSpecifier

end Uv.Pep440
