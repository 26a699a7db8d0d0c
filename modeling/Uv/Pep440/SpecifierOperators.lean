import Uv.Pep440.SpecifierRanges

namespace Uv.Pep440

open Library Version

/-!
# The two meanings of a specifier agree

`contains` tests the fields of a version, and `toRanges` builds an interval with
artificial bounds.  For versions that can be written down both say the same.
Every operator is treated in the same way: the bound and the test are turned
into statements about public keys, and what remains is a comparison of places or
of releases.
-/

namespace Version

lemma eq_iff (this other : Version) : this.eq other <-> this.splitKey = other.splitKey := by
  rw [eq, beq_iff_eq]
  exact cmp_orderedBy_splitKey.eq_iff this other

lemma lt_iff (this other : Version) : this.lt other <-> this.splitKey < other.splitKey := by
  rw [lt, Ordering.isLT_iff_eq_lt]
  exact cmp_orderedBy_splitKey.lt_iff this other

variable (this other : Version)

lemma le_iff : this.le other <-> this.splitKey <= other.splitKey :=
  cmp_orderedBy_splitKey.isLE_iff this other

lemma gt_iff (this other : Version) : this.gt other <-> other.splitKey < this.splitKey := by
  rw [gt, Ordering.isGT_iff_eq_gt]
  exact cmp_orderedBy_splitKey.gt_iff this other

lemma ge_iff : this.ge other <-> other.splitKey <= this.splitKey := by
  rw [ge, <- Ordering.isLE_swap, cmp_orderedBy_splitKey.swap this other]
  exact cmp_orderedBy_splitKey.isLE_iff other this

end Version

/-! ## Versions without post and dev numbers -/

lemma LocalSegment.key_injective : Function.Injective LocalSegment.key := by
  intro left right same
  cases left with
  | string text =>
    cases right with
    | string text' => exact congrArg _ (Sum.inl.inj (toLex_inj.mp same))
    | number value => cases toLex_inj.mp same
  | number value =>
    cases right with
    | string text => cases toLex_inj.mp same
    | number value' =>
      exact congrArg _ (UInt64.toNat_inj.mp (Sum.inr.inj (toLex_inj.mp same)))

lemma LocalVersion.key_injective : Function.Injective LocalVersion.key := by
  intro left right same
  cases left with
  | max =>
    cases right with
    | max => rfl
    | segments list => cases same
  | segments list =>
    cases right with
    | max => cases same
    | segments list' =>
      exact congrArg _ (List.map_injective_iff.mpr LocalSegment.key_injective
        (WithTop.coe_injective same))

lemma postRank_injective : Function.Injective postRank := by
  intro left right same
  cases left with
  | none =>
    cases right with
    | none => rfl
    | some right => cases same
  | some left =>
    cases right with
    | none => cases same
    | some right => exact congrArg some (UInt64.toNat_inj.mp (Nat.succ.inj same))

/-- Equal tuples are those that compare as equal. -/
lemma SortableTuple.cmp_eq_iff (left right : SortableTuple) :
    left.cmp right = .eq <-> left = right := by
  rw [SortableTuple.cmp_eq_comparePlace, Ordering.then_eq_eq,
    SortableTuple.comparePlace_orderedBy.eq_iff, LocalVersion.cmp_orderedBy.eq_iff]
  constructor
  · rintro ⟨places, locals⟩
    rcases Place.eq_iff.mp places with ⟨stages, numbers, posts, devs⟩
    cases left
    cases right
    simp only [SortableTuple.mk.injEq]
    exact ⟨UInt64.toNat_inj.mp stages, UInt64.toNat_inj.mp numbers, postRank_injective posts,
      UInt64.toNat_inj.mp devs, LocalVersion.key_injective locals⟩
  · rintro rfl
    exact ⟨rfl, rfl⟩

lemma VersionSmall.setSuffixNumber_none (own : UInt64) (small : VersionSmall) :
    ∃ changed, setSuffixNumber own small none = some changed := by
  unfold setSuffixNumber
  split
  · exact ⟨small, rfl⟩
  · exact ⟨_, rfl⟩

lemma sortableTupleWith_makeFull (version : VersionInner) (post dev : Option UInt64) :
    sortableTupleWith (.full version.makeFull) post dev = sortableTupleWith version post dev := by
  cases version <;> rfl

/-- The slow path, on a version whose two numbers have been removed. -/
lemma VersionInner.withoutPostAndDevEqSlow_iff {this removed other : VersionInner}
    (full : removed.makeFull = { this.makeFull with post := none, dev := none }) :
    this.withoutPostAndDevEqSlow other <-> removed.cmpSlow other = .eq := by
  have tuples : sortableTuple removed = sortableTupleWith this none none := by
    rw [sortableTuple, <- sortableTupleWith_makeFull removed, post_eq, dev_eq, full,
      <- sortableTupleWith_makeFull this]
    rfl
  have epochs : removed.epoch = this.epoch := by rw [epoch_eq, full, epoch_eq]
  have releases : removed.release = this.release := by rw [release_eq, full, release_eq]
  rw [cmpSlow_eq_then, Ordering.then_eq_eq, Ordering.then_eq_eq, SortableTuple.cmp_eq_iff, tuples,
    epochs, releases, u64_orderedBy.eq_iff, UInt64.toNat_inj, withoutPostAndDevEqSlow,
    Bool.and_eq_true, Bool.and_eq_true, beq_iff_eq, beq_iff_eq, beq_iff_eq, and_assoc]

/-- The fast path and the slow path both remove the two numbers and compare. -/
lemma Version.withoutPostAndDevEq_iff (this other : Version) :
    this.withoutPostAndDevEq other <->
      ((this.withPost none).withDev none).splitKey = other.splitKey := by
  have full : ((this.withPost none).withDev none).inner.makeFull =
      { this.inner.makeFull with post := none, dev := none } := by
    have changed := record_withDev (this.withPost none) none
    rw [record_withPost] at changed
    exact changed
  rw [<- cmp_orderedBy_splitKey.eq_iff, cmp, withoutPostAndDevEq]
  have slow := @VersionInner.withoutPostAndDevEqSlow_iff _ _ other.inner full
  rw [<- VersionInner.cmp_eq_cmpSlow ((this.withPost none).withDev none).packed other.packed]
    at slow
  cases shape : this.inner with
  | full record =>
    rw [shape] at slow
    exact slow
  | small word =>
    cases shape' : other.inner with
    | full record =>
      rw [shape, shape'] at slow
      exact slow
    | small word' =>
      rcases VersionSmall.setSuffixNumber_none VersionSmall.suffixPost word with
        ⟨first, setPost⟩
      rcases VersionSmall.setSuffixNumber_none VersionSmall.suffixDev first with
        ⟨second, setDev⟩
      have removed : ((this.withPost none).withDev none).inner = .small second := by
        change (this.inner.withPost none).withDev none = _
        rw [shape, VersionInner.withPost, VersionInner.setOrMakeFull]
        simp only [VersionSmall.setPost, setPost, VersionInner.withDev,
          VersionInner.setOrMakeFull, VersionSmall.setDev, setDev]
      rw [removed]
      simp only [VersionInner.withoutPostAndDevEq, VersionSmall.setPost, setPost,
        VersionSmall.setDev, setDev, Option.getD_some, VersionInner.cmp]
      rw [beq_iff_eq, u64_orderedBy.eq_iff, UInt64.toNat_inj]

namespace VersionSpecifier

/-! ## The candidate with its local part ignored -/

lemma localVersion_of_isEmpty {localVersion : LocalVersion}
    (empty : localVersion.isEmpty) : localVersion = .empty := by
  cases localVersion with
  | max => cases empty
  | segments list =>
    rw [LocalVersion.isEmpty, List.isEmpty_iff] at empty
    rw [empty]
    rfl

section

variable {this version : Version}

lemma comparable_record (noLocal : this.localVersion = .empty) :
    (comparable this version).record = { version.record with localVersion := .empty } := by
  unfold comparable
  split
  · exact record_withoutLocal version
  next kept =>
    have ownEmpty : this.localVersion.isEmpty := by
      rw [noLocal]
      rfl
    rw [ownEmpty, Bool.true_and, Bool.not_eq_true', Bool.not_eq_false] at kept
    rw [<- localVersion_of_isEmpty kept, <- record_localVersion]

lemma comparable_of_local (hasLocal : this.localVersion.isEmpty = false) :
    comparable this version = version := by
  unfold comparable
  rw [hasLocal, Bool.false_and, if_neg Bool.false_ne_true]

section

variable (noLocal : this.localVersion = .empty)

include noLocal

lemma comparable_publicKey :
    (comparable this version).publicKey = version.publicKey :=
  publicKey_eq_of_record (comparable_record noLocal)

lemma comparable_epoch :
    (comparable this version).epoch = version.epoch := by
  rw [<- record_epoch, comparable_record noLocal, record_epoch]

lemma comparable_release :
    (comparable this version).release = version.release := by
  rw [<- record_release, comparable_record noLocal, record_release]

lemma comparable_anyPrerelease :
    (comparable this version).anyPrerelease = version.anyPrerelease := by
  simp only [anyPrerelease, isPre, isDev, <- record_pre, <- record_dev, comparable_record noLocal]

lemma comparable_isPost :
    (comparable this version).isPost = version.isPost := by
  simp only [isPost, <- record_post, comparable_record noLocal]

lemma comparable_localVersion :
    (comparable this version).localVersion = .empty := by
  rw [<- record_localVersion, comparable_record noLocal]

end

end

/-! ## Operators -/

section

variable (alg : RangeAlgebra Version Version.cmp) {this version : Version}
  (own : this.Parsed Grammar.Components.limit) (parsed : version.Parsed Grammar.Components.limit)
  (noLocal : this.localVersion = .empty)

lemma contains_exactly (value : Version) :
    alg.contains (alg.singleton this) value <-> this.eq value := by
  rw [alg.contains_singleton cmp_orderedBy_splitKey, eq_iff, eq_comm]

include noLocal

lemma comparable_ge_iff :
    (comparable this version).ge this <-> this.publicKey <= version.publicKey := by
  rw [ge_iff, splitKey_le_iff noLocal, comparable_publicKey noLocal]

lemma comparable_le_iff :
    (comparable this version).le this <-> version.publicKey <= this.publicKey := by
  rw [le_iff, splitKey_le_iff (comparable_localVersion noLocal), comparable_publicKey noLocal]

lemma comparable_lt_iff :
    (comparable this version).lt this <-> version.publicKey < this.publicKey := by
  rw [lt_iff, lt_splitKey_iff noLocal, comparable_publicKey noLocal]

lemma comparable_gt_iff :
    (comparable this version).gt this <-> this.publicKey < version.publicKey := by
  rw [gt_iff, lt_splitKey_iff (comparable_localVersion noLocal), comparable_publicKey noLocal]

lemma comparable_eq_iff :
    (comparable this version).eq this <-> version.publicKey = this.publicKey := by
  rw [eq_iff, splitKey, splitKey, localKey, localKey,
    comparable_localVersion noLocal, noLocal, comparable_publicKey noLocal, toLex_inj,
    Prod.mk.injEq, and_iff_left rfl]

lemma greaterThanEqual_iff :
    alg.contains (alg.higherThan this) version <->
      (comparable this version).ge this := by
  rw [alg.contains_higherThan cmp_orderedBy_splitKey, splitKey_le_iff noLocal,
    comparable_ge_iff noLocal]

lemma lessThanEqual_iff :
    alg.contains (alg.lowerThan (this.withLocal .max)) version <->
      (comparable this version).le this := by
  have greatest : (this.withLocal .max).localVersion = .max := by
    rw [<- record_localVersion, record_withLocal]
  rw [alg.contains_lowerThan cmp_orderedBy_splitKey,
    le_splitKey_iff greatest, publicKey_withLocal, comparable_le_iff noLocal]

include parsed

/-- Between a version and its "max" local part lie its local versions. -/
lemma equal_iff :
    alg.contains (alg.between this (this.withLocal .max)) version <->
      (comparable this version).eq this := by
  have greatest : (this.withLocal .max).localVersion = .max := by
    rw [<- record_localVersion, record_withLocal]
  have proper : this.splitKey < (this.withLocal .max).splitKey := by
    rw [splitKey, splitKey, Prod.Lex.toLex_lt_toLex, publicKey_withLocal,
      localKey, localKey, noLocal, greatest]
    exact .inr ⟨rfl, WithTop.coe_lt_top _⟩
  have top : (this.withLocal .max).localKey = LocalVersion.max.key :=
    congrArg LocalVersion.key greatest
  have below : version.splitKey < (this.withLocal .max).splitKey <->
      version.publicKey <= this.publicKey := by
    rw [splitKey, splitKey, Prod.Lex.toLex_lt_toLex, publicKey_withLocal,
      top, and_iff_left parsed.localKey_lt_top]
    exact le_iff_lt_or_eq.symm
  rw [alg.contains_between cmp_orderedBy_splitKey proper, below,
    splitKey_le_iff noLocal, comparable_eq_iff noLocal, and_comm]
  exact le_antisymm_iff.symm

end

/-! ## Exclusive comparisons -/

section

variable (alg : RangeAlgebra Version Version.cmp) {this version : Version}
  (own : this.Parsed Grammar.Components.limit) (parsed : version.Parsed Grammar.Components.limit)
  (noLocal : this.localVersion = .empty)

lemma base_lt_of_epoch_lt (earlier : version.epoch < this.epoch) : version.base < this.base :=
  Prod.Lex.toLex_lt_toLex.mpr (.inl (UInt64.lt_iff_toNat_lt.mp earlier))

include noLocal in
/-- The test of `<`.  The shortcut for an earlier epoch agrees with the order. -/
lemma lessThan_test_iff :
    (if (comparable this version).epoch < this.epoch then true
      else if !this.anyPrerelease && (comparable this version).anyPrerelease &&
          (comparable this version).ge (this.withDev (some 0)) then false
      else (comparable this version).lt this) <->
      version.publicKey < this.publicKey /\
        ¬ (this.anyPrerelease = false /\ version.anyPrerelease /\
          (this.withDev (some 0)).publicKey <= version.publicKey) := by
  have noLocal' : (this.withDev (some 0)).localVersion = .empty := by
    rw [<- record_localVersion, record_withDev, record_localVersion, noLocal]
  have above : (comparable this version).ge (this.withDev (some 0)) <->
      (this.withDev (some 0)).publicKey <= version.publicKey := by
    rw [ge_iff, splitKey_le_iff noLocal', comparable_publicKey noLocal]
  rw [comparable_epoch noLocal, comparable_anyPrerelease noLocal]
  by_cases earlier : version.epoch < this.epoch
  · have bases := base_lt_of_epoch_lt earlier
    rw [if_pos earlier, publicKey_lt_iff, publicKey_le_iff, base_withDev]
    refine iff_of_true rfl ⟨.inl bases, ?_⟩
    rintro ⟨_, _, later | ⟨same, _⟩⟩
    · exact lt_asymm bases later
    · exact bases.ne same.symm
  · rw [if_neg earlier]
    split
    next excluded =>
      rw [Bool.and_eq_true, Bool.and_eq_true, Bool.not_eq_true', above, and_assoc] at excluded
      exact iff_of_false Bool.false_ne_true fun both => both.2 excluded
    next allowed =>
      rw [Bool.and_eq_true, Bool.and_eq_true, Bool.not_eq_true', above, and_assoc] at allowed
      rw [comparable_lt_iff noLocal]
      exact (and_iff_left allowed).symm

lemma prerelease_iff : version.anyPrerelease <->
    version.pre.isSome \/ version.dev.isSome := by
  rw [anyPrerelease, Bool.or_eq_true]
  rfl

lemma final_iff : version.anyPrerelease = false <-> version.pre = none /\ version.dev = none := by
  rw [anyPrerelease, Bool.or_eq_false_iff, isPre, isDev,
    Option.isSome_eq_false_iff, Option.isSome_eq_false_iff, Option.isNone_iff_eq_none,
    Option.isNone_iff_eq_none]

/-- A bound with the base of another version splits the versions as that one does,
except for the versions of that base. -/
lemma exclusive_iff {bound least : Version} (sameBase : bound.base = this.base)
    (leastBase : least.base = this.base) {excluded : Prop} (places : version.base = this.base ->
      (version.place < bound.place <->
        version.place < this.place /\ ¬ (excluded /\ least.place <= version.place))) :
    version.publicKey < bound.publicKey <->
      version.publicKey < this.publicKey /\
        ¬ (excluded /\ least.publicKey <= version.publicKey) := by
  rw [publicKey_lt_iff, publicKey_lt_iff, publicKey_le_iff, sameBase, leastBase]
  rcases lt_trichotomy version.base this.base with less | same | greater
  · simp only [less, less.ne, less.ne.symm, lt_asymm less, true_or, false_and, or_self, and_false,
      not_false_eq_true, and_self]
  · simp only [same, lt_irrefl, true_and, false_or]
    exact places same
  · simp only [lt_asymm greater, greater.ne.symm, false_and, or_self]

include own parsed in
/-- Below the "min" mark of a final release: below it, and no pre-release of it. -/
lemma lt_min_iff (final : this.anyPrerelease = false) (noPost : this.post = none)
    (zero : BoundValue (some 0)) :
    version.publicKey < (this.withMin (some 0) zero).publicKey <->
      version.publicKey < this.publicKey /\
        ¬ (version.anyPrerelease /\
          (this.withDev (some 0)).publicKey <= version.publicKey) := by
  rcases final_iff.mp final with ⟨noPre, noDev⟩
  apply exclusive_iff (base_withMin _ _ _) (base_withDev _ _)
  intro _
  have first := @devZero_le_placeOf version.pre version.post version.dev
  have early := @prerelease_of_lt_final version.pre version.post version.dev
  have belowFirst : Place.of 0 0 0 0 < Place.of 1 0 0 0 := by
    rw [Place.lt_iff]
    omega
  rw [own.place_withMin, own.place_withDev, own.place_eq, parsed.place_eq, noPre, noPost, noDev,
    prerelease_iff]
  refine iff_of_false (not_lt.mpr (belowFirst.le.trans first)) ?_
  rintro ⟨before, notExcluded⟩
  exact notExcluded ⟨early before, first⟩

include own parsed in
/-- Below the first dev-release of a post-release: below it, and no dev-release of it. -/
lemma lt_post_iff (final : this.anyPrerelease = false) {number : UInt64}
    (isPost : this.post = some number) :
    version.publicKey < (this.withDev (some 0)).publicKey <->
      version.publicKey < this.publicKey /\
        ¬ (version.anyPrerelease /\
          (this.withDev (some 0)).publicKey <= version.publicKey) := by
  rcases final_iff.mp final with ⟨noPre, noDev⟩
  apply exclusive_iff (base_withDev _ _) (base_withDev _ _)
  intro _
  have devOnly := @dev_of_lt_post version.pre version.post version.dev (number.toNat + 1)
  have belowOwn : Place.of 6 0 (number.toNat + 1) 0 <
      Place.of 6 0 (number.toNat + 1) (2 ^ 64 - 1) := by
    rw [Place.lt_iff]
    omega
  have lowPlace : placeOf none (some number) (some 0) = Place.of 6 0 (number.toNat + 1) 0 := rfl
  have ownPlace : placeOf none (some number) none =
      Place.of 6 0 (number.toNat + 1) (2 ^ 64 - 1) := rfl
  rw [own.place_withDev, own.place_eq, parsed.place_eq, noPre, isPost, noDev, prerelease_iff,
    lowPlace, ownPlace]
  constructor
  · intro below
    exact ⟨below.trans belowOwn, fun excluded => not_lt.mpr excluded.2 below⟩
  · rintro ⟨before, notExcluded⟩
    rw [<- not_le]
    intro above
    exact notExcluded ⟨.inr (devOnly above before), above⟩

include own parsed noLocal in
lemma lessThan_iff :
    alg.contains (lessThanRanges alg this) version <->
      (if (comparable this version).epoch < this.epoch then true
        else if !this.anyPrerelease && (comparable this version).anyPrerelease &&
            (comparable this version).ge (this.withDev (some 0)) then false
        else (comparable this version).lt this) := by
  rw [lessThan_test_iff noLocal]
  unfold lessThanRanges
  by_cases prerelease : this.anyPrerelease
  · rw [if_pos prerelease, alg.contains_strictlyLowerThan cmp_orderedBy_splitKey,
      lt_splitKey_iff noLocal, and_iff_left]
    rintro ⟨final, _⟩
    rw [prerelease] at final
    cases final
  · rw [Bool.not_eq_true] at prerelease
    rw [if_neg (Bool.eq_false_iff.mp prerelease)]
    cases post : this.post with
    | some number =>
      have isPost : this.isPost := by
        rw [isPost, post]
        rfl
      have noLocal' : (this.withDev (some 0)).localVersion = .empty := by
        rw [<- record_localVersion, record_withDev, record_localVersion, noLocal]
      rw [if_pos isPost, alg.contains_strictlyLowerThan cmp_orderedBy_splitKey,
        lt_splitKey_iff noLocal', lt_post_iff own parsed prerelease post]
      simp only [prerelease, true_and]
    | none =>
      have notPost : ¬ this.isPost := by
        rw [isPost, post]
        exact Bool.false_ne_true
      have noLocal' : (this.withMin (some 0) .zero).localVersion = .empty := by
        rw [<- record_localVersion, record_withMin, record_localVersion, noLocal]
      rw [if_neg notPost, alg.contains_strictlyLowerThan cmp_orderedBy_splitKey,
        lt_splitKey_iff noLocal', lt_min_iff own parsed prerelease post]
      simp only [prerelease, true_and]

include parsed noLocal in
lemma comparable_withoutPostAndDevEq_iff :
    (comparable this version).withoutPostAndDevEq this <->
      version.base = this.base /\ placeOf version.pre none none = this.place := by
  have record : (((comparable this version).withPost none).withDev none).record =
      { version.record with localVersion := .empty, post := none, dev := none } := by
    rw [record_withDev, record_withPost, comparable_record noLocal]
  have bases : (((comparable this version).withPost none).withDev none).base = version.base := by
    rw [base_record, base_record, record]
  have places : (((comparable this version).withPost none).withDev none).place =
      placeOf version.pre none none := by
    simp only [place_record, record, record_pre, record_min, record_max, parsed.min, parsed.max]
    rfl
  have locals : (((comparable this version).withPost none).withDev none).localKey =
      this.localKey := by
    rw [localKey, localKey, <- record_localVersion, record, noLocal]
  rw [withoutPostAndDevEq_iff, splitKey, splitKey, toLex_inj,
    Prod.mk.injEq, and_iff_left locals, publicKey, publicKey, toLex_inj,
    Prod.mk.injEq, bases, places]

include parsed noLocal in
/-- The test of `>`.  The shortcut for a later epoch agrees with the order. -/
lemma greaterThan_test_iff :
    (if (comparable this version).epoch > this.epoch then true
      else if !this.isPost && (comparable this version).isPost &&
          (comparable this version).withoutPostAndDevEq this then false
      else (comparable this version).gt this) <->
      this.publicKey < version.publicKey /\
        ¬ (this.isPost = false /\ version.isPost /\
          version.base = this.base /\ placeOf version.pre none none = this.place) := by
  have same := comparable_withoutPostAndDevEq_iff parsed noLocal
  rw [comparable_epoch noLocal, comparable_isPost noLocal]
  by_cases later : version.epoch > this.epoch
  · have bases : this.base < version.base := base_lt_of_epoch_lt later
    rw [if_pos later, publicKey_lt_iff]
    exact iff_of_true rfl ⟨.inl bases, fun excluded => bases.ne excluded.2.2.1.symm⟩
  · rw [if_neg later]
    split
    next excluded =>
      rw [Bool.and_eq_true, Bool.and_eq_true, Bool.not_eq_true', same, and_assoc] at excluded
      exact iff_of_false Bool.false_ne_true fun both => both.2 excluded
    next allowed =>
      rw [Bool.and_eq_true, Bool.and_eq_true, Bool.not_eq_true', same, and_assoc] at allowed
      rw [comparable_gt_iff noLocal]
      exact (and_iff_left allowed).symm

include own parsed in
/-- Above the "max" mark: above the version, and no post-release of it. -/
lemma gt_max_iff (noDev : this.dev = none) (noPost : this.post = none) :
    alg.contains (alg.strictlyHigherThan (this.withMax (some 0) .zero)) version <->
      this.publicKey < version.publicKey /\
        ¬ (version.isPost /\ version.base = this.base /\
          placeOf version.pre none none = this.place) := by
  have fits : ∀ number, version.post = some number -> number.toNat < 2 ^ 64 - 1 :=
    parsed.post
  have place : (this.withMax (some 0) .zero).place = placeOf this.pre (some u64Max) none := by
    rw [own.place_withMax, noDev]
  have apart : (this.withMax (some 0) .zero).publicKey ≠ version.publicKey := by
    rw [publicKey, publicKey, ne_eq, toLex_inj, Prod.mk.injEq, place, parsed.place_eq]
    exact fun same => placeOf_max_ne fits same.2
  rw [alg.contains_strictlyHigherThan cmp_orderedBy_splitKey, splitKey,
    splitKey, Prod.Lex.toLex_lt_toLex, or_iff_left fun same => apart same.1,
    publicKey_lt_iff, publicKey_lt_iff, base_withMax, place, own.place_eq,
    parsed.place_eq, noDev, noPost, placeOf_max_lt_iff fits]
  rcases lt_trichotomy this.base version.base with less | same | greater
  · simp only [less, less.ne.symm, true_or, false_and, and_false, not_false_eq_true, and_self]
  · simp only [same, lt_irrefl, true_and, false_or]
    rfl
  · simp only [lt_asymm greater, greater.ne.symm, false_and, or_self]

include own parsed noLocal in
lemma greaterThan_iff :
    alg.contains (greaterThanRanges alg this) version <->
      (if (comparable this version).epoch > this.epoch then true
        else if !this.isPost && (comparable this version).isPost &&
            (comparable this version).withoutPostAndDevEq this then false
        else (comparable this version).gt this) := by
  rw [greaterThan_test_iff parsed noLocal]
  unfold greaterThanRanges
  cases dev : this.dev with
  | some number =>
    have fits : number.toNat < 2 ^ 64 - 1 := own.dev number dev
    have noLocal' : (this.withDev (some (number + 1))).localVersion = .empty := by
      rw [<- record_localVersion, record_withDev, record_localVersion, noLocal]
    -- A version without post and dev numbers is not this dev-release.
    have notExcluded : ¬ (this.isPost = false /\ version.isPost /\
        version.base = this.base /\ placeOf version.pre none none = this.place) := by
      rintro ⟨notPost, _, _, same⟩
      rw [isPost, Option.isSome_eq_false_iff, Option.isNone_iff_eq_none] at notPost
      rw [own.place_eq, notPost, dev] at same
      exact placeOf_ne_dev fits same
    rw [and_iff_left notExcluded, alg.contains_higherThan cmp_orderedBy_splitKey,
      splitKey_le_iff noLocal', publicKey_le_iff, publicKey_lt_iff,
      base_withDev, own.place_withDev, own.place_eq, dev, placeOf_dev_lt_iff fits]
  | none =>
    cases post : this.post with
    | some number =>
      have isPost : this.isPost := by
        rw [isPost, post]
        rfl
      have greatest : (this.withLocal .max).localVersion = .max := by
        rw [<- record_localVersion, record_withLocal]
      have notExcluded : ¬ (this.isPost = false /\ version.isPost /\
          version.base = this.base /\ placeOf version.pre none none = this.place) := by
        rintro ⟨notPost, _⟩
        rw [isPost] at notPost
        cases notPost
      rw [and_iff_left notExcluded, if_pos isPost,
        alg.contains_strictlyHigherThan cmp_orderedBy_splitKey,
        splitKey_lt_iff greatest, publicKey_withLocal]
    | none =>
      have notPost : this.isPost = false := by
        rw [isPost, post]
        rfl
      rw [if_neg (Bool.eq_false_iff.mp notPost), gt_max_iff alg own parsed dev post]
      simp only [notPost, true_and]

end

/-! ## Release prefixes -/

section

variable (alg : RangeAlgebra Version Version.cmp) {this version bound : Version}
  (own : this.Parsed Grammar.Components.limit) (parsed : version.Parsed Grammar.Components.limit)
  (noLocal : this.localVersion = .empty)

include parsed in
/-- The first dev-release of a release is its least version. -/
lemma devZero_publicKey_le_iff (first : bound.place = Place.of 1 0 0 0) :
    bound.publicKey <= version.publicKey <-> bound.base <= version.base := by
  rw [publicKey_le_iff, first, parsed.place_eq, and_iff_left devZero_le_placeOf]
  exact le_iff_lt_or_eq.symm

include parsed in
lemma publicKey_lt_devZero_iff (first : bound.place = Place.of 1 0 0 0) :
    version.publicKey < bound.publicKey <-> version.base < bound.base := by
  rw [<- not_le, devZero_publicKey_le_iff parsed first, not_le]

/-- Between a release and its bumped prefix, the epoch is fixed. -/
lemma base_between_iff {epoch epoch' : Nat} {low high release : ReleaseKey} :
    (toLex (epoch, low) : BaseKey) <= toLex (epoch', release) /\
      (toLex (epoch', release) : BaseKey) < toLex (epoch, high) <->
      epoch = epoch' /\ low <= release /\ release < high := by
  rw [Prod.Lex.toLex_le_toLex, Prod.Lex.toLex_lt_toLex]
  constructor
  · rintro ⟨above, below⟩
    rcases above with earlier | ⟨same, above⟩
    · rcases below with later | ⟨same, _⟩
      · exact absurd later (lt_asymm earlier)
      · exact absurd same earlier.ne'
    · rcases below with later | ⟨_, below⟩
      · exact absurd same later.ne'
      · exact ⟨same, above, below⟩
  · rintro ⟨same, above, below⟩
    exact ⟨.inr ⟨same, above⟩, .inr ⟨same.symm, below⟩⟩

include own in
lemma matchesStar_iff (other : Version) :
    matchesStar this other <->
      releaseKey this.release <= releaseKey other.release /\
        releaseKey other.release < releaseKey (bumpLast this.release) :=
  zip_padRelease_iff this.nonempty (fun last found => own.release last (List.mem_of_getLast? found))
    other.release

/-- The upper end of a bare version is the dev-release of the bumped release. -/
lemma starUpper_record (bare : this.Bare) :
    (starUpper (this.withDev (some 0))).record =
      { this.record with release := bumpLast this.release, dev := some 0 } := by
  have noPost : (this.withDev (some 0)).post = none := by
    rw [<- record_post, record_withDev, record_post, bare.post]
  have noPre : (this.withDev (some 0)).pre = none := by
    rw [<- record_pre, record_withDev, record_pre, bare.pre]
  unfold starUpper
  simp only [noPost, noPre]
  rw [record_withRelease, <- record_release, record_withDev, record_release]

include own parsed noLocal in
lemma star_iff (bare : this.Bare) :
    alg.contains (alg.fromRangeBounds (starSegment this)) version <->
      (this.epoch == (comparable this version).epoch &&
        matchesStar this (comparable this version)) := by
  have lowLocal : (this.withDev (some 0)).localVersion = .empty := by
    rw [<- record_localVersion, record_withDev, record_localVersion, noLocal]
  have lowPlace : (this.withDev (some 0)).place = Place.of 1 0 0 0 := by
    rw [own.place_withDev, bare.pre, bare.post]
    rfl
  have highLocal : (starUpper (this.withDev (some 0))).localVersion = .empty := by
    rw [<- record_localVersion, starUpper_record bare, record_localVersion, noLocal]
  have highPlace : (starUpper (this.withDev (some 0))).place = Place.of 1 0 0 0 := by
    simp only [place_record, starUpper_record bare, record_pre,
      record_post, record_min, record_max, bare.pre, bare.post, own.min, own.max]
    rfl
  have highBase : (starUpper (this.withDev (some 0))).base =
      toLex (this.epoch.toNat, releaseKey (bumpLast this.release)) := by
    rw [base_record, starUpper_record bare, record_epoch]
  rw [starSegment, alg.contains_halfOpen cmp_orderedBy_splitKey,
    splitKey_le_iff lowLocal, lt_splitKey_iff highLocal,
    devZero_publicKey_le_iff parsed lowPlace, publicKey_lt_devZero_iff parsed highPlace,
    base_withDev, highBase, base, base, base_between_iff,
    comparable_epoch noLocal, Bool.and_eq_true, beq_iff_eq, matchesStar_iff own,
    comparable_release noLocal, UInt64.toNat_inj]

include own parsed noLocal in
lemma tilde_iff (two : 2 <= this.release.length) :
    alg.contains
        (alg.fromRangeBounds ⟨.included this, .excluded (compatibleUpper this two)⟩) version =
          true <->
      (if this.epoch != (comparable this version).epoch then false
        else if !((this.release.take (this.release.length - 1)).zip
            (comparable this version).release).all fun (this, other) => this == other then false
        else (comparable this version).ge this) := by
  have record : (compatibleUpper this two).record =
      { epoch := this.epoch, release := bumpLast this.release.dropLast, pre := none, post := none,
        dev := some 0, localVersion := .empty, min := none, max := none } := by
    rw [compatibleUpper, record_withDev, record_withEpoch, record_new]
  have highLocal : (compatibleUpper this two).localVersion = .empty := by
    rw [<- record_localVersion, record]
  have highPlace : (compatibleUpper this two).place = Place.of 1 0 0 0 := by
    rw [place_record, record]
    rfl
  have highBase : (compatibleUpper this two).base =
      toLex (this.epoch.toNat, releaseKey (bumpLast this.release.dropLast)) := by
    rw [base_record, record]
  rw [alg.contains_halfOpen cmp_orderedBy_splitKey, splitKey_le_iff noLocal,
    lt_splitKey_iff highLocal, publicKey_lt_devZero_iff parsed highPlace, highBase,
    comparable_epoch noLocal, comparable_release noLocal, <- List.dropLast_eq_take]
  have prefixFits := fun last found =>
    own.release last (List.mem_of_mem_dropLast (List.mem_of_getLast? found))
  have agree := @zip_dropLast_iff this.release two prefixFits version.release
  constructor
  · rintro ⟨above, below⟩
    have baseAbove : this.base <= version.base := by
      rcases (publicKey_le_iff this version).mp above with less | ⟨same, _⟩
      · exact less.le
      · exact same.le
    rcases base_between_iff.mp ⟨baseAbove, below⟩ with ⟨epochs, releaseAbove, releaseBelow⟩
    have sameEpoch : (this.epoch != version.epoch) = false := by
      rw [UInt64.toNat_inj.mp epochs]
      exact bne_self_eq_false _
    rw [sameEpoch, if_neg Bool.false_ne_true, (agree releaseAbove).mpr releaseBelow, Bool.not_true,
      if_neg Bool.false_ne_true]
    exact (comparable_ge_iff noLocal).mpr above
  · intro accepted
    split at accepted
    · cases accepted
    next sameEpoch =>
      split at accepted
      · cases accepted
      next agrees =>
        rw [bne_iff_ne, ne_eq, not_not] at sameEpoch
        rw [Bool.not_eq_true', Bool.not_eq_false] at agrees
        have above := (comparable_ge_iff noLocal).mp accepted
        have releaseAbove : releaseKey this.release <= releaseKey version.release := by
          rcases (publicKey_le_iff this version).mp above with less | ⟨same, _⟩
          · rcases Prod.Lex.toLex_lt_toLex.mp less with earlier | ⟨_, releases⟩
            · exact absurd (congrArg UInt64.toNat sameEpoch) earlier.ne
            · exact releases.le
          · exact (Prod.mk.inj (toLex_inj.mp same)).2.le
        refine ⟨above, Prod.Lex.toLex_lt_toLex.mpr (.inr ⟨?_, (agree releaseAbove).mp agrees⟩)⟩
        exact congrArg UInt64.toNat sameEpoch.symm

end

end VersionSpecifier

end Uv.Pep440
