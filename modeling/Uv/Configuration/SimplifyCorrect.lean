import Uv.Configuration.SimplifySpecifiers

namespace Uv.Configuration

open Library Pep440 List Version VersionSpecifier

/-!
# What simplification keeps

Dropping trailing zeros and implied clauses changes neither the versions that a
list accepts nor the two policies.  The result is settled: a second run finds
every clause needed and writes the same text.
-/

/-! ## Trailing zeros -/

variable (release : List UInt64) (length : Nat)

lemma significantLength_le :
    significantLength release length <= length := by
  induction length using significantLength.induct release with
  | case1 => exact Nat.le_refl _
  | case2 => exact Nat.le_refl _
  | case3 length zero ih =>
    rw [significantLength, if_pos zero]
    exact ih.trans (Nat.le_succ _)
  | case4 length nonzero =>
    rw [significantLength, if_neg nonzero]

lemma releaseKey_take_significant :
    length <= release.length ->
      releaseKey (release.take (significantLength release length)) =
        releaseKey (release.take length) := by
  induction length using significantLength.induct release with
  | case1 => exact fun _ => rfl
  | case2 => exact fun _ => rfl
  | case3 length zero ih =>
    intro small
    have last : release.take (length + 2) = padRelease (release.take (length + 1)) (length + 2) := by
      rw [padRelease, length_take, Nat.min_eq_left (by omega), take_add_one,
        beq_iff_eq.mp zero]
      have one : length + 2 - (length + 1) = 1 := by omega
      rw [one]
      rfl
    rw [significantLength, if_pos zero, ih (by omega), last, releaseKey_padRelease]
  | case4 length nonzero =>
    intro _
    rw [significantLength, if_neg nonzero]

/-- The trimmed release is not trimmed again. -/
lemma significantLength_take :
    significantLength (release.take (significantLength release length))
        (significantLength release length) = significantLength release length := by
  induction length using significantLength.induct release with
  | case1 => rfl
  | case2 => rfl
  | case3 length zero ih =>
    rw [significantLength, if_pos zero]
    exact ih
  | case4 length nonzero =>
    rw [significantLength, if_neg nonzero, significantLength, getElem?_take_of_lt (by omega),
      if_neg nonzero]

/-- Two versions with the same parts, up to trailing zeros of the release. -/
structure SameUpToZeros (version trimmed : Version) : Prop where
  record : trimmed.record = { version.record with release := trimmed.release }
  key : releaseKey trimmed.release = releaseKey version.release

namespace SameUpToZeros

variable {version trimmed : Version} (same : SameUpToZeros version trimmed)
include same

lemma epoch : trimmed.epoch = version.epoch := by
  rw [<- record_epoch, same.record, record_epoch]

lemma pre : trimmed.pre = version.pre := by
  rw [<- record_pre, same.record, record_pre]

lemma post : trimmed.post = version.post := by
  rw [<- record_post, same.record, record_post]

lemma dev : trimmed.dev = version.dev := by
  rw [<- record_dev, same.record, record_dev]

lemma localVersion : trimmed.localVersion = version.localVersion := by
  rw [<- record_localVersion, same.record, record_localVersion]

lemma min : trimmed.min = version.min := by
  rw [<- record_min, same.record, record_min]

lemma max : trimmed.max = version.max := by
  rw [<- record_max, same.record, record_max]

lemma anyPrerelease : trimmed.anyPrerelease = version.anyPrerelease := by
  unfold Version.anyPrerelease Version.isPre Version.isDev
  rw [same.pre, same.dev]

/-- The two versions compare equal, also with another dev number. -/
lemma splitKey : trimmed.splitKey = version.splitKey := by
  rw [Version.splitKey, Version.splitKey, Version.publicKey, Version.publicKey, Version.base,
    Version.base, Version.place_eq, Version.place_eq, Version.localKey, Version.localKey, same.key,
    same.epoch, same.pre, same.post, same.dev, same.localVersion, same.min, same.max]

lemma withDev (value : Option UInt64) :
    SameUpToZeros (version.withDev value) (trimmed.withDev value) := by
  have release : ∀ given : Version, (given.withDev value).release = given.release := by
    intro given
    rw [<- record_release, record_withDev, record_release]
  refine ⟨?_, ?_⟩
  · rw [record_withDev, record_withDev, release, same.record]
  · rw [release, release, same.key]

end SameUpToZeros

/-- The operator depends on the number of components of the release. -/
def countsComponents : Operator -> Bool
  | .equalStar | .notEqualStar | .tildeEqual => true
  | .equal | .exactEqual | .notEqual | .lessThan | .lessThanEqual | .greaterThan
  | .greaterThanEqual => false

lemma normalizeSpecifier_eq (spec : VersionSpecifier) :
    normalizeSpecifier spec =
      if countsComponents spec.operator then spec else trimTrailingZeros spec := by
  unfold normalizeSpecifier
  cases spec.operator <;> rfl

variable {spec : VersionSpecifier}

/-- Specifiers with the same operator accept the same versions, if their versions
are the same up to trailing zeros and the number of components does not matter. -/
lemma contains_congr {trimmed : VersionSpecifier} (operators : trimmed.operator = spec.operator)
    (plain : countsComponents spec.operator = false)
    (same : SameUpToZeros spec.version trimmed.version) (version : Version) :
    trimmed.contains version = spec.contains version := by
  have others : VersionSpecifier.comparable trimmed.version version =
      VersionSpecifier.comparable spec.version version := by
    unfold VersionSpecifier.comparable
    rw [same.localVersion]
  have keys := same.splitKey
  have compared : ∀ other : Version,
      other.cmp trimmed.version = other.cmp spec.version /\
        trimmed.version.cmp other = spec.version.cmp other := by
    intro other
    rw [cmp_orderedBy_splitKey, cmp_orderedBy_splitKey, cmp_orderedBy_splitKey,
      cmp_orderedBy_splitKey, keys]
    exact ⟨rfl, rfl⟩
  have reached : ∀ other : Version, other.ge (trimmed.version.withDev (some 0)) =
      other.ge (spec.version.withDev (some 0)) := by
    intro other
    rw [Version.ge, Version.ge, cmp_orderedBy_splitKey, cmp_orderedBy_splitKey,
      (same.withDev (some 0)).splitKey]
  have stripped : ∀ other : Version, other.withoutPostAndDevEq trimmed.version =
      other.withoutPostAndDevEq spec.version := by
    intro other
    rw [Bool.eq_iff_iff, withoutPostAndDevEq_iff, withoutPostAndDevEq_iff, keys]
  have posts : trimmed.version.isPost = spec.version.isPost := by
    rw [isPost, isPost, same.post]
  unfold VersionSpecifier.contains
  rw [operators]
  cases shape : spec.operator with
  | equal => simp only [others, Version.eq, compared]
  | equalStar => exact absurd (shape ▸ plain) Bool.noConfusion
  | exactEqual => simp only [Version.eq, compared]
  | notEqual => simp only [others, Version.eq, compared]
  | notEqualStar | tildeEqual => exact absurd (shape ▸ plain) Bool.noConfusion
  | lessThan => simp only [others, same.epoch, same.anyPrerelease, reached, Version.lt, compared]
  | lessThanEqual => simp only [others, Version.le, compared]
  | greaterThan => simp only [others, same.epoch, posts, stripped, Version.gt, compared]
  | greaterThanEqual => simp only [others, Version.ge, compared]

/-- Trimming leaves the specifier as it is, or drops zeros at the end. -/
lemma trimTrailingZeros_cases (accepted : spec.Accepted)
    (plain : countsComponents spec.operator = false) :
    trimTrailingZeros spec = spec \/
      (trimTrailingZeros spec).operator = spec.operator /\
        (trimTrailingZeros spec).version.release = spec.version.release.take
          (significantLength spec.version.release spec.version.release.length) /\
        SameUpToZeros spec.version (trimTrailingZeros spec).version := by
  unfold trimTrailingZeros
  simp only
  split
  · exact .inl rfl
  · generalize nonempty : take_significant_ne_nil spec.version = proof
    generalize trimmed : spec.version.withRelease (spec.version.release.take
      (significantLength spec.version.release spec.version.release.length)) proof =
        version
    have record := record_withRelease spec.version _ proof
    rw [trimmed] at record
    have release : version.release = spec.version.release.take
        (significantLength spec.version.release spec.version.release.length) := by
      rw [<- record_release, record]
    have same : SameUpToZeros spec.version version := by
      refine ⟨by rw [record, release], ?_⟩
      rw [release, releaseKey_take_significant _ _ (Nat.le_refl _), take_length]
    have built : ∃ normalized, fromVersion spec.operator version = .ok normalized := by
      unfold fromVersion
      have noConflict : (version.isLocal && !spec.operator.isLocalCompatible) = false := by
        cases compatible : spec.operator.isLocalCompatible with
        | true => rw [Bool.not_true, Bool.and_false]
        | false =>
          rw [isLocal, same.localVersion, accepted.noLocal compatible]
          rfl
      have notTilde : ¬ (spec.operator = .tildeEqual /\ version.release.length < 2) := by
        rintro ⟨tilde, _⟩
        rw [tilde] at plain
        cases plain
      rw [noConflict, if_neg Bool.false_ne_true, dif_neg notTilde]
      exact ⟨_, rfl⟩
    rcases built with ⟨normalized, built⟩
    rw [built]
    rcases fromVersion_version built with ⟨operators, versions⟩
    refine .inr ⟨operators, ?_, ?_⟩
    · rw [versions, release]
    · rw [versions]
      exact same

/-- What normalization keeps of a specifier. -/
structure Normalizes (spec normalized : VersionSpecifier) : Prop where
  written : normalized.Written
  operator : normalized.operator = spec.operator
  anyPrerelease : normalized.version.anyPrerelease = spec.version.anyPrerelease
  contains (version : Version) : normalized.contains version = spec.contains version
  again : normalizeSpecifier normalized = normalized

lemma SameUpToZeros.parsed {version trimmed : Version} (same : SameUpToZeros version trimmed)
    (shorter : ∀ number ∈ trimmed.release, number ∈ version.release) {bound : Nat}
    (parsed : version.Parsed bound) : trimmed.Parsed bound where
  epoch := by
    rw [same.epoch]
    exact parsed.epoch
  release := fun number mem => parsed.release number (shorter number mem)
  pre := by
    rw [same.pre]
    exact parsed.pre
  post := by
    rw [same.post]
    exact parsed.post
  dev := by
    rw [same.dev]
    exact parsed.dev
  localVersion := by
    rw [same.localVersion]
    exact parsed.localVersion
  min := by
    rw [same.min]
    exact parsed.min
  max := by
    rw [same.max]
    exact parsed.max

lemma normalizeSpecifier_spec (written : spec.Written) :
    Normalizes spec (normalizeSpecifier spec) := by
  have unchanged (same : normalizeSpecifier spec = spec) :
      Normalizes spec (normalizeSpecifier spec) := by
    rw [same]
    exact ⟨written, rfl, rfl, fun _ => rfl, same⟩
  cases precise : countsComponents spec.operator with
  | true =>
    apply unchanged
    rw [normalizeSpecifier_eq, precise, if_pos rfl]
  | false =>
    have trims : normalizeSpecifier spec = trimTrailingZeros spec := by
      rw [normalizeSpecifier_eq, precise, if_neg Bool.false_ne_true]
    rcases trimTrailingZeros_cases written.accepted precise with same | ⟨operator, release, zeros⟩
    · exact unchanged (trims.trans same)
    · rw [trims]
      have parsed := zeros.parsed
        (fun number mem => mem_of_mem_take (release ▸ mem)) written.accepted.parsed
      refine ⟨⟨⟨parsed, ?_, ?_⟩, ⟨parsed, ?_⟩⟩, operator, zeros.anyPrerelease,
        contains_congr operator precise zeros, ?_⟩
      · intro star
        rw [operator] at star
        rcases star with star | star <;> (rw [star] at precise; cases precise)
      · intro incompatible
        rw [zeros.localVersion]
        rw [operator] at incompatible
        exact written.accepted.noLocal incompatible
      · rw [zeros.localVersion]
        exact written.spelled.segments
      · rw [normalizeSpecifier_eq, operator, precise, if_neg Bool.false_ne_true]
        have length : (trimTrailingZeros spec).version.release.length =
            significantLength spec.version.release spec.version.release.length := by
          rw [release, length_take, Nat.min_eq_left (significantLength_le _ _)]
        rw [trimTrailingZeros.eq_1 (trimTrailingZeros spec)]
        simp only
        rw [if_pos]
        rw [length, release]
        exact significantLength_take _ _

/-! ## Entries of the loop -/

section

variable {alg : RangeAlgebra Version Version.cmp}

/-- A specifier with the versions that it excludes. -/
structure Faithful (alg : RangeAlgebra Version Version.cmp)
    (item : VersionSpecifier × alg.Ranges) : Prop where
  written : item.1.Written
  excluded : exclusionOf alg item.1 = some item.2

lemma exclusionOf_isSome (written : spec.Written) :
    ∃ exclusion, exclusionOf alg spec = some exclusion := by
  rcases written.accepted.toRanges_contains alg written.accepted.parsed with
    ⟨ranges, converted, _⟩
  exact ⟨_, congrArg (Option.map _) converted⟩

variable {item : VersionSpecifier × alg.Ranges}

/-- The exclusion has the versions that do not satisfy the specifier. -/
lemma Faithful.mem_iff (traced : alg.Traced)
    (faithful : Faithful alg item) {version : Version} (real : version.Real) :
    alg.mem item.2 ⟨version, .exact⟩ = !item.1.contains version := by
  rcases Option.map_eq_some_iff.mp faithful.excluded with ⟨ranges, converted, complement⟩
  have same := faithful.written.accepted.contains_canonical traced real converted
  rw [<- same, <- alg.contains_complement, complement, alg.contains_eq]
  rfl

/-- A version of one number that can be written. -/
lemma real_single {number : UInt64} (small : number.toNat < Grammar.Components.limit) :
    (new [number] (cons_ne_nil number [])).Real := by
  have record := record_new [number] (cons_ne_nil number [])
  constructor
  · rw [<- record_epoch, record]
    exact Nat.zero_lt_of_lt small
  · intro given mem
    rw [<- record_release, record] at mem
    rw [mem_singleton.mp mem]
    exact small
  · rw [<- record_pre, record]
    intro pre found
    cases found
  · rw [<- record_post, record]
    intro number found
    cases found
  · rw [<- record_dev, record]
    intro number found
    cases found
  · rw [<- record_localVersion, record]
    exact ⟨[], rfl⟩
  · rw [<- record_min, record]
  · rw [<- record_max, record]

/-- A pin excludes some version. -/
lemma Faithful.exists_excluded (traced : alg.Traced) (faithful : Faithful alg item)
    (pin : allowsYanked [item.1]) :
    ∃ spot, alg.mem item.2 spot := by
  -- a pin that contains a version without a local part has its key
  have pinned : ∀ number : UInt64,
      item.1.contains (new [number] (cons_ne_nil number [])) ->
        (new [number] (cons_ne_nil number [])).splitKey = item.1.version.splitKey := by
    intro number contained
    have noLocal : (new [number] (cons_ne_nil number [])).localVersion.isEmpty =
        true := by
      rw [<- record_localVersion, record_new]
      rfl
    have plain : VersionSpecifier.comparable item.1.version
        (new [number] (cons_ne_nil number [])) =
          new [number] (cons_ne_nil number []) := by
      rw [VersionSpecifier.comparable, noLocal, Bool.not_true, Bool.and_false,
        if_neg Bool.false_ne_true]
    rw [allowsYanked, Bool.and_eq_true] at pin
    have operator := pin.2
    unfold VersionSpecifier.contains at contained
    simp only [plain] at contained
    cases shape : item.1.operator with
    | equal =>
      rw [shape] at contained
      exact (eq_iff _ _).mp contained
    | exactEqual =>
      rw [shape] at contained
      exact ((eq_iff _ _).mp contained).symm
    | equalStar | notEqual | notEqualStar | tildeEqual | lessThan | lessThanEqual | greaterThan
    | greaterThanEqual =>
      rw [shape] at operator
      cases operator
  by_cases zero : item.1.contains (new [0] (cons_ne_nil 0 []))
  · refine ⟨⟨new [1] (cons_ne_nil 1 []), .exact⟩, ?_⟩
    rw [faithful.mem_iff traced (@real_single 1 (by decide)), Bool.not_eq_true', <- Bool.not_eq_true]
    intro one
    have keys := (pinned 0 zero).trans (pinned 1 one).symm
    have bases := congrArg (fun key : PublicKey ×ₗ LocalKey => (ofLex (ofLex (ofLex key).1).1).2) keys
    change releaseKey _ = releaseKey _ at bases
    rw [<- record_release, <- record_release, record_new, record_new] at bases
    have first := congrFun (congrArg ofLex bases) 0
    cases first
  · refine ⟨⟨new [0] (cons_ne_nil 0 []), .exact⟩, ?_⟩
    rw [faithful.mem_iff traced (@real_single 0 (by decide)), Bool.not_eq_true', <- Bool.not_eq_true]
    exact zero

lemma allowsYanked_perm {left right : List VersionSpecifier} (same : left.Perm right) :
    allowsYanked left = allowsYanked right := by
  rw [Bool.eq_iff_iff]
  constructor
  · intro single
    rcases length_eq_one_iff.mp (allowsYanked_length single) with ⟨only, rfl⟩
    rw [singleton_perm.mp same] at single
    exact single
  · intro single
    rcases length_eq_one_iff.mp (allowsYanked_length single) with ⟨only, rfl⟩
    rw [perm_singleton.mp same]
    exact single

lemma spared_perm {others others' : List (VersionSpecifier × alg.Ranges)}
    (item : VersionSpecifier × alg.Ranges) (same : others.Perm others') :
    spared others item = spared others' item := by
  rw [spared, spared, allowsYanked_perm (same.map Prod.fst), same.any_eq]

/-- Dropping an item does not make another one removable. -/
lemma removable_stable (traced : alg.Traced) :
    Stable (removable alg) (Faithful alg) where
  perm {others others'} item same := by
    rw [Bool.eq_iff_iff, removable_iff, removable_iff, spared_perm item same]
    refine and_congr_right' (forall_congr' fun spot => imp_congr_right fun _ => ?_)
    exact exists_congr fun other => and_congr_left' same.mem_iff
  remove {item other others} own given needed dropped := by
    rw [<- Bool.not_eq_true] at needed ⊢
    intro now
    apply needed
    rw [removable_iff] at now dropped ⊢
    rcases now with ⟨sparedNow, impliedNow⟩
    rcases dropped with ⟨_, impliedOther⟩
    have implied : Implied alg (other :: others) item := by
      intro spot inside
      rcases impliedNow spot inside with ⟨found, mem, member⟩
      exact ⟨found, mem_cons_of_mem _ mem, member⟩
    refine ⟨?_, implied⟩
    rw [spared, Bool.and_eq_true] at sparedNow ⊢
    refine ⟨?_, ?_⟩
    · rw [Bool.not_eq_true', <- Bool.not_eq_true]
      intro pin
      -- then the other one is a pin and stands alone, and the item excludes nothing
      rw [map_cons] at pin
      have alone := allowsYanked_length pin
      rw [length_cons, length_map, Nat.add_eq_right, length_eq_zero_iff] at alone
      rw [alone, map_nil] at pin
      rcases given.exists_excluded traced pin with ⟨spot, inside⟩
      rcases impliedOther spot inside with ⟨found, mem, member⟩
      rw [alone] at mem
      rw [mem_singleton.mp mem] at member
      rcases impliedNow spot member with ⟨none, mem', _⟩
      rw [alone] at mem'
      cases mem'
    · rw [Bool.or_eq_true] at sparedNow ⊢
      rcases sparedNow.2 with no | some
      · exact .inl no
      · right
        rw [any_cons, some, Bool.or_true]

/-- What every removal keeps. -/
structure KeepsMeaning (items kept : List (VersionSpecifier × alg.Ranges)) : Prop where
  faithful : ∀ item ∈ kept, Faithful alg item
  contains (version : Version) (real : version.Real) :
    (kept.all fun item => item.1.contains version) = items.all fun item => item.1.contains version
  prereleases : (kept.any fun item => specifierOptsIntoPrereleases item.1) =
    items.any fun item => specifierOptsIntoPrereleases item.1
  pin : allowsYanked (kept.map Prod.fst) = allowsYanked (items.map Prod.fst)

lemma KeepsMeaning.step (traced : alg.Traced)
    {items before after : List (VersionSpecifier × alg.Ranges)}
    {item : VersionSpecifier × alg.Ranges} (keeps : KeepsMeaning items (before ++ item :: after))
    (dropped : removable alg (before ++ after) item) :
    KeepsMeaning items (before ++ after) := by
  rcases removable_iff.mp dropped with ⟨isSpared, implied⟩
  rw [spared, Bool.and_eq_true, Bool.not_eq_true'] at isSpared
  rcases isSpared with ⟨noPin, optIn⟩
  have own := keeps.faithful item (mem_append_right _ mem_cons_self)
  have rest : ∀ given ∈ before ++ after, Faithful alg given := by
    intro given mem
    exact keeps.faithful given (perm_middle.mem_iff.mpr (mem_cons_of_mem _ mem))
  refine ⟨rest, ?_, ?_, ?_⟩
  · intro version real
    rw [<- keeps.contains version real, perm_middle.all_eq, all_cons]
    cases others : (before ++ after).all (fun item => item.1.contains version) with
    | false => rw [Bool.and_false]
    | true =>
      rw [Bool.and_true, eq_comm, <- Bool.not_eq_false]
      intro outside
      have inside : alg.mem item.2 ⟨version, .exact⟩ := by
        rw [own.mem_iff traced real, outside]
        rfl
      rcases implied _ inside with ⟨other, mem, member⟩
      rw [(rest other mem).mem_iff traced real, all_eq_true.mp others other mem] at member
      cases member
  · rw [<- keeps.prereleases, perm_middle.any_eq, any_cons]
    rcases Bool.or_eq_true_iff.mp optIn with no | some
    · rw [Bool.not_eq_true'] at no
      rw [no, Bool.false_or]
    · rw [some, Bool.or_true]
  · rw [<- keeps.pin, noPin, eq_comm, <- Bool.not_eq_true,
      allowsYanked_perm (perm_middle.map Prod.fst)]
    intro pin
    -- a single pin is not implied by nothing
    have alone := allowsYanked_length pin
    rw [length_map, length_cons, Nat.add_eq_right, length_eq_zero_iff] at alone
    rw [alone, map_singleton] at pin
    rcases own.exists_excluded traced pin with ⟨spot, inside⟩
    rcases implied spot inside with ⟨other, mem, _⟩
    rw [alone] at mem
    cases mem

lemma keepsMeaning_prune (traced : alg.Traced) {items : List (VersionSpecifier × alg.Ranges)}
    (faithful : ∀ item ∈ items, Faithful alg item) :
    KeepsMeaning items (prune (removable alg) items) :=
  prune_induct (fun _ _ _ keeps dropped => keeps.step traced dropped)
    ⟨faithful, fun _ _ => rfl, rfl, rfl⟩

end

/-! ## Texts of lists -/

/-- If one reading of the items determines another one, so it is for lists. -/
lemma map_congr_of_map {α β γ : Type} {first : α -> β} {second : α -> γ} (left : List α) :
    ∀ {right : List α},
      (∀ item item', item ∈ left -> item' ∈ right -> first item = first item' ->
        second item = second item') ->
      left.map first = right.map first -> left.map second = right.map second := by
  induction left with
  | nil =>
    intro right _ same
    rw [map_nil, eq_comm, map_eq_nil_iff] at same
    rw [same]
  | cons item rest ih =>
    intro right determines same
    cases right with
    | nil => cases same
    | cons item' rest' =>
      rw [map_cons, map_cons, cons.injEq] at same
      rw [map_cons, map_cons, determines item item' mem_cons_self mem_cons_self same.1,
        ih (fun given given' mem mem' => determines given given'
          (mem_cons_of_mem _ mem) (mem_cons_of_mem _ mem')) same.2]

/-- Lists with the same texts are sorted into lists with the same texts. -/
lemma fromUnsorted_display {left right : List VersionSpecifier}
    (leftWritten : ∀ spec ∈ left, spec.Written)
    (rightWritten : ∀ spec ∈ right, spec.Written)
    (same : left.map VersionSpecifier.display = right.map VersionSpecifier.display) :
    (VersionSpecifiers.fromUnsorted left).specifiers.map VersionSpecifier.display =
      (VersionSpecifiers.fromUnsorted right).specifiers.map VersionSpecifier.display := by
  have parts : left.map parts = right.map parts := by
    refine map_congr_of_map left (fun item item' mem mem' texts => ?_) same
    rcases display_injective (leftWritten item mem).spelled
      (rightWritten item' mem').spelled texts with ⟨operators, records⟩
    exact Prod.ext operators records
  refine map_congr_of_map _ (fun item item' _ _ given => display_congr given) ?_
  rw [VersionSpecifiers.fromUnsorted_parts, VersionSpecifiers.fromUnsorted_parts, parts]

variable (list : List VersionSpecifier)

lemma fromUnsorted_perm :
    (VersionSpecifiers.fromUnsorted list).specifiers.Perm list :=
  mergeSort_perm _ _

lemma mergeSort_display_sorted :
    (list.mergeSort fun left right => decide (left.display <= right.display)).Pairwise
      fun left right => left.display <= right.display := by
  refine (pairwise_mergeSort ?_ ?_ list).imp fun le => of_decide_eq_true le
  · intro first second third le le'
    exact decide_eq_true ((of_decide_eq_true le).trans (of_decide_eq_true le'))
  · intro first second
    rw [Bool.or_eq_true, decide_eq_true_iff, decide_eq_true_iff]
    exact le_total _ _

/-! ## The whole function -/

section

variable {alg : RangeAlgebra Version Version.cmp}

lemma exists_entries (specifiers : List VersionSpecifier) :
    (∀ spec ∈ specifiers, spec.Written) ->
      ∃ entries : List (VersionSpecifier × alg.Ranges), entries.map Prod.fst = specifiers /\
          specifiers.mapM (exclusionOf alg) = some (entries.map Prod.snd) /\
            ∀ item ∈ entries, Faithful alg item := by
  induction specifiers with
  | nil => exact fun _ => ⟨[], rfl, rfl, fun item mem => by cases mem⟩
  | cons spec rest ih =>
    intro written
    have own := written spec mem_cons_self
    rcases exclusionOf_isSome own with ⟨exclusion, excluded⟩
    rcases ih (forall_mem_cons.mp written).2 with
      ⟨entries, firsts, seconds, faithful⟩
    refine ⟨(spec, exclusion) :: entries, ?_, ?_, ?_⟩
    · rw [map_cons, firsts]
    · rw [mapM_cons, excluded, seconds]
      rfl
    · intro item mem
      rcases mem_cons.mp mem with same | mem
      · rw [same]
        exact ⟨own, excluded⟩
      · exact faithful item mem

/-- The function prunes the normalized list and sorts what is left. -/
lemma simplifySpecifiers_eq (list : VersionSpecifiers)
    (written : ∀ spec ∈ list.specifiers, spec.Written) :
    ∃ entries : List (VersionSpecifier × alg.Ranges),
      entries.map Prod.fst = (list.specifiers.map normalizeSpecifier).mergeSort
          (fun left right => decide (left.display <= right.display)) /\
        (∀ item ∈ entries, Faithful alg item) /\
        simplifySpecifiers alg list =
          some (.fromUnsorted ((prune (removable alg) entries).map Prod.fst)) := by
  have sortedWritten : ∀ spec, spec ∈ (list.specifiers.map normalizeSpecifier).mergeSort
      (fun left right => decide (left.display <= right.display)) -> spec.Written := by
    intro spec mem
    rcases mem_map.mp (mem_mergeSort.mp mem) with ⟨given, found, rfl⟩
    exact (normalizeSpecifier_spec (written given found)).written
  rcases @exists_entries alg _ sortedWritten with ⟨entries, firsts, seconds, faithful⟩
  refine ⟨entries, firsts, faithful, ?_⟩
  rcases VersionRangeCoverage.new_spec (entries.map Prod.snd) with ⟨coverage, built, mem, tracks⟩
  have start : SimplifyState.Agrees
      { coverage := coverage
        retained := replicate (entries.map Prod.fst).length true
        retainedCount := (entries.map Prod.fst).length
        prereleaseCount := (entries.map Prod.fst).countP specifierOptsIntoPrereleases }
      [] [] entries :=
    { retained := by rw [length_map, nil_append]
      retainedCount := by rw [length_map, nil_append]
      prereleaseCount := by
        rw [countP_map]
        rfl
      tracks := tracks }
  rcases @simplifyLoop_spec alg entries _ [] [] rfl start
    (fun item found => mem item.2 (mem_map_of_mem found)) with ⟨state, folded, pruned⟩
  unfold simplifySpecifiers
  simp only [<- firsts] at seconds folded ⊢
  simp only [seconds, built, Option.bind_eq_bind, Option.bind_some]
  simp only [nil_append, length_nil] at folded pruned
  rw [folded, Option.bind_some, retainedOf_map, pruned]
  rfl

lemma Faithful.eq_of_fst {item : VersionSpecifier × alg.Ranges} (faithful : Faithful alg item) :
    (item.1, (exclusionOf alg item.1).getD alg.empty) = item := by
  rw [faithful.excluded, Option.getD_some]

/-- Faithful entries are determined by their specifiers. -/
lemma perm_of_specifiers {left right : List (VersionSpecifier × alg.Ranges)}
    (leftFaithful : ∀ item ∈ left, Faithful alg item)
    (rightFaithful : ∀ item ∈ right, Faithful alg item)
    (same : (left.map Prod.fst).Perm (right.map Prod.fst)) : left.Perm right := by
  have rebuilt : ∀ list : List (VersionSpecifier × alg.Ranges),
      (∀ item ∈ list, Faithful alg item) -> (list.map Prod.fst).map (fun spec =>
          (spec, (exclusionOf alg spec).getD alg.empty)) = list := by
    intro list faithful
    rw [map_map]
    exact (map_congr_left fun item mem => (faithful item mem).eq_of_fst).trans
      (map_id list)
  rw [<- rebuilt left leftFaithful, <- rebuilt right rightFaithful]
  exact same.map _

section

variable {list : VersionSpecifiers} {entries : List (VersionSpecifier × alg.Ranges)}
  (written : ∀ spec ∈ list.specifiers, spec.Written)
  (normalized : (entries.map Prod.fst).Perm (list.specifiers.map normalizeSpecifier))

include written normalized

/-- Normalized clauses accept the same versions. -/
lemma contains_normalized (version : Version) :
    (entries.all fun item => item.1.contains version) = list.contains version := by
  have step := normalized.all_eq (f := fun spec => spec.contains version)
  rw [all_map, all_map] at step
  refine step.trans ?_
  rw [VersionSpecifiers.contains, Bool.eq_iff_iff, all_eq_true, all_eq_true]
  refine forall_congr' fun spec => imp_congr_right fun found => ?_
  rw [Function.comp_apply, (normalizeSpecifier_spec (written spec found)).contains]

lemma prereleases_normalized :
    (entries.any fun item => specifierOptsIntoPrereleases item.1) =
      list.specifiers.any specifierOptsIntoPrereleases := by
  have step := normalized.any_eq (f := specifierOptsIntoPrereleases)
  rw [any_map, any_map] at step
  refine step.trans ?_
  rw [Bool.eq_iff_iff, any_eq_true, any_eq_true]
  refine exists_congr fun spec => and_congr_right fun found => ?_
  have same := normalizeSpecifier_spec (written spec found)
  rw [Function.comp_apply, specifierOptsIntoPrereleases, specifierOptsIntoPrereleases,
    same.operator, same.anyPrerelease]

lemma pin_normalized : allowsYanked (entries.map Prod.fst) = allowsYanked list.specifiers := by
  rw [allowsYanked_perm normalized]
  cases shape : list.specifiers with
  | nil => rfl
  | cons spec rest =>
    have same := normalizeSpecifier_spec (written spec (shape ▸ mem_cons_self))
    rw [map_cons, allowsYanked, allowsYanked, same.operator, isEmpty_map]

end

/-- Clauses that are normalized, sorted and needed are written the same when they are simplified:
the second run starts from the same clauses, in another order. -/
lemma simplifySpecifiers_again {kept : List (VersionSpecifier × alg.Ranges)}
    (faithful : ∀ item ∈ kept, Faithful alg item) (settled : Settled (removable alg) kept)
    (unchanged : ∀ spec ∈ kept.map Prod.fst, normalizeSpecifier spec = spec)
    (ordered : (kept.map Prod.fst).Pairwise fun left right => left.display <= right.display) :
    ∃ again, simplifySpecifiers alg (.fromUnsorted (kept.map Prod.fst)) = some again /\
      again.display = (VersionSpecifiers.fromUnsorted (kept.map Prod.fst)).display := by
  have sorted := fromUnsorted_perm (kept.map Prod.fst)
  have keptWritten : ∀ spec ∈ kept.map Prod.fst, spec.Written := by
    intro spec mem
    rcases mem_map.mp mem with ⟨item, found, rfl⟩
    exact (faithful item found).written
  rcases @simplifySpecifiers_eq alg _ fun spec mem => keptWritten spec (sorted.mem_iff.mp mem) with
    ⟨entries, firsts, faithful', simplified⟩
  have same := map_congr_left fun spec mem => unchanged spec (sorted.mem_iff.mp mem)
  rw [same, map_id'] at firsts
  have perm : (entries.map Prod.fst).Perm (kept.map Prod.fst) := by
    rw [firsts]
    exact (mergeSort_perm _ _).trans sorted
  have nothing : prune (removable alg) entries = entries :=
    prune_of_settled (settled.perm (perm_of_specifiers faithful faithful' perm.symm))
  have texts : (entries.map Prod.fst).map VersionSpecifier.display =
      (kept.map Prod.fst).map VersionSpecifier.display := by
    refine List.Perm.eq_of_pairwise (fun _ _ _ _ => le_antisymm) ?_ ?_ (perm.map _)
    · rw [firsts, pairwise_map]
      exact mergeSort_display_sorted _
    · rw [pairwise_map]
      exact ordered
  refine ⟨_, simplified, ?_⟩
  rw [nothing, VersionSpecifiers.display, VersionSpecifiers.display,
    fromUnsorted_display (fun spec mem => keptWritten spec (perm.mem_iff.mp mem)) keptWritten texts]

/-- A list of specifiers that were read is simplified without a panic.  The result
accepts the same versions, opts into pre-releases and permits yanked versions as
the list does, and simplifying it again writes the same text. -/
theorem simplifySpecifiers_keeps (traced : alg.Traced) (list : VersionSpecifiers)
    (written : ∀ spec ∈ list.specifiers, spec.Written) :
    ∃ simplified, simplifySpecifiers alg list = some simplified /\
      (∀ text version, Version.fromStr text = .ok version ->
        simplified.contains version = list.contains version) /\
      simplified.specifiers.any specifierOptsIntoPrereleases =
        list.specifiers.any specifierOptsIntoPrereleases /\
      allowsYanked simplified.specifiers = allowsYanked list.specifiers /\
      ∃ again, simplifySpecifiers alg simplified = some again /\
        again.display = simplified.display := by
  rcases @simplifySpecifiers_eq alg list written with ⟨entries, firsts, faithful, simplified⟩
  have keeps := keepsMeaning_prune traced faithful
  have settled := settled_prune (removable_stable traced) faithful
  have sublist : (prune (removable alg) entries).Sublist entries := prune_sublist entries
  generalize prune (removable alg) entries = kept at simplified keeps settled sublist
  have normalized : (entries.map Prod.fst).Perm (list.specifiers.map normalizeSpecifier) := by
    rw [firsts]
    exact mergeSort_perm _ _
  have sorted := fromUnsorted_perm (kept.map Prod.fst)
  refine ⟨_, simplified, ?_, ?_, ?_, ?_⟩
  · intro text version read
    rw [VersionSpecifiers.contains, sorted.all_eq, all_map, <- contains_normalized written normalized,
      <- keeps.contains version (fromStr_parsed read)]
    rfl
  · rw [sorted.any_eq, any_map, <- prereleases_normalized written normalized, <- keeps.prereleases]
    rfl
  · rw [allowsYanked_perm sorted, keeps.pin, pin_normalized written normalized]
  · refine simplifySpecifiers_again keeps.faithful settled ?_ ?_
    · intro spec mem
      rcases mem_map.mp (normalized.mem_iff.mp ((sublist.map Prod.fst).mem mem)) with
        ⟨given, found, rfl⟩
      exact (normalizeSpecifier_spec (written given found)).again
    · refine List.Pairwise.sublist (sublist.map Prod.fst) ?_
      rw [firsts]
      exact mergeSort_display_sorted _

/-- Two clauses that were read. -/
theorem simplifySpecifiers_keeps_two : ∃ list : VersionSpecifiers,
    list.specifiers.map VersionSpecifier.display = [">=1.0a1", "<2.0"] /\
      ∃ simplified, simplifySpecifiers Version.cutSets list = some simplified /\
        simplified.specifiers.any specifierOptsIntoPrereleases = true /\
        allowsYanked simplified.specifiers = false := by
  have evaluated : ((VersionSpecifier.fromStr takeRun ">= 1.0a1").toOption.bind fun lower =>
      (VersionSpecifier.fromStr takeRun "< 2.0").toOption.map fun upper =>
        ([lower, upper].map VersionSpecifier.display,
          [lower, upper].any specifierOptsIntoPrereleases)) =
      some ([">=1.0a1", "<2.0"], true) := by decide +kernel
  cases readLower : VersionSpecifier.fromStr takeRun ">= 1.0a1" with
  | error err =>
    rw [readLower] at evaluated
    cases evaluated
  | ok lower =>
    cases readUpper : VersionSpecifier.fromStr takeRun "< 2.0" with
    | error err =>
      rw [readLower, readUpper] at evaluated
      cases evaluated
    | ok upper =>
      rw [readLower, readUpper] at evaluated
      rcases Prod.mk.inj (Option.some.inj evaluated) with ⟨texts, optIn⟩
      have written : ∀ spec, spec ∈ [lower, upper] -> spec.Written := by
        intro spec mem
        rcases mem_pair.mp mem with rfl | rfl
        · exact VersionSpecifier.fromStr_written readLower
        · exact VersionSpecifier.fromStr_written readUpper
      rcases simplifySpecifiers_keeps (CutSet.algebra_traced cmp_orderedBy_splitKey)
        ⟨[lower, upper]⟩ written with ⟨simplified, done, _, prereleases, pin, _⟩
      exact ⟨⟨[lower, upper]⟩, texts, simplified, done, prereleases.trans optIn, pin.trans rfl⟩

end

end Uv.Configuration
