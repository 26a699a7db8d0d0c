import Uv.Pep440.ReleaseRanges

namespace Uv.Pep440

open Library List Version VersionSpecifier

/-!
# The releases in the range of a specifier

For versions that are nothing but a release, a specifier is read as a range.  A range for a
wildcard starts at the version as it was written, not at its release, so that an epoch or a
post-release shifts it.
-/

/-! ## Specifiers that are compared by their release -/

section

variable (operator : Operator) (this other : List UInt64)

/-- What a specifier requires of a version, when both consist of a release. -/
def Accepts : Prop :=
  match operator with
  | .equal | .exactEqual => releaseKey other = releaseKey this
  | .notEqual => releaseKey other ≠ releaseKey this
  | .equalStar => (this.zip (padRelease other this.length)).all (fun (this, other) => this == other)
  | .notEqualStar =>
    ¬ (this.zip (padRelease other this.length)).all (fun (this, other) => this == other)
  | .tildeEqual =>
    ((this.take (this.length - 1)).zip other).all (fun (this, other) => this == other) /\
      releaseKey this <= releaseKey other
  | .greaterThan => releaseKey this < releaseKey other
  | .greaterThanEqual => releaseKey this <= releaseKey other
  | .lessThan => releaseKey other < releaseKey this
  | .lessThanEqual => releaseKey other <= releaseKey this

/-- The releases in the range of a specifier. -/
def InRange : Prop :=
  match operator with
  | .equalStar => releaseKey this <= releaseKey other /\ releaseKey other < releaseKey (bumpLast this)
  | .notEqualStar =>
    ¬ (releaseKey this <= releaseKey other /\ releaseKey other < releaseKey (bumpLast this))
  | .tildeEqual =>
    releaseKey this <= releaseKey other /\ releaseKey other < releaseKey (bumpLast this.dropLast)
  | operator => Accepts operator this other

end

section

variable (major minor : UInt64)

lemma accepts_equalStar_one (number : UInt64) :
    Accepts .equalStar [number] [major, minor] <-> number = major := by
  simp [Accepts, padRelease]

lemma accepts_equalStar_more (first second : UInt64) (rest : List UInt64) :
    Accepts .equalStar (first :: second :: rest) [major, minor] <->
      first = major /\ second = minor /\ rest.all (· == 0) := by
  have zeros : ∀ rest : List UInt64,
      (rest.zip (replicate rest.length 0)).all (fun (this, other) => this == other) =
        rest.all (· == 0) := by
    intro rest
    induction rest with
    | nil => rfl
    | cons number rest ih =>
      rw [length_cons, replicate_succ, zip_cons_cons, all_cons, all_cons, ih]
  change ((first, major) :: (second, minor) :: rest.zip (replicate rest.length 0)).all
    (fun (this, other) => this == other) <-> _
  rw [all_cons, all_cons, zeros, Bool.and_eq_true, Bool.and_eq_true, beq_iff_eq, beq_iff_eq]

end

section

variable (spec : VersionSpecifier) (only : spec.version.ReleaseOnly)
  {other : Version} (otherOnly : other.ReleaseOnly)

include only otherOnly

lemma contains_iff_accepts :
    spec.contains other <->
      Accepts spec.operator spec.version.release other.release := by
  have same : VersionSpecifier.comparable spec.version other = other := by
    rw [VersionSpecifier.comparable, otherOnly.localVersion]
    exact if_neg (by simp [LocalVersion.isEmpty, LocalVersion.empty])
  have le : other.le spec.version <->
      releaseKey other.release <= releaseKey spec.version.release := by
    rw [le, cmp_orderedBy.isLE_iff, otherOnly.key_le_iff only]
  have ge : other.ge spec.version <->
      releaseKey spec.version.release <= releaseKey other.release := by
    rw [ge, <- Ordering.isLE_swap, cmp_orderedBy.swap, cmp_orderedBy.isLE_iff,
      only.key_le_iff otherOnly]
  have lt : other.lt spec.version <->
      releaseKey other.release < releaseKey spec.version.release := by
    rw [lt, Ordering.isLT_iff_eq_lt, cmp_orderedBy.lt_iff, otherOnly.key_lt_iff only]
  have gt : other.gt spec.version <->
      releaseKey spec.version.release < releaseKey other.release := by
    rw [gt, Ordering.isGT_iff_eq_gt, cmp_orderedBy.gt_iff, only.key_lt_iff otherOnly]
  rw [VersionSpecifier.contains, same]
  cases operator : spec.operator with
  | equal => exact otherOnly.eq_iff only
  | exactEqual => exact (only.eq_iff otherOnly).trans eq_comm
  | notEqual =>
    rw [Bool.not_eq_true', Bool.eq_false_iff, ne_eq, only.eq_iff otherOnly, eq_comm]
    exact Iff.rfl
  | equalStar => simp only [only.epoch, otherOnly.epoch, beq_self_eq_true, Bool.true_and]; exact Iff.rfl
  | notEqualStar =>
    simp only [only.epoch, otherOnly.epoch, bne_self_eq_false, Bool.false_or, Bool.not_eq_true',
      Bool.eq_false_iff]
    exact Iff.rfl
  | tildeEqual =>
    simp only [only.epoch, otherOnly.epoch, bne_self_eq_false, Bool.false_eq_true, if_false]
    rw [Accepts, <- ge]
    generalize all _ _ = agrees
    cases agrees <;> simp
  | greaterThan =>
    simp only [only.epoch, otherOnly.epoch, isPost, otherOnly.post, Option.isSome_none,
      Bool.and_false, Bool.false_and, Bool.false_eq_true, if_false, gt_iff_lt]
    exact gt
  | greaterThanEqual => exact ge
  | lessThan =>
    simp only [only.epoch, otherOnly.epoch, anyPrerelease, isPre, isDev,
      otherOnly.pre, otherOnly.dev, Option.isSome_none, Bool.or_false,
      Bool.and_false, Bool.false_and, Bool.false_eq_true, if_false]
    exact lt
  | lessThanEqual => exact le

end

section

variable (spec : VersionSpecifier) {other : Version} (otherOnly : other.ReleaseOnly)

include otherOnly

/-- The range has the releases that it should have, if a star range starts where its release does. -/
lemma contains_releaseRange_iff (alg : RangeAlgebra Version Version.cmp) (trim : Bool)
    (starts : spec.operator = .equalStar \/ spec.operator = .notEqualStar ->
      (spec.version.key <= other.key <->
        releaseKey spec.version.release <= releaseKey other.release)) :
    alg.contains (spec.releaseSpecifierToRange alg trim) other <->
      InRange spec.operator spec.version.release other.release := by
  rcases spec with ⟨operator, version, compatible⟩
  have ordered := cmp_orderedBy
  have trimmedSpec : (if trim then version.onlyReleaseTrimmed else version.onlyRelease).ReleaseOnly /\
      releaseKey (if trim then version.onlyReleaseTrimmed else version.onlyRelease).release =
        releaseKey version.release := by
    cases trim with
    | true =>
      rcases version.onlyReleaseTrimmed_spec with ⟨only, release⟩
      exact ⟨only, (congrArg releaseKey release).trans (releaseKey_trimmedRelease _)⟩
    | false => exact ⟨version.onlyRelease_spec.1, congrArg releaseKey version.onlyRelease_spec.2⟩
  unfold releaseSpecifierToRange
  dsimp only at trimmedSpec starts ⊢
  generalize (if trim then version.onlyReleaseTrimmed else version.onlyRelease) = trimmed at trimmedSpec ⊢
  rcases trimmedSpec with ⟨only, release⟩
  have below : trimmed.key <= other.key <-> releaseKey version.release <= releaseKey other.release := by
    rw [only.key_le_iff otherOnly, release]
  have above : other.key <= trimmed.key <-> releaseKey other.release <= releaseKey version.release := by
    rw [otherOnly.key_le_iff only, release]
  have equal : other.key = trimmed.key <-> releaseKey other.release = releaseKey version.release := by
    rw [le_antisymm_iff, le_antisymm_iff, above, below]
  have limit : ∀ (numbers : List UInt64) (nonempty : numbers ≠ []),
      other.key < (new numbers nonempty).key <->
        releaseKey other.release < releaseKey numbers := by
    intro numbers nonempty
    rw [otherOnly.key_lt_iff (new_releaseOnly _ _), release_new]
  have star : operator = .equalStar \/ operator = .notEqualStar ->
      (alg.contains (alg.fromRangeBounds (releaseStarSegment version)) other <->
      InRange .equalStar version.release other.release) := by
    intro isStar
    rw [releaseStarSegment, alg.contains_halfOpen ordered, limit, starts isStar]
    exact Iff.rfl
  cases operator with
  | equal | exactEqual => exact (alg.contains_singleton ordered _ _).trans equal
  | notEqual =>
    change alg.contains (alg.complement _) other <-> _
    rw [alg.contains_complement, Bool.not_eq_true', Bool.eq_false_iff]
    exact not_congr ((alg.contains_singleton ordered _ _).trans equal)
  | lessThan =>
    refine (alg.contains_strictlyLowerThan ordered _ _).trans ?_
    exact (not_le.symm.trans (not_congr below)).trans not_le
  | lessThanEqual => exact (alg.contains_lowerThan ordered _ _).trans above
  | greaterThan =>
    refine (alg.contains_strictlyHigherThan ordered _ _).trans ?_
    exact (not_le.symm.trans (not_congr above)).trans not_le
  | greaterThanEqual => exact (alg.contains_higherThan ordered _ _).trans below
  | tildeEqual =>
    exact (alg.contains_halfOpen ordered _ _ _).trans (and_congr below (limit _ _))
  | equalStar => exact star (.inl rfl)
  | notEqualStar =>
    change alg.contains (alg.complement _) other <-> _
    rw [alg.contains_complement, Bool.not_eq_true', Bool.eq_false_iff, ne_eq, star (.inr rfl)]
    exact Iff.rfl

lemma contains_range_iff (only : spec.version.ReleaseOnly)
    (alg : RangeAlgebra Version Version.cmp) :
    alg.contains (spec.releaseSpecifierToRange alg true) other <->
      InRange spec.operator spec.version.release other.release :=
  contains_releaseRange_iff spec otherOnly alg true fun _ => only.key_le_iff otherOnly

end

/-! ## Any specifier -/

/-- One can be added to the last number. -/
def CanBump (numbers : List UInt64) : Prop :=
  ∀ last, numbers.getLast? = some last -> last.toNat < 2 ^ 64 - 1

lemma lt_bumpLast_iff {numbers : List UInt64} (nonempty : numbers ≠ []) :
    releaseKey numbers < releaseKey (bumpLast numbers) <-> CanBump numbers := by
  induction numbers with
  | nil => exact absurd rfl nonempty
  | cons number rest ih =>
    cases rest with
    | nil =>
      rw [bumpLast]
      refine releaseKey_cons_lt_iff.trans ?_
      have single : CanBump [number] <-> number.toNat < 2 ^ 64 - 1 :=
        ⟨fun fits => fits number rfl, fun small last found => Option.some.inj found ▸ small⟩
      have bounded := number.toNat_lt
      rw [single, UInt64.toNat_add, UInt64.toNat_one]
      simp
      omega
    | cons next rest =>
      rw [bumpLast]
      refine releaseKey_cons_lt_iff.trans ?_
      rw [or_iff_right (Nat.lt_irrefl _), and_iff_right rfl, ih (List.cons_ne_nil _ _)]
      exact Iff.rfl

/-- What the range of a specifier needs to be that of its release: numbers that are bumped do
not overflow, and before a wildcard the version is not above its release. -/
def VersionSpecifier.Representable (spec : VersionSpecifier) : Prop :=
  match spec.operator with
  | .equalStar | .notEqualStar =>
    spec.version.le spec.version.onlyRelease = true /\ CanBump spec.version.release
  | .tildeEqual => CanBump spec.version.release.dropLast
  | _ => True

/-- A version up to its release is below the releases that its release is below. -/
lemma Version.key_le_iff_of_le {version other : Version} (le : version.key <= version.onlyRelease.key)
    (only : other.ReleaseOnly) :
    version.key <= other.key <-> releaseKey version.release <= releaseKey other.release := by
  rcases version.onlyRelease_spec with ⟨ownOnly, release⟩
  constructor
  · intro below
    rw [only.key_eq, key, record_eq] at below
    rcases Prod.Lex.toLex_le_toLex.mp below with earlier | ⟨_, below⟩
    · cases earlier
    · rcases Prod.Lex.toLex_le_toLex.mp below with less | ⟨same, _⟩
      · exact less.le
      · exact same.le
  · intro below
    refine le.trans ((ownOnly.key_le_iff only).mpr ?_)
    rw [release]
    exact below

namespace VersionSpecifier

/-- Numbers agree with every longer list that begins with them. -/
lemma zip_append_self (numbers rest : List UInt64) :
    (numbers.zip (numbers ++ rest)).all (fun (this, other) => this == other) := by
  induction numbers with
  | nil => rfl
  | cons number numbers ih =>
    rw [List.cons_append, List.zip_cons_cons, List.all_cons, ih, Bool.and_true]
    exact beq_self_eq_true number

/-- A range for a wildcard. -/
lemma mem_releaseStar_iff (alg : RangeAlgebra Version Version.cmp) (version : Version) :
    (∀ other : Version, other.ReleaseOnly ->
      (alg.contains (alg.fromRangeBounds (releaseStarSegment version)) other <->
        Accepts .equalStar version.release other.release)) <->
      version.le version.onlyRelease /\ CanBump version.release := by
  have inside : ∀ other : Version, other.ReleaseOnly ->
      (alg.contains (alg.fromRangeBounds (releaseStarSegment version)) other <->
        version.key <= other.key /\ releaseKey other.release < releaseKey (bumpLast version.release)) := by
    intro other only
    rw [releaseStarSegment, alg.contains_halfOpen Version.cmp_orderedBy,
      only.key_lt_iff (Version.new_releaseOnly _ _), Version.release_new]
  have below : version.le version.onlyRelease <-> version.key <= version.onlyRelease.key :=
    Version.cmp_orderedBy.isLE_iff _ _
  rw [below]
  constructor
  · intro exact
    rcases version.onlyRelease_spec with ⟨only, release⟩
    have accepted : Accepts .equalStar version.release version.onlyRelease.release := by
      rw [release]
      exact zip_append_self _ _
    rcases (inside _ only).mp ((exact _ only).mpr accepted) with ⟨least, greater⟩
    rw [release] at greater
    exact ⟨least, (lt_bumpLast_iff version.nonempty).mp greater⟩
  · rintro ⟨least, fits⟩ other only
    rw [inside other only, Version.key_le_iff_of_le least only]
    exact (zip_padRelease_iff version.nonempty fits other.release).symm

/-- The range of a specifier has exactly the releases that the specifier accepts when it is
read by its release. -/
theorem mem_releaseRange_iff (alg : RangeAlgebra Version Version.cmp)
    (spec : VersionSpecifier) (trim : Bool) :
    (∀ version : Version, version.ReleaseOnly ->
      (alg.contains (spec.releaseSpecifierToRange alg trim) version = true <->
        spec.onlyRelease.contains version = true)) <-> spec.Representable := by
  have accepts : ∀ version : Version, version.ReleaseOnly ->
      (spec.onlyRelease.contains version = true <->
        Accepts spec.operator spec.version.release version.release) := by
    intro version only
    rw [contains_iff_accepts _ spec.version.onlyRelease_spec.1 only]
    exact iff_of_eq (congrArg (Accepts _ · _) spec.version.onlyRelease_spec.2)
  have plain : spec.operator ≠ .equalStar -> spec.operator ≠ .notEqualStar ->
      ∀ version : Version, version.ReleaseOnly ->
      (alg.contains (spec.releaseSpecifierToRange alg trim) version = true <->
        InRange spec.operator spec.version.release version.release) :=
    fun noStar noStar' version only => contains_releaseRange_iff spec only alg trim
      fun star => (star.elim noStar noStar').elim
  have star := mem_releaseStar_iff alg spec.version
  refine Iff.trans (forall₂_congr fun version only => iff_congr Iff.rfl (accepts version only)) ?_
  rcases spec with ⟨operator, version, compatible⟩
  cases operator with
  | equalStar => exact star
  | notEqualStar =>
    refine Iff.trans (forall₂_congr fun other only => ?_) star
    change (alg.contains (alg.complement _) other = true <-> ¬ _) <-> _
    rw [alg.contains_complement, Bool.not_eq_true', Bool.eq_false_iff, ne_eq, not_iff_not]
    exact Iff.rfl
  | tildeEqual =>
    have two := compatible rfl
    have prefixLe := releaseKey_dropLast_le version.release
    constructor
    · intro exact
      rcases version.onlyRelease_spec with ⟨only, release⟩
      have accepted : Accepts .tildeEqual version.release version.onlyRelease.release := by
        rw [release, Accepts, <- List.dropLast_eq_take]
        have nonempty : version.release ≠ [] := version.nonempty
        have agrees := zip_append_self version.release.dropLast [version.release.getLast nonempty]
        rw [List.dropLast_concat_getLast] at agrees
        exact ⟨agrees, le_rfl⟩
      have greater := ((plain (by simp) (by simp) _ only).mp ((exact _ only).mpr accepted)).2
      rw [release] at greater
      exact (lt_bumpLast_iff (dropLast_ne_nil two)).mp (prefixLe.trans_lt greater)
    · intro fits other only
      rw [plain (by simp) (by simp) other only, InRange, Accepts, <- List.dropLast_eq_take, and_comm]
      exact and_congr_left fun above => (zip_dropLast_iff two fits above).symm
  | _ => exact iff_of_true (plain (by simp) (by simp)) trivial

/-- `==1!2.*` accepts `2.1` by its release, but its range begins at `1!2` and ends at `3`. -/
theorem mem_releaseRange_epoch :
    ((fromStr takeRun "==1!2.*").toOption.map fun spec =>
      (spec.onlyRelease.contains (.new [2, 1] (List.cons_ne_nil _ _)),
        Version.cutSets.contains (spec.releaseSpecifierToRange Version.cutSets false)
          (.new [2, 1] (List.cons_ne_nil _ _)))) = some (true, false) := by
  decide +kernel

end VersionSpecifier

end Uv.Pep440
