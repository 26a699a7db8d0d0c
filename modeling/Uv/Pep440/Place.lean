import Uv.Pep440.Parsed

namespace Uv.Pep440

open Library

/-!
# The order of versions in three parts

A version is compared by its epoch and release, then by the place of its
suffixes, and last by its local part.  Places are four natural numbers in
lexicographic order, so a question about suffixes is one about numbers.  What is
compared before the local part is the public key: a version without a local part
is the least one of its public version, and a "max" local part is above all.
-/

lemma succ_toNat {number : UInt64} (fits : number.toNat < 2 ^ 64 - 1) :
    (number + 1).toNat = number.toNat + 1 := by
  rw [UInt64.toNat_add, UInt64.toNat_one]
  omega

abbrev Place := Nat ×ₗ Nat ×ₗ Nat ×ₗ Nat

abbrev BaseKey := Nat ×ₗ ReleaseKey

abbrev PublicKey := BaseKey ×ₗ Place

def Place.of (stage number post dev : Nat) : Place :=
  toLex (stage, toLex (number, toLex (post, dev)))

variable {stage number post dev stage' number' post' dev' : Nat}

lemma Place.lt_iff :
    Place.of stage number post dev < Place.of stage' number' post' dev' <->
      stage < stage' \/ stage = stage' /\ (number < number' \/ number = number' /\
        (post < post' \/ post = post' /\ dev < dev')) := by
  simp only [of, Prod.Lex.toLex_lt_toLex]

lemma Place.eq_iff :
    Place.of stage number post dev = Place.of stage' number' post' dev' <->
      stage = stage' /\ number = number' /\ post = post' /\ dev = dev' := by
  simp only [of, toLex_inj, Prod.mk.injEq]

open Place

/-- A missing post number comes first. -/
def postRank : Option UInt64 -> Nat
  | none => 0
  | some number => number.toNat + 1

/-- A missing dev number comes last. -/
def devRank (dev : Option UInt64) : Nat := (dev.getD u64Max).toNat

lemma compareOption_orderedBy_postRank : OrderedBy compareOption postRank := by
  apply OrderedBy.of_compares
  intro left right
  cases left with
  | none =>
    cases right with
    | none => exact rfl
    | some right => exact Nat.succ_pos right.toNat
  | some left =>
    cases right with
    | none => exact Nat.succ_pos left.toNat
    | some right =>
      have given := u64_orderedBy.compares left right
      change (compare left right).Compares _ _
      generalize compare left right = outcome at given ⊢
      cases outcome with
      | lt => exact Nat.succ_lt_succ given
      | eq => exact congrArg Nat.succ given
      | gt => exact Nat.succ_lt_succ given

def SortableTuple.place (tuple : SortableTuple) : Place :=
  Place.of tuple.stage.toNat tuple.preNumber.toNat (postRank tuple.post) tuple.dev.toNat

lemma sortableTupleWith_localVersion (version : VersionInner) (post dev : Option UInt64) :
    (sortableTupleWith version post dev).localVersion = version.localVersion := by
  unfold sortableTupleWith
  simp only
  split <;> rfl

variable (left right : SortableTuple)

/-- The comparison of two tuples up to their local parts. -/
def SortableTuple.comparePlace : Ordering :=
  (compare left.stage right.stage).then <|
    (compare left.preNumber right.preNumber).then <|
      (compareOption left.post right.post).then (compare left.dev right.dev)

lemma SortableTuple.comparePlace_orderedBy :
    OrderedBy SortableTuple.comparePlace SortableTuple.place :=
  (u64_orderedBy.comap SortableTuple.stage).lex <|
    (u64_orderedBy.comap SortableTuple.preNumber).lex <|
      (compareOption_orderedBy_postRank.comap SortableTuple.post).lex <|
        u64_orderedBy.comap SortableTuple.dev

lemma SortableTuple.cmp_eq_comparePlace :
    left.cmp right =
      (left.comparePlace right).then (left.localVersion.cmp right.localVersion) := by
  simp only [SortableTuple.cmp, SortableTuple.comparePlace, Ordering.then_assoc]

namespace Version

variable (version : Version)

def base : BaseKey :=
  toLex (version.epoch.toNat, releaseKey version.release)

def place (version : Version) : Place := (sortableTuple version.inner).place

def publicKey : PublicKey := toLex (version.base, version.place)

def localKey : LocalKey := version.localVersion.key

/-- The public key, followed by the local part. -/
def splitKey : PublicKey ×ₗ LocalKey :=
  toLex (version.publicKey, version.localKey)

lemma cmp_orderedBy_splitKey : OrderedBy cmp splitKey := by
  have parts := (((u64_orderedBy.comap epoch).lex (compareRelease_orderedBy.comap release)).lex
    (SortableTuple.comparePlace_orderedBy.comap fun version : Version =>
      sortableTuple version.inner)).lex (LocalVersion.cmp_orderedBy.comap localVersion)
  intro this other
  refine Eq.trans ?_ (parts this other)
  rw [cmp, VersionInner.cmp_eq_cmpSlow this.packed other.packed, VersionInner.cmpSlow_eq_then,
    SortableTuple.cmp_eq_comparePlace, sortableTuple, sortableTuple,
    sortableTupleWith_localVersion, sortableTupleWith_localVersion]
  simp only [Ordering.then_assoc]
  rfl

/-! ## Places of suffixes -/

end Version

/-- The stage of a pre-release, between a dev-release and the final one. -/
def preStage : PrereleaseKind -> Nat
  | .alpha => 2
  | .beta => 3
  | .rc => 4

/-- The place of a version that has neither a "min" nor a "max" mark. -/
def placeOf : Option Prerelease -> Option UInt64 -> Option UInt64 -> Place
  | none, none, some dev => Place.of 1 0 0 dev.toNat
  | some pre, post, dev =>
    Place.of (preStage pre.kind) pre.number.toNat (postRank post) (devRank dev)
  | none, none, none => Place.of 5 0 0 0
  | none, some post, dev => Place.of 6 0 (postRank (some post)) (devRank dev)

lemma devRank_none : devRank none = 2 ^ 64 - 1 := rfl

lemma devRank_some (number : UInt64) : devRank (some number) = number.toNat := rfl

lemma postRank_none : postRank none = 0 := rfl

lemma postRank_some (number : UInt64) : postRank (some number) = number.toNat + 1 := rfl

lemma preStage_bounds (kind : PrereleaseKind) : 2 <= preStage kind /\ preStage kind <= 4 := by
  cases kind <;> decide

section

variable {pre : Option Prerelease} {post dev : Option UInt64}

/-- The first dev-release is below all other versions of its release. -/
lemma devZero_le_placeOf : Place.of 1 0 0 0 <= placeOf pre post dev := by
  rw [<- not_lt]
  cases pre with
  | some pre =>
    have stages := preStage_bounds pre.kind
    rw [placeOf, lt_iff]
    omega
  | none =>
    cases post with
    | some post =>
      rw [placeOf, lt_iff]
      omega
    | none =>
      cases dev with
      | some dev | none =>
        rw [placeOf, lt_iff]
        omega

/-- What comes before the final release is a pre-release or a dev-release. -/
lemma prerelease_of_lt_final (before : placeOf pre post dev < Place.of 5 0 0 0) :
    pre.isSome \/ dev.isSome := by
  cases pre with
  | some pre => exact .inl rfl
  | none =>
    cases dev with
    | some dev => exact .inr rfl
    | none =>
      cases post with
      | none => exact absurd before (lt_irrefl _)
      | some post =>
        rw [placeOf, lt_iff] at before
        omega

/-- Between the first dev-release of a post-release and the post-release itself
there are dev-releases only. -/
lemma dev_of_lt_post {number : Nat} (above : Place.of 6 0 number 0 <= placeOf pre post dev)
    (below : placeOf pre post dev < Place.of 6 0 number (2 ^ 64 - 1)) : dev.isSome := by
  rw [<- not_lt] at above
  cases dev with
  | some dev => rfl
  | none =>
    cases pre with
    | some pre =>
      have stages := preStage_bounds pre.kind
      rw [placeOf, lt_iff] at above
      omega
    | none =>
      cases post with
      | none =>
        rw [placeOf, lt_iff] at above
        omega
      | some post =>
        rw [placeOf, lt_iff] at above below
        rw [devRank_none] at below
        omega

/-- The place of a dev-release depends on its number in the last component only. -/
lemma placeOf_dev (pre : Option Prerelease) (post : Option UInt64) :
    ∃ stage number rank, ∀ dev : UInt64,
      placeOf pre post (some dev) = Place.of stage number rank dev.toNat := by
  cases pre with
  | some pre => exact ⟨_, _, _, fun dev => rfl⟩
  | none =>
    cases post with
    | some post => exact ⟨_, _, _, fun dev => rfl⟩
    | none => exact ⟨_, _, _, fun dev => rfl⟩

lemma placeOf_dev_lt_iff {number : UInt64} (fits : number.toNat < 2 ^ 64 - 1) (place : Place) :
    placeOf pre post (some number) < place <-> placeOf pre post (some (number + 1)) <= place := by
  rcases placeOf_dev pre post with ⟨stage, first, rank, shape⟩
  rcases place with ⟨stage', first', rank', last'⟩
  change _ < of stage' first' rank' last' <-> _ <= of stage' first' rank' last'
  rw [shape, shape, succ_toNat fits, <- not_lt, lt_iff, lt_iff]
  omega

/-- A version without post and dev numbers is no dev-release. -/
lemma placeOf_ne_dev {pre' : Option Prerelease} {number : UInt64}
    (fits : number.toNat < 2 ^ 64 - 1) :
    placeOf pre none none ≠ placeOf pre' none (some number) := by
  intro same
  cases pre with
  | some pre =>
    have stages := preStage_bounds pre.kind
    cases pre' with
    | none =>
      rw [placeOf, placeOf, eq_iff] at same
      omega
    | some pre' =>
      rw [placeOf, placeOf, eq_iff, devRank_none, devRank_some] at same
      omega
  | none =>
    cases pre' with
    | none =>
      rw [placeOf, placeOf, eq_iff] at same
      omega
    | some pre' =>
      have stages := preStage_bounds pre'.kind
      rw [placeOf, placeOf, eq_iff] at same
      omega

variable {own : Option Prerelease}

/-- No version that can be written down has the place of a "max" mark. -/
lemma placeOf_max_ne (fits : ∀ number, post = some number -> number.toNat < 2 ^ 64 - 1) :
    placeOf own (some u64Max) none ≠ placeOf pre post dev := by
  have largest : postRank (some u64Max) = 2 ^ 64 := rfl
  intro same
  cases post with
  | some number =>
    have bound := fits number rfl
    cases own <;> cases pre <;>
      (rw [placeOf, placeOf, eq_iff, largest, postRank_some] at same; omega)
  | none =>
    cases own with
    | some own =>
      cases pre with
      | some pre =>
        rw [placeOf, placeOf, eq_iff, largest, postRank_none] at same
        omega
      | none =>
        cases dev <;> (rw [placeOf, placeOf, eq_iff] at same; omega)
    | none =>
      cases pre with
      | some pre =>
        have stages := preStage_bounds pre.kind
        rw [placeOf, placeOf, eq_iff] at same
        omega
      | none =>
        cases dev <;> (rw [placeOf, placeOf, eq_iff] at same; omega)

/-- Above a "max" mark are the versions that come later and are no post-releases
of the marked version. -/
lemma placeOf_max_lt_iff (fits : ∀ number, post = some number -> number.toNat < 2 ^ 64 - 1) :
    placeOf own (some u64Max) none < placeOf pre post dev <->
      placeOf own none none < placeOf pre post dev /\
        ¬ (post.isSome /\ placeOf pre none none = placeOf own none none) := by
  have largest : postRank (some u64Max) = 2 ^ 64 := rfl
  have last : devRank dev <= 2 ^ 64 - 1 := by
    have bound := (dev.getD u64Max).toNat_lt
    unfold devRank
    omega
  have ranked : postRank post < 2 ^ 64 := by
    cases post with
    | none => decide
    | some number =>
      have bound := fits number rfl
      rw [postRank_some]
      omega
  have postless : post.isSome <-> 0 < postRank post := by
    cases post with
    | none => simp [postRank_none]
    | some number => simp [postRank_some]
  rw [postless]
  cases own with
  | some own =>
    have ownStages := preStage_bounds own.kind
    cases pre with
    | some pre =>
      simp only [placeOf, lt_iff, eq_iff, largest, devRank_none, postRank_none, and_true]
      omega
    | none =>
      cases post with
      | some post =>
        simp only [placeOf, lt_iff, eq_iff]
        omega
      | none =>
        cases dev with
        | some dev | none =>
          simp only [placeOf, lt_iff, eq_iff, postRank_none]
          omega
  | none =>
    cases pre with
    | some pre =>
      have stages := preStage_bounds pre.kind
      simp only [placeOf, lt_iff, eq_iff]
      omega
    | none =>
      cases post with
      | some post =>
        rw [postRank_some] at ranked
        simp only [placeOf, lt_iff, largest, postRank_some, true_and, and_true]
        omega
      | none =>
        cases dev with
        | some dev | none =>
          simp only [placeOf, lt_iff, postRank_none]
          omega

end

/-- The place of any version.  A "min" mark puts it below all its suffixes, and a
"max" mark counts as a post-release above all others. -/
def markedPlace (pre : Option Prerelease) (post dev min max : Option UInt64) : Place :=
  let post := if max.isSome then some u64Max else post
  match min with
  | some value => Place.of 0 0 (postRank post) value.toNat
  | none => placeOf pre post dev

lemma sortableTupleWith_place (version : VersionInner) (post dev : Option UInt64) :
    (sortableTupleWith version post dev).place =
      markedPlace version.pre post dev version.min version.max := by
  unfold sortableTupleWith markedPlace
  simp only
  generalize (if version.max.isSome then some u64Max else post) = post
  cases version.min with
  | some value => rfl
  | none =>
    cases version.pre with
    | some pre =>
      rcases pre with ⟨kind, number⟩
      cases kind <;> rfl
    | none =>
      cases post with
      | some post => rfl
      | none => cases dev <;> rfl

namespace Version

lemma place_eq (version : Version) :
    version.place =
      markedPlace version.pre version.post version.dev version.min version.max :=
  sortableTupleWith_place version.inner version.post version.dev

variable {version : Version}

lemma Parsed.place_eq {bound : Nat} (parsed : version.Parsed bound) :
    version.place = placeOf version.pre version.post version.dev := by
  rw [Version.place_eq, parsed.min, parsed.max]
  rfl

lemma base_record (version : Version) :
    version.base = toLex (version.record.epoch.toNat, releaseKey version.record.release) := by
  rw [record_epoch, record_release, base]

lemma place_record (version : Version) :
    version.place = markedPlace version.record.pre version.record.post version.record.dev
      version.record.min version.record.max := by
  rw [place_eq, record_pre, record_post, record_dev, record_min, record_max]

lemma publicKey_eq_of_record {other : Version} {changed : LocalVersion}
    (same : version.record = { other.record with localVersion := changed }) :
    version.publicKey = other.publicKey := by
  rw [publicKey, publicKey, base_record, base_record, place_record, place_record, same]

lemma publicKey_lt_iff (version other : Version) : version.publicKey < other.publicKey <->
    version.base < other.base \/ version.base = other.base /\ version.place < other.place :=
  Prod.Lex.toLex_lt_toLex

lemma publicKey_le_iff (version other : Version) : version.publicKey <= other.publicKey <->
    version.base < other.base \/ version.base = other.base /\ version.place <= other.place :=
  Prod.Lex.toLex_le_toLex

@[simp] lemma publicKey_withLocal (version : Version) (value : LocalVersion) :
    (version.withLocal value).publicKey = version.publicKey :=
  publicKey_eq_of_record (record_withLocal version value)

@[simp] lemma base_withDev (version : Version) (value : Option UInt64) :
    (version.withDev value).base = version.base := by
  rw [base_record, base_record, record_withDev]

@[simp] lemma base_withMin (version : Version) (value : Option UInt64)
    (bound : BoundValue value) : (version.withMin value bound).base = version.base := by
  rw [base_record, base_record, record_withMin]

@[simp] lemma base_withMax (version : Version) (value : Option UInt64)
    (bound : BoundValue value) : (version.withMax value bound).base = version.base := by
  rw [base_record, base_record, record_withMax]

section

variable {bound : Nat} {version : Version} (parsed : version.Parsed bound)
include parsed

lemma Parsed.place_withDev (value : Option UInt64) :
    (version.withDev value).place = placeOf version.pre version.post value := by
  simp only [place_record, record_withDev, record_pre, record_post, record_min, record_max,
    parsed.min, parsed.max]
  rfl

lemma Parsed.place_withMin (value : UInt64) (zero : BoundValue (some value)) :
    (version.withMin (some value) zero).place =
      Place.of 0 0 (postRank version.post) value.toNat := by
  simp only [place_record, record_withMin, record_pre, record_post, record_dev, record_max,
    parsed.max]
  rfl

lemma Parsed.place_withMax (value : UInt64) (zero : BoundValue (some value)) :
    (version.withMax (some value) zero).place =
      placeOf version.pre (some u64Max) version.dev := by
  simp only [place_record, record_withMax, record_pre, record_post, record_dev, record_min,
    parsed.min]
  rfl

end

/-! ## Local parts -/

lemma empty_le_localKey (key : LocalKey) : LocalVersion.empty.key <= key := by
  induction key using WithTop.recTopCoe with
  | top => exact le_top
  | coe list => exact WithTop.coe_le_coe.mpr (not_lt.mp (List.not_lt_nil list))

lemma Parsed.localKey_lt_top {bound : Nat} (parsed : version.Parsed bound) :
    version.localKey < LocalVersion.max.key := by
  rcases parsed.localVersion with ⟨segments, same⟩
  rw [localKey, same]
  exact WithTop.coe_lt_top _

section

variable {this version : Version}

/-- A version without a local part is the least one of its public version. -/
lemma splitKey_le_iff (noLocal : this.localVersion = .empty) :
    this.splitKey <= version.splitKey <-> this.publicKey <= version.publicKey := by
  have least : this.localKey <= version.localKey := by
    unfold localKey
    rw [noLocal]
    exact empty_le_localKey _
  rw [splitKey, splitKey, Prod.Lex.toLex_le_toLex, and_iff_left least]
  exact le_iff_lt_or_eq.symm

lemma lt_splitKey_iff (noLocal : this.localVersion = .empty) :
    version.splitKey < this.splitKey <-> version.publicKey < this.publicKey := by
  rw [<- not_le, splitKey_le_iff noLocal, not_le]

/-- A version with the "max" local part is the greatest one of its public version. -/
lemma le_splitKey_iff (greatest : this.localVersion = .max) :
    version.splitKey <= this.splitKey <-> version.publicKey <= this.publicKey := by
  have above : version.localKey <= this.localKey := by
    unfold localKey
    rw [greatest]
    exact le_top
  rw [splitKey, splitKey, Prod.Lex.toLex_le_toLex, and_iff_left above]
  exact le_iff_lt_or_eq.symm

lemma splitKey_lt_iff (greatest : this.localVersion = .max) :
    this.splitKey < version.splitKey <-> this.publicKey < version.publicKey := by
  rw [<- not_le, le_splitKey_iff greatest, not_le]

end

end Version

end Uv.Pep440
