import Uv.Library.Interval
import Uv.Pep440.Place
import Uv.Pep440.Specifier

namespace Uv.Pep440

open Library List

/-!
# Specifiers as sets of intervals

The resolver turns a specifier into an interval set over the order of versions.
Where the standard excludes or includes a group of versions, the bound is an
artificial version: a "min" or "max" mark, or a "max" local part.  The interval
sets come from another crate and are a parameter.
-/

/-- The numbers of a release with one added to the last of them. -/
def bumpLast : List UInt64 -> List UInt64
  | [] => []
  | [last] => [last + 1]
  | number :: next :: rest => number :: bumpLast (next :: rest)

variable {numbers : List UInt64}

lemma bumpLast_ne_nil (nonempty : numbers ≠ []) :
    bumpLast numbers ≠ [] := by
  cases numbers with
  | nil => exact absurd rfl nonempty
  | cons number rest => cases rest <;> exact cons_ne_nil _ _

lemma bumpLast_release_ne_nil (version : Version) : bumpLast version.release ≠ [] :=
  bumpLast_ne_nil version.nonempty

lemma dropLast_ne_nil (two : 2 <= numbers.length) :
    numbers.dropLast ≠ [] := by
  intro empty
  have length := congrArg length empty
  rw [length_dropLast, length_nil] at length
  omega

namespace VersionSpecifier

/-- The upper end of `~=`: the release without its last number, bumped. -/
def compatibleUpper (version : Version) (two : 2 <= version.release.length) : Version :=
  ((Version.new (bumpLast version.release.dropLast) (bumpLast_ne_nil (dropLast_ne_nil two))).withEpoch
    version.epoch).withDev (some 0)

/-- The upper end of `==V.*`, from its lower end. -/
def starUpper (low : Version) : Version :=
  match low.post with
  | some post => low.withPost (some (post + 1))
  | none =>
    match low.pre with
    | some pre => low.withPre (some { kind := pre.kind, number := pre.number + 1 })
    | none => low.withRelease (bumpLast low.release) (bumpLast_release_ne_nil low)

def starSegment (version : Version) : Segment Version :=
  let low := version.withDev (some 0)
  ⟨.included low, .excluded (starUpper low)⟩

section

variable (alg : RangeAlgebra Version Version.cmp) (version : Version)

/-- A "max" local part is not expected here; the source panics. -/
def equalRanges : Option alg.Ranges :=
  match version.localVersion with
  | .segments [] => some (alg.between version (version.withLocal .max))
  | .segments (_ :: _) => some (alg.singleton version)
  | .max => none

def lessThanRanges : alg.Ranges :=
  if version.anyPrerelease then alg.strictlyLowerThan version
  else if version.isPost then alg.strictlyLowerThan (version.withDev (some 0))
  else alg.strictlyLowerThan (version.withMin (some 0) .zero)

def greaterThanRanges : alg.Ranges :=
  match version.dev with
  | some dev => alg.higherThan (version.withDev (some (dev + 1)))
  | none =>
    if version.isPost then alg.strictlyHigherThan (version.withLocal .max)
    else alg.strictlyHigherThan (version.withMax (some 0) .zero)

/-- The interval set of a specifier, unless the conversion panics. -/
def toRanges (spec : VersionSpecifier) : Option alg.Ranges :=
  let version := spec.version
  match shape : spec.operator with
  | .equal => equalRanges alg version
  | .exactEqual => some (alg.singleton version)
  | .notEqual => (equalRanges alg version).map alg.complement
  | .tildeEqual =>
    some (alg.fromRangeBounds
      ⟨.included version, .excluded (compatibleUpper version (spec.compatible shape))⟩)
  | .lessThan => some (lessThanRanges alg version)
  | .lessThanEqual => some (alg.lowerThan (version.withLocal .max))
  | .greaterThan => some (greaterThanRanges alg version)
  | .greaterThanEqual => some (alg.higherThan version)
  | .equalStar => some (alg.fromRangeBounds (starSegment version))
  | .notEqualStar =>
    some (alg.complement (alg.fromRangeBounds (starSegment version)))

end

end VersionSpecifier

/-- The loop over a list of specifiers, which intersects their ranges. -/
def VersionSpecifiers.toRanges (alg : RangeAlgebra Version Version.cmp)
    (list : VersionSpecifiers) : Option alg.Ranges :=
  list.specifiers.foldlM
    (fun range spec => (spec.toRanges alg).map (alg.intersection range))
    alg.full

/-! ## Releases between a prefix and the next one -/

variable (release : List UInt64)

lemma releaseKey_nil_le : releaseKey [] <= releaseKey release := by
  rw [<- not_lt]
  rintro ⟨index, _, differs⟩
  cases differs

lemma releaseKey_cons_le_iff {head head' : UInt64} {tail tail' : List UInt64} :
    releaseKey (head :: tail) <= releaseKey (head' :: tail') <->
      head.toNat < head'.toNat \/ head.toNat = head'.toNat /\ releaseKey tail <= releaseKey tail' := by
  rw [<- not_lt, <- not_lt]
  refine (not_congr releaseKey_cons_lt_iff).trans ?_
  rw [not_or, not_and]
  constructor
  · rintro ⟨notLess, tails⟩
    rcases Nat.lt_or_eq_of_le (Nat.not_lt.mp notLess) with less | same
    · exact .inl less
    · exact .inr ⟨same, tails same.symm⟩
  · rintro (less | ⟨same, tails⟩)
    · exact ⟨Nat.not_lt.mpr less.le, fun same => absurd same.symm less.ne⟩
    · exact ⟨Nat.not_lt.mpr same.le, fun _ => tails⟩

lemma releaseKey_zero : releaseKey [0] = releaseKey [] := by
  unfold releaseKey
  congr 1
  funext index
  cases index <;> rfl

lemma releaseKey_cons_le_nil_iff {head : UInt64} {tail : List UInt64} :
    releaseKey (head :: tail) <= releaseKey [] <->
      head.toNat = 0 /\ releaseKey tail <= releaseKey [] := by
  rw [<- releaseKey_zero, releaseKey_cons_le_iff, releaseKey_zero]
  simp

variable (initial : List UInt64)

/-- A release agrees with a prefix, up to its length, exactly when it lies between
the prefix and the prefix with its last number bumped. -/
lemma zip_all_iff_between :
    ∀ release : List UInt64, initial ≠ [] ->
      (∀ last, initial.getLast? = some last -> last.toNat < 2 ^ 64 - 1) ->
      initial.length <= release.length ->
      ((initial.zip release).all (fun (this, other) => this == other) <->
        releaseKey initial <= releaseKey release /\
          releaseKey release < releaseKey (bumpLast initial)) := by
  induction initial with
  | nil => exact fun release nonempty => absurd rfl nonempty
  | cons number rest ih =>
    intro release _ fits long
    cases release with
    | nil => cases long
    | cons number' rest' =>
      rw [zip_cons_cons, all_cons, Bool.and_eq_true, beq_iff_eq,
        <- UInt64.toNat_inj, releaseKey_cons_le_iff]
      cases rest with
      | nil =>
        have bumped := succ_toNat (fits number rfl)
        have least := releaseKey_nil_le rest'
        have notLess := not_lt.mpr least
        rw [bumpLast]
        refine Iff.trans ?_ (and_congr_right' releaseKey_cons_lt_iff.symm)
        rw [bumped, zip_nil_left, all_nil]
        grind
      | cons next rest =>
        have tails := ih rest' (cons_ne_nil _ _) fits (Nat.le_of_succ_le_succ long)
        rw [bumpLast, tails]
        refine Iff.trans ?_ (and_congr_right' releaseKey_cons_lt_iff.symm)
        grind

lemma releaseKey_dropLast_le :
    releaseKey release.dropLast <= releaseKey release := by
  induction release with
  | nil => exact le_rfl
  | cons number rest ih =>
    cases rest with
    | nil => exact releaseKey_nil_le [number]
    | cons next rest =>
      rw [dropLast_cons_cons, releaseKey_cons_le_iff]
      exact .inr ⟨rfl, ih⟩

/-- Above the prefix, zeros after the end of the release make no difference. -/
lemma zip_all_padRelease :
    ∀ release : List UInt64, releaseKey initial <= releaseKey release ->
      (initial.zip release).all (fun (this, other) => this == other) =
        (initial.zip (padRelease release initial.length)).all
          (fun (this, other) => this == other) := by
  induction initial with
  | nil => exact fun release _ => rfl
  | cons number rest ih =>
    intro release le
    cases release with
    | nil =>
      rw [releaseKey_cons_le_nil_iff] at le
      have zero : number = 0 := UInt64.toNat_inj.mp le.1
      have tails := ih [] le.2
      simp only [padRelease, zip_nil_right, all_nil, nil_append, length_nil,
        Nat.sub_zero, length_cons, replicate_succ, zip_cons_cons,
        all_cons, zero, beq_self_eq_true, Bool.true_and] at tails ⊢
      exact tails
    | cons number' rest' =>
      have padded : padRelease (number' :: rest') (number :: rest).length =
          number' :: padRelease rest' rest.length := by
        simp only [padRelease, length_cons, Nat.add_sub_add_right, cons_append]
      rw [padded, zip_cons_cons, zip_cons_cons, all_cons, all_cons]
      rw [releaseKey_cons_le_iff] at le
      rcases le with less | ⟨_, tails⟩
      · have different : (number == number') = false := by
          rw [beq_eq_false_iff_ne]
          rintro rfl
          exact Nat.lt_irrefl _ less
        simp only [different, Bool.false_and]
      · rw [ih rest' tails]

lemma length_le_padRelease (length : Nat) :
    length <= (padRelease release length).length := by
  rw [padRelease, length_append, length_replicate]
  omega

section

variable {this : List UInt64}

/-- The releases that a wildcard behind the numbers stands for. -/
lemma zip_padRelease_iff (nonempty : this ≠ [])
    (fits : ∀ last, this.getLast? = some last -> last.toNat < 2 ^ 64 - 1) (other : List UInt64) :
    (this.zip (padRelease other this.length)).all (fun (this, other) => this == other) <->
      releaseKey this <= releaseKey other /\ releaseKey other < releaseKey (bumpLast this) := by
  rw [zip_all_iff_between _ _ nonempty fits (length_le_padRelease _ _), releaseKey_padRelease]

/-- Once a release is not below the other one, the unpadded comparison is the padded one. -/
lemma zip_dropLast_iff (two : 2 <= this.length)
    (fits : ∀ last, this.dropLast.getLast? = some last -> last.toNat < 2 ^ 64 - 1)
    {other : List UInt64} (above : releaseKey this <= releaseKey other) :
    (this.dropLast.zip other).all (fun (this, other) => this == other) <->
      releaseKey other < releaseKey (bumpLast this.dropLast) := by
  have prefixAbove := (releaseKey_dropLast_le this).trans above
  rw [zip_all_padRelease _ _ prefixAbove, zip_padRelease_iff (dropLast_ne_nil two) fits,
    and_iff_right prefixAbove]

end

end Uv.Pep440
