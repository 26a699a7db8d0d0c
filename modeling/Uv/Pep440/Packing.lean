import Uv.Library.Word
import Uv.Pep440.Version

namespace Uv.Pep440

open Library Word

/-!
# The packing invariant

The packed word is read as a number in mixed radix: sixteen bits for the first
release number, eight for each of the next three, four for the suffix kind and
twenty for the suffix number.  The setters change one of these digits and keep
the others.  `VersionSmall.Packed` says which words the setters produce, and the
lemmas below give the digits of the word after each setter.
-/

namespace VersionSmall

/-- The words that the setters produce.  A release number beyond the stored
length is zero, and only dev, pre- and post-release suffixes have a number. -/
structure Packed (small : VersionSmall) : Prop where
  len_le : small.len <= 4
  kind_le : small.suffixKind <= suffixMax
  first_unused : small.len <= 0 -> Word.field small.repr 48 16 = 0
  second_unused : small.len <= 1 -> Word.field small.repr 40 8 = 0
  third_unused : small.len <= 2 -> Word.field small.repr 32 8 = 0
  fourth_unused : small.len <= 3 -> Word.field small.repr 24 8 = 0
  bare : small.suffixKind = suffixMin \/ small.suffixKind = suffixNone \/
    small.suffixKind = suffixLocal \/ small.suffixKind = suffixMax -> small.suffixVersion = 0

/-! ## Digits -/

variable (small : VersionSmall)

lemma suffixKind_toNat :
    small.suffixKind.toNat = small.repr.toNat / 2 ^ 20 % 2 ^ 4 :=
  shiftRight_and_mask _ _ _ 20 4 rfl (by decide) rfl

lemma suffixVersion_toNat :
    small.suffixVersion.toNat = small.repr.toNat % 2 ^ 20 := by
  have masked := and_mask small.repr suffixVersionMask 20 rfl
  rw [field, Nat.pow_zero, Nat.div_one] at masked
  exact masked

variable (word : UInt64)

lemma first_toNat :
    ((word >>> 48) &&& 0xFFFF).toNat = word.toNat / 2 ^ 48 % 2 ^ 16 :=
  shiftRight_and_mask _ _ _ 48 16 rfl (by decide) rfl

lemma second_toNat :
    ((word >>> 40) &&& 0xFF).toNat = word.toNat / 2 ^ 40 % 2 ^ 8 :=
  shiftRight_and_mask _ _ _ 40 8 rfl (by decide) rfl

lemma third_toNat :
    ((word >>> 32) &&& 0xFF).toNat = word.toNat / 2 ^ 32 % 2 ^ 8 :=
  shiftRight_and_mask _ _ _ 32 8 rfl (by decide) rfl

lemma fourth_toNat :
    ((word >>> 24) &&& 0xFF).toNat = word.toNat / 2 ^ 24 % 2 ^ 8 :=
  shiftRight_and_mask _ _ _ 24 8 rfl (by decide) rfl

/-! ## Digits after a setter -/

lemma suffixNumber_lt {value : UInt64} (fits : value <= suffixVersionMask) :
    value.toNat < 2 ^ 20 :=
  Nat.lt_succ_of_le (UInt64.le_iff_toNat_le.mp fits)

lemma suffixKind_lt {kind : UInt64} (fits : kind <= suffixMax) : kind.toNat < 2 ^ 4 :=
  Nat.lt_of_le_of_lt (UInt64.le_iff_toNat_le.mp fits) (by decide)

lemma setSuffixVersion_toNat (value : UInt64) (fits : value <= suffixVersionMask) :
    (small.setSuffixVersion value).repr.toNat =
      2 ^ 20 * (small.repr.toNat / 2 ^ 20) + value.toNat := by
  have valueLt := suffixNumber_lt fits
  have cleared := and_not_mask small.repr suffixVersionMask 0 20 (by decide) rfl
  have empty : field (small.repr &&& ~~~suffixVersionMask) 0 20 = 0 := by
    unfold field
    omega
  have filled := or_shiftLeft _ value 0 0 20 rfl (by decide) (by decide) valueLt empty
  rw [UInt64.shiftLeft_zero] at filled
  change ((small.repr &&& ~~~suffixVersionMask) ||| value).toNat = _
  omega

lemma setSuffixKind_toNat (kind : UInt64) (fits : kind <= suffixMax) :
    (small.setSuffixKind kind).repr.toNat =
      2 ^ 24 * (small.repr.toNat / 2 ^ 24) + kind.toNat * 2 ^ 20 +
        if kind = suffixNone \/ kind = suffixLocal then 0 else small.repr.toNat % 2 ^ 20 := by
  have kindLt := suffixKind_lt fits
  have cleared := and_not_mask small.repr (suffixKindMask <<< suffixVersionBitLen) 20 4
    (by decide) rfl
  have empty : field (small.repr &&& ~~~(suffixKindMask <<< suffixVersionBitLen)) 20 4 = 0 := by
    unfold field
    omega
  have filled := or_shiftLeft _ kind suffixVersionBitLen 20 4 rfl (by decide) (by decide)
    kindLt empty
  unfold setSuffixKind
  by_cases bare : kind = suffixNone \/ kind = suffixLocal
  · rw [if_pos bare, if_pos (by simpa using bare),
      setSuffixVersion_toNat _ 0 (by decide)]
    change 2 ^ 20 * (UInt64.toNat (_ ||| _) / 2 ^ 20) + 0 = _
    omega
  · rw [if_neg bare, if_neg (by simpa using bare)]
    change UInt64.toNat (_ ||| _) = _
    omega

lemma clearRelease_toNat :
    small.clearRelease.repr.toNat = small.repr.toNat % 2 ^ 24 := by
  have cleared := and_not_mask small.repr suffixReleaseMask 24 40 (by decide) rfl
  have bound := small.repr.toNat_lt
  change (small.repr &&& ~~~suffixReleaseMask).toNat = _
  omega

/-! ## Suffix updates

A suffix setter leaves the bits above the suffix alone, so the release numbers
and the unused part of the word stay as they were. -/

/-- Two words agree on the release part. -/
def SameRelease (small changed : VersionSmall) : Prop :=
  changed.len = small.len /\ changed.repr.toNat / 2 ^ 24 = small.repr.toNat / 2 ^ 24

variable {small changed : VersionSmall}

lemma SameRelease.release_eq (same : SameRelease small changed) :
    changed.release = small.release := by
  obtain ⟨sameLen, sameHigh⟩ := same
  have first : (changed.repr >>> 48) &&& (0xFFFF : UInt64) = (small.repr >>> 48) &&& 0xFFFF := by
    apply UInt64.toNat_inj.mp
    rw [first_toNat, first_toNat]
    omega
  have second : (changed.repr >>> 40) &&& (0xFF : UInt64) = (small.repr >>> 40) &&& 0xFF := by
    apply UInt64.toNat_inj.mp
    rw [second_toNat, second_toNat]
    omega
  have third : (changed.repr >>> 32) &&& (0xFF : UInt64) = (small.repr >>> 32) &&& 0xFF := by
    apply UInt64.toNat_inj.mp
    rw [third_toNat, third_toNat]
    omega
  have fourth : (changed.repr >>> 24) &&& (0xFF : UInt64) = (small.repr >>> 24) &&& 0xFF := by
    apply UInt64.toNat_inj.mp
    rw [fourth_toNat, fourth_toNat]
    omega
  unfold release
  rw [first, second, third, fourth, sameLen]

lemma SameRelease.packed (same : SameRelease small changed)
    (packed : small.Packed) (kind_le : changed.suffixKind <= suffixMax)
    (bare : changed.suffixKind = suffixMin \/ changed.suffixKind = suffixNone \/
      changed.suffixKind = suffixLocal \/ changed.suffixKind = suffixMax ->
      changed.suffixVersion = 0) : changed.Packed := by
  obtain ⟨sameLen, sameHigh⟩ := same
  have high (offset width : Nat) (above : 24 <= offset) :
      field changed.repr offset width = field small.repr offset width := by
    have split : 2 ^ offset = 2 ^ 24 * 2 ^ (offset - 24) := by
      rw [<- Nat.pow_add, Nat.add_sub_cancel' above]
    unfold field
    rw [split, <- Nat.div_div_eq_div_mul, <- Nat.div_div_eq_div_mul, sameHigh]
  refine ⟨sameLen ▸ packed.len_le, kind_le, ?_, ?_, ?_, ?_, bare⟩
  · rw [sameLen, high 48 16 (by decide)]
    exact packed.first_unused
  · rw [sameLen, high 40 8 (by decide)]
    exact packed.second_unused
  · rw [sameLen, high 32 8 (by decide)]
    exact packed.third_unused
  · rw [sameLen, high 24 8 (by decide)]
    exact packed.fourth_unused

lemma setSuffixVersion_spec (small : VersionSmall) (value : UInt64)
    (fits : value <= suffixVersionMask) :
    SameRelease small (small.setSuffixVersion value) /\
      (small.setSuffixVersion value).suffixKind = small.suffixKind /\
      (small.setSuffixVersion value).suffixVersion = value := by
  have word := setSuffixVersion_toNat small value fits
  have valueLt := suffixNumber_lt fits
  refine ⟨⟨rfl, ?_⟩, ?_, ?_⟩
  · omega
  · apply UInt64.toNat_inj.mp
    rw [suffixKind_toNat, suffixKind_toNat]
    omega
  · apply UInt64.toNat_inj.mp
    rw [suffixVersion_toNat]
    omega

lemma setSuffixKind_spec (small : VersionSmall) (kind : UInt64) (fits : kind <= suffixMax) :
    SameRelease small (small.setSuffixKind kind) /\
      (small.setSuffixKind kind).suffixKind = kind /\
      (kind = suffixNone \/ kind = suffixLocal -> (small.setSuffixKind kind).suffixVersion = 0) := by
  have word := setSuffixKind_toNat small kind fits
  have kindLt := suffixKind_lt fits
  have sameLen : (small.setSuffixKind kind).len = small.len := by
    unfold setSuffixKind
    split <;> rfl
  refine ⟨⟨sameLen, ?_⟩, ?_, ?_⟩
  · split at word <;> omega
  · apply UInt64.toNat_inj.mp
    rw [suffixKind_toNat]
    split at word <;> omega
  · intro bare
    rw [if_pos bare] at word
    apply UInt64.toNat_inj.mp
    rw [suffixVersion_toNat]
    change _ = 0
    omega

/-- Installing a suffix: the kind first, then its number. -/
lemma installSuffix_spec (small : VersionSmall) (kind number : UInt64)
    (kindFits : kind <= suffixMax) (numberFits : number <= suffixVersionMask) :
    SameRelease small ((small.setSuffixKind kind).setSuffixVersion number) /\
      ((small.setSuffixKind kind).setSuffixVersion number).suffixKind = kind /\
      ((small.setSuffixKind kind).setSuffixVersion number).suffixVersion = number := by
  obtain ⟨kindRelease, kindEq, _⟩ := setSuffixKind_spec small kind kindFits
  obtain ⟨numberRelease, sameKind, numberEq⟩ :=
    setSuffixVersion_spec (small.setSuffixKind kind) number numberFits
  refine ⟨⟨?_, ?_⟩, sameKind.trans kindEq, numberEq⟩
  · exact numberRelease.1.trans kindRelease.1
  · exact numberRelease.2.trans kindRelease.2

/-! ## The record behind a packed word -/

/-- The full record as a function of the three parts of a packed version. -/
def decode (release : List UInt64) (kind number : UInt64) : VersionFull where
  epoch := 0
  release := release
  pre :=
    if kind == suffixPreAlpha then some { kind := .alpha, number := number }
    else if kind == suffixPreBeta then some { kind := .beta, number := number }
    else if kind == suffixPreRc then some { kind := .rc, number := number }
    else none
  post := if kind == suffixPost then some number else none
  dev := if kind == suffixDev then some number else none
  localVersion := if kind == suffixLocal then .max else .empty
  min := if kind == suffixMin then some number else none
  max := if kind == suffixMax then some number else none

lemma makeFull_eq_decode (small : VersionSmall) :
    VersionInner.makeFull (.small small) =
      decode small.release small.suffixKind small.suffixVersion :=
  rfl

/-- What a suffix setter did: nothing, a removal, or an installation. -/
inductive SuffixUpdate (small changed : VersionSmall) (owns : UInt64 -> Prop) :
    Option (UInt64 × UInt64) -> Prop
  | unchanged (same : changed = small) (foreign : ¬ owns small.suffixKind) :
      SuffixUpdate small changed owns none
  | removed (same : SameRelease small changed)
      (owned : small.suffixKind = suffixNone \/ owns small.suffixKind)
      (kindEq : changed.suffixKind = suffixNone) (numberEq : changed.suffixVersion = 0) :
      SuffixUpdate small changed owns none
  | installed (kind number : UInt64) (same : SameRelease small changed)
      (owned : small.suffixKind = suffixNone \/ owns small.suffixKind)
      (kindEq : changed.suffixKind = kind) (numberEq : changed.suffixVersion = number) :
      SuffixUpdate small changed owns (some (kind, number))

lemma setSuffixNumber_update {own : UInt64} {value : Option UInt64} (ownFits : own <= suffixMax)
    (set : setSuffixNumber own small value = some changed) :
    SuffixUpdate small changed (· = own) (value.map (own, ·)) := by
  unfold setSuffixNumber at set
  split at set
  next foreign =>
    have notOwn : ¬ small.suffixKind = own := by simp at foreign; exact foreign.2
    cases value with
    | none => exact .unchanged (by simpa using set.symm) notOwn
    | some number => simp at set
  next owned =>
    have owned : small.suffixKind = suffixNone \/ small.suffixKind = own := by
      simp only [Bool.not_eq_true', Bool.not_eq_false, Bool.or_eq_true, beq_iff_eq] at owned
      exact owned
    cases value with
    | none =>
      obtain rfl : small.setSuffixKind suffixNone = changed := Option.some.inj set
      obtain ⟨same, kindEq, numberEq⟩ := setSuffixKind_spec small suffixNone (by decide)
      exact .removed same owned kindEq (numberEq (.inl rfl))
    | some number =>
      simp only at set
      split at set
      · contradiction
      next fits =>
        obtain rfl := Option.some.inj set
        obtain ⟨same, kindEq, numberEq⟩ :=
          installSuffix_spec small own number ownFits (UInt64.not_lt.mp fits)
        exact .installed own number same owned kindEq numberEq

lemma setPre_update {value : Option Prerelease} (set : setPre small value = some changed) :
    SuffixUpdate small changed
      (fun kind => kind = suffixPreAlpha \/ kind = suffixPreBeta \/ kind = suffixPreRc)
      (value.map fun pre => (preSuffix pre.kind, pre.number)) := by
  unfold setPre at set
  simp only at set
  split at set
  next foreign =>
    simp only [Bool.not_eq_true', Bool.or_eq_false_iff, beq_eq_false_iff_ne] at foreign
    cases value with
    | none =>
      refine .unchanged (by simpa using set.symm) ?_
      rintro (alpha | beta | rc)
      · exact foreign.1.1.2 alpha
      · exact foreign.1.2 beta
      · exact foreign.2 rc
    | some number => simp at set
  next owned =>
    simp only [Bool.not_eq_true', Bool.not_eq_false, Bool.or_eq_true, beq_iff_eq, or_assoc] at owned
    cases value with
    | none =>
      obtain rfl : small.setSuffixKind suffixNone = changed := Option.some.inj set
      obtain ⟨same, kindEq, numberEq⟩ := setSuffixKind_spec small suffixNone (by decide)
      exact .removed same owned kindEq (numberEq (.inl rfl))
    | some pre =>
      simp only at set
      split at set
      · contradiction
      next fits =>
        obtain rfl := Option.some.inj set
        obtain ⟨same, kindEq, numberEq⟩ :=
          installSuffix_spec small (preSuffix pre.kind) pre.number
            (by cases pre.kind <;> decide) (UInt64.not_lt.mp fits)
        exact .installed _ _ same owned kindEq numberEq

lemma setLocal_update {value : LocalVersion} (set : setLocal small value = some changed) :
    (value = .max \/ value = .empty) /\
      SuffixUpdate small changed (· = suffixLocal)
        (if value = .max then some (suffixLocal, 0) else none) := by
  unfold setLocal at set
  simp only at set
  split at set
  next foreign =>
    simp only [Bool.not_eq_true', Bool.or_eq_false_iff, beq_eq_false_iff_ne] at foreign
    cases value with
    | max => simp [LocalVersion.isEmpty] at set
    | segments list =>
      cases list with
      | cons head tail => simp [LocalVersion.isEmpty] at set
      | nil =>
        refine ⟨.inr rfl, ?_⟩
        rw [if_neg (by simp)]
        exact .unchanged (by simpa [LocalVersion.isEmpty] using set.symm) foreign.2
  next owned =>
    simp only [Bool.not_eq_true', Bool.not_eq_false, Bool.or_eq_true, beq_iff_eq] at owned
    cases value with
    | max =>
      obtain rfl := Option.some.inj set
      obtain ⟨same, kindEq, numberEq⟩ := setSuffixKind_spec small suffixLocal (by decide)
      exact ⟨.inl rfl, .installed _ _ same owned kindEq (numberEq (.inr rfl))⟩
    | segments list =>
      cases list with
      | cons head tail => simp at set
      | nil =>
        obtain rfl := Option.some.inj set
        obtain ⟨same, kindEq, numberEq⟩ := setSuffixKind_spec small suffixNone (by decide)
        refine ⟨.inr rfl, ?_⟩
        rw [if_neg (by simp)]
        exact .removed same owned kindEq (numberEq (.inl rfl))

/-- A suffix update keeps the packing invariant, provided that an installed
suffix is one that may carry its number. -/
lemma SuffixUpdate.packed {owns : UInt64 -> Prop}
    {value : Option (UInt64 × UInt64)} (update : SuffixUpdate small changed owns value)
    (packed : small.Packed) (admissible : ∀ kind number, value = some (kind, number) ->
      kind <= suffixMax /\ (kind = suffixMin \/ kind = suffixNone \/ kind = suffixLocal \/
        kind = suffixMax -> number = 0)) : changed.Packed := by
  cases update with
  | unchanged same _ => exact same ▸ packed
  | removed same _ kindEq numberEq =>
    exact same.packed packed (kindEq ▸ by decide) (fun _ => numberEq)
  | installed kind number same _ kindEq numberEq =>
    obtain ⟨kindFits, numberZero⟩ := admissible kind number rfl
    refine same.packed packed (kindEq ▸ kindFits) ?_
    rw [kindEq, numberEq]
    exact numberZero

/-! ## Release updates -/

lemma clearRelease_spec (small : VersionSmall) :
    small.clearRelease.len = 0 /\ small.clearRelease.suffixKind = small.suffixKind /\
      small.clearRelease.suffixVersion = small.suffixVersion := by
  have word := clearRelease_toNat small
  refine ⟨rfl, ?_, ?_⟩
  · apply UInt64.toNat_inj.mp
    rw [suffixKind_toNat, suffixKind_toNat]
    omega
  · apply UInt64.toNat_inj.mp
    rw [suffixVersion_toNat, suffixVersion_toNat]
    omega

lemma clearRelease_packed {small : VersionSmall} (packed : small.Packed) :
    small.clearRelease.Packed := by
  have word := clearRelease_toNat small
  obtain ⟨_, sameKind, sameNumber⟩ := clearRelease_spec small
  refine ⟨Nat.zero_le 4, sameKind ▸ packed.kind_le, ?_, ?_, ?_, ?_, ?_⟩
  case refine_5 =>
    rw [sameKind, sameNumber]
    exact packed.bare
  all_goals
    intro _
    unfold field
    omega

variable {n : UInt64}

section

variable (packed : small.Packed) (pushed : small.pushRelease n = some changed)

include packed pushed

/-- Pushing a number fills the first unused digit of the release part.  The
four positions differ only in the weight and the width of that digit. -/
lemma pushRelease_toNat :
    (small.len = 0 /\ changed.len = 1 /\ n.toNat < 2 ^ 16 /\
        changed.repr.toNat = small.repr.toNat + n.toNat * 2 ^ 48) \/
      (small.len = 1 /\ changed.len = 2 /\ n.toNat < 2 ^ 8 /\
        changed.repr.toNat = small.repr.toNat + n.toNat * 2 ^ 40) \/
      (small.len = 2 /\ changed.len = 3 /\ n.toNat < 2 ^ 8 /\
        changed.repr.toNat = small.repr.toNat + n.toNat * 2 ^ 32) \/
      (small.len = 3 /\ changed.len = 4 /\ n.toNat < 2 ^ 8 /\
        changed.repr.toNat = small.repr.toNat + n.toNat * 2 ^ 24) := by
  unfold pushRelease at pushed
  split at pushed
  next first =>
    split at pushed
    · contradiction
    next fits =>
      have numberLt : n.toNat < 2 ^ 16 := by
        have bound := UInt64.le_iff_toNat_le.mp (UInt64.not_lt.mp fits)
        change n.toNat <= 65535 at bound
        omega
      obtain rfl := Option.some.inj pushed
      exact .inl ⟨first, rfl, numberLt, or_shiftLeft _ _ _ 48 16 rfl (by decide) (by decide)
        numberLt (packed.first_unused (by omega))⟩
  next later =>
    split at pushed
    · contradiction
    next fits =>
      have numberLt : n.toNat < 2 ^ 8 := by
        have bound := UInt64.le_iff_toNat_le.mp (UInt64.not_lt.mp fits)
        change n.toNat <= 255 at bound
        omega
      split at pushed
      · contradiction
      next room =>
        obtain rfl := Option.some.inj pushed
        rcases (show small.len = 1 \/ small.len = 2 \/ small.len = 3 by omega) with
          second | third | fourth
        · refine .inr (.inl ⟨second, by simp [second], numberLt, ?_⟩)
          simp only [second]
          exact or_shiftLeft _ _ _ 40 8 rfl (by decide) (by decide) numberLt
            (packed.second_unused (by omega))
        · refine .inr (.inr (.inl ⟨third, by simp [third], numberLt, ?_⟩))
          simp only [third]
          exact or_shiftLeft _ _ _ 32 8 rfl (by decide) (by decide) numberLt
            (packed.third_unused (by omega))
        · refine .inr (.inr (.inr ⟨fourth, by simp [fourth], numberLt, ?_⟩))
          simp only [fourth]
          exact or_shiftLeft _ _ _ 24 8 rfl (by decide) (by decide) numberLt
            (packed.fourth_unused (by omega))

lemma pushRelease_suffix :
    changed.suffixKind = small.suffixKind /\ changed.suffixVersion = small.suffixVersion := by
  have word := pushRelease_toNat packed pushed
  constructor
  · apply UInt64.toNat_inj.mp
    rw [suffixKind_toNat, suffixKind_toNat]
    omega
  · apply UInt64.toNat_inj.mp
    rw [suffixVersion_toNat, suffixVersion_toNat]
    omega

lemma pushRelease_packed : changed.Packed := by
  have word := pushRelease_toNat packed pushed
  obtain ⟨sameKind, sameNumber⟩ := pushRelease_suffix packed pushed
  have first := packed.first_unused
  have second := packed.second_unused
  have third := packed.third_unused
  have fourth := packed.fourth_unused
  unfold field at first second third fourth
  refine ⟨by omega, sameKind ▸ packed.kind_le, ?_, ?_, ?_, ?_, ?_⟩
  case refine_5 =>
    rw [sameKind, sameNumber]
    exact packed.bare
  all_goals
    intro unused
    unfold field
    omega

lemma pushRelease_release :
    changed.release = small.release ++ [n] := by
  have bound := small.repr.toNat_lt
  have firstUnused := packed.first_unused
  have secondUnused := packed.second_unused
  have thirdUnused := packed.third_unused
  have fourthUnused := packed.fourth_unused
  unfold field at firstUnused secondUnused thirdUnused fourthUnused
  unfold release
  rcases pushRelease_toNat packed pushed with ⟨len, len', fits, word⟩ | ⟨len, len', fits, word⟩ |
    ⟨len, len', fits, word⟩ | ⟨len, len', fits, word⟩
  all_goals
    simp only [len, len', List.nil_append, List.cons_append, List.cons.injEq, and_true]
    simp only [<- UInt64.toNat_inj, first_toNat, second_toNat, third_toNat, fourth_toNat]
    omega

end

end VersionSmall

end Uv.Pep440
