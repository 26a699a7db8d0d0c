import Mathlib

namespace Uv.Library

open List

/-!
# Cutting and reading text

Text is taken apart by known beginnings and ends, at the first occurrence of a mark,
and into numbers.  A number may have a plus sign and leading zeros when it is read, so
it is written differently from how it was read; what is written is read back.
-/

namespace Text

/-! ## Beginnings and ends -/

lemma dropPrefix?_append (start rest : List Char) :
    (start ++ rest).dropPrefix? start = some rest :=
  dropPrefix?_eq_some_iff.mpr ⟨start, rfl, beq_self_eq_true start⟩

lemma eq_append_of_dropPrefix? {text start rest : List Char}
    (found : text.dropPrefix? start = some rest) : text = start ++ rest := by
  rcases dropPrefix?_eq_some_iff.mp found with ⟨same, split, equal⟩
  rw [split, eq_of_beq equal]

lemma dropSuffix?_append (rest stop : List Char) :
    (rest ++ stop).dropSuffix? stop = some rest :=
  dropSuffix?_eq_some_iff.mpr ⟨stop, rfl, beq_self_eq_true stop⟩

/-! ## One cut -/

/-- What is before and after the first occurrence of a mark. -/
def splitOnce (mark : Char) (text : List Char) : Option (List Char × List Char) :=
  match text.dropWhile (· != mark) with
  | [] => none
  | _ :: rest => some (text.takeWhile (· != mark), rest)

variable {mark : Char}

lemma splitOnce_append {first : List Char} (rest : List Char)
    (absent : mark ∉ first) : splitOnce mark (first ++ mark :: rest) = some (first, rest) := by
  have passed : ∀ c ∈ first, (c != mark) :=
    fun c inside => bne_iff_ne.mpr fun same => absent (same ▸ inside)
  rw [splitOnce, dropWhile_append_of_pos passed, takeWhile_append_of_pos passed]
  simp only [dropWhile_cons, takeWhile_cons, bne_self_eq_false, Bool.false_eq_true,
    if_false, append_nil]

lemma eq_append_of_splitOnce {text first rest : List Char}
    (found : splitOnce mark text = some (first, rest)) :
    text = first ++ mark :: rest /\ mark ∉ first := by
  rw [splitOnce] at found
  split at found
  next => cases found
  next c others stop =>
    cases found
    have here : c = mark := by
      have head := head?_dropWhile_not (· != mark) text
      rw [stop] at head
      simpa using head
    subst here
    constructor
    · rw [<- stop, takeWhile_append_dropWhile]
    · intro inside
      have passed := all_eq_true.mp all_takeWhile _ inside
      rw [bne_self_eq_false] at passed
      cases passed

/-- The pieces of a text do not contain the mark at which it was cut. -/
lemma not_mem_of_mem_splitOn {text piece : List Char}
    (mem : piece ∈ text.splitOn mark) : mark ∉ piece := by
  induction length : text.length using Nat.strong_induction_on generalizing text with
  | _ length ih =>
    by_cases marked : mark ∈ text
    · rcases eq_append_cons_of_mem marked with ⟨first, rest, rfl, absent⟩
      rw [splitOn_append_cons_self_of_not_mem absent] at mem
      rcases mem_cons.mp mem with rfl | later
      · exact absent
      · refine ih rest.length ?_ later rfl
        rw [<- length, length_append, length_cons]
        omega
    · rw [splitOn_eq_singleton marked] at mem
      exact mem_singleton.mp mem ▸ marked

/-! ## Numbers -/

/-- The value of a text of decimal digits. -/
def valueOf (digits : List Char) : Nat := Nat.ofDigitChars 10 digits 0

def withoutPlus : List Char -> List Char
  | '+' :: rest => rest
  | text => text

/-- Digits, possibly after a plus sign, for a number below a bound. -/
def parseUnsigned (bound : Nat) (text : List Char) : Option Nat :=
  let digits := withoutPlus text
  if digits ≠ [] /\ digits.all Char.isDigit = true /\ valueOf digits < bound then
    some (valueOf digits)
  else none

lemma length_withoutPlus_le (text : List Char) : (withoutPlus text).length <= text.length := by
  rw [withoutPlus.eq_def]
  split
  next => exact Nat.le_succ _
  next => exact le_rfl

lemma valueOf_lt {digits : List Char} (all : digits.all Char.isDigit) :
    valueOf digits < 10 ^ digits.length := by
  induction digits using reverseRecOn with
  | nil => decide
  | append_singleton digits digit ih =>
    rw [all_append, Bool.and_eq_true] at all
    have before := ih all.1
    have isDigit : digit.isDigit := all_eq_true.mp all.2 digit (mem_singleton_self _)
    rw [Char.isDigit, Bool.and_eq_true, decide_eq_true_eq, decide_eq_true_eq] at isDigit
    have range : 48 <= digit.toNat /\ digit.toNat <= 57 := isDigit
    have split : valueOf (digits ++ [digit]) = 10 * valueOf digits + (digit.toNat - '0'.toNat) := by
      rw [valueOf, Nat.ofDigitChars, foldl_append]
      rfl
    have zero : '0'.toNat = 48 := rfl
    rw [split, length_append, length_singleton, Nat.pow_succ]
    omega

section

variable {bound n : Nat} {text : List Char}

lemma parseUnsigned_lt (read : parseUnsigned bound text = some n) :
    n < bound /\ n < 10 ^ text.length := by
  rw [parseUnsigned] at read
  split at read
  next accepted =>
    cases read
    refine ⟨accepted.2.2, (valueOf_lt accepted.2.1).trans_le ?_⟩
    exact Nat.pow_le_pow_right (by decide) (length_withoutPlus_le text)
  next => cases read

/-- The decimal digits of a number. -/
def decimal (n : Nat) : List Char := (toString n).toList

lemma decimal_eq (n : Nat) : decimal n = Nat.toDigits 10 n := by
  rw [decimal, Nat.toString_eq_repr, Nat.repr_eq_ofList_toDigits, String.toList_ofList]

lemma isDigit_of_mem_decimal {c : Char} (inside : c ∈ decimal n) : c.isDigit := by
  rw [decimal_eq] at inside
  exact Nat.isDigit_of_mem_toDigits (by decide) (by decide) inside

lemma decimal_ne_nil (n : Nat) : decimal n ≠ [] := by
  rw [decimal_eq]
  exact Nat.toDigits_ne_nil

lemma valueOf_decimal (n : Nat) : valueOf (decimal n) = n := by
  rw [valueOf, decimal_eq]
  exact Nat.ofDigitChars_toDigits (by decide) (by decide)

lemma length_decimal_le {count : Nat} (positive : 0 < count) (small : n < 10 ^ count) :
    (decimal n).length <= count := by
  rw [decimal_eq]
  exact (Nat.length_toDigits_le_iff (by decide) positive).mpr small

/-- A number that is written is read back. -/
lemma parseUnsigned_decimal (small : n < bound) : parseUnsigned bound (decimal n) = some n := by
  have digits : withoutPlus (decimal n) = decimal n := by
    rw [withoutPlus.eq_def]
    split
    next rest start =>
      have inside : '+' ∈ decimal n := start ▸ mem_cons_self
      exact absurd (isDigit_of_mem_decimal inside) (by decide)
    next => rfl
  have accepted : decimal n ≠ [] /\ (decimal n).all Char.isDigit /\
      valueOf (decimal n) < bound :=
    ⟨decimal_ne_nil n, all_eq_true.mpr fun _ => isDigit_of_mem_decimal,
      (valueOf_decimal n).symm ▸ small⟩
  rw [parseUnsigned, digits, if_pos accepted, valueOf_decimal]

/-- Digits do not contain any other mark. -/
lemma not_mem_decimal (other : mark.isDigit = false) : mark ∉ decimal n := by
  intro inside
  rw [isDigit_of_mem_decimal inside] at other
  cases other

/-- A number below ten is one digit. -/
lemma decimal_of_lt (small : n < 10) : decimal n = [Nat.digitChar n] := by
  rw [decimal_eq, Nat.toDigits_of_lt_base small]

end

end Text

end Uv.Library
