import Uv.Library.Encoding
import Uv.Wheel.Filename

namespace Uv.Wheel

open Pep440 Version List
open Platform
open Cache

/-!
# Cache keys of wheels

A wheel is stored in the cache under its version and its tag, if the text is
short enough, and otherwise under the beginning of its version and a digest of
its tag.  The two forms are told apart by their dashes.  Within the second
form the tag is determined, and of the version only what is left of it.
-/

/-! ## Strings as bytes -/

variable (bytes : List UInt8)

/-- A position between two characters of a UTF-8 string, or at one of its ends. -/
def isCharBoundary (index : Nat) : Bool :=
  if index = 0 then true
  else
    match bytes[index]? with
    | none => index == bytes.length
    | some byte => byte &&& 0xC0 != 0x80

/-- Cut a string.  There is no result if the cut goes through a character. -/
def truncate (width : Nat) : Option (List UInt8) :=
  if width <= bytes.length then
    if isCharBoundary bytes width then some (bytes.take width) else none
  else some bytes

/-- Remove the dots and plus signs at the end. -/
def trimEnd : List UInt8 :=
  bytes.rdropWhile fun byte => byte == 46 || byte == 43

/-! ## The key -/

def cacheKeyMaxLen : Nat := 64

/-- What is left for the version next to a dash and a digest. -/
def versionWidth : Nat := cacheKeyMaxLen - 1 - 16

namespace WheelFilename

variable {P : Type} [ToString P] (wheel : WheelFilename P)

def full : List UInt8 :=
  asBytes wheel.version.display ++ 45 :: asBytes wheel.tags.display

/-- The cache key of a wheel as a string of bytes.  There is no key if the
version cannot be cut at the width. -/
def cacheKey (finish : List UInt8 -> UInt64) (wheel : WheelFilename P) : Option (List UInt8) :=
  if wheel.full.length <= cacheKeyMaxLen then some wheel.full
  else
    let digest := cacheDigest finish wheel.tags.display
    (truncate (asBytes wheel.version.display) versionWidth).map fun version =>
      trimEnd version ++ 45 :: digest

/-- The key would be longer than the maximum. -/
def Long : Prop := cacheKeyMaxLen < wheel.full.length

instance (wheel : WheelFilename P) : Decidable wheel.Long :=
  inferInstanceAs (Decidable (cacheKeyMaxLen < wheel.full.length))

/-- What is kept of the version in a key with a digest. -/
def kept : List UInt8 :=
  trimEnd ((asBytes wheel.version.display).take versionWidth)

end WheelFilename

/-! ## Dashes -/

lemma dash_mem_asBytes {text : String} (inside : '-' ∈ text.toList) : 45 ∈ asBytes text := by
  rw [asBytes]
  exact mem_flatMap.mpr ⟨'-', inside, by decide⟩

/-- An ASCII byte is not in the middle of a character. -/
lemma not_continuation {byte : UInt8} (ascii : byte.toNat < 128) : byte &&& 0xC0 ≠ 0x80 := by
  intro continues
  have bit := congrArg (fun n => n.toNat.testBit 7) continues
  have high : byte.toNat.testBit 7 = false := Nat.testBit_lt_two_pow ascii
  simp [UInt8.toNat_and, Nat.testBit_and, high] at bit
  cases bit

namespace WheelFilename

section

variable {P : Type} (wheel : WheelFilename P)

lemma version_printed {byte : UInt8}
    (inside : byte ∈ asBytes wheel.version.display) : byte.toNat < 128 /\ byte ≠ 45 :=
  Scan.isPrinted_ascii (all_eq_true.mp (display_printed wheel.spelled) byte inside)

lemma version_dash : 45 ∉ asBytes wheel.version.display :=
  fun inside => (wheel.version_printed inside).2 rfl

lemma kept_of_version : wheel.kept <+: (asBytes wheel.version.display).take versionWidth := by
  rw [kept, trimEnd]
  exact rdropWhile_prefix _ _

lemma kept_dash : 45 ∉ wheel.kept :=
  fun inside => wheel.version_dash (mem_of_mem_take (wheel.kept_of_version.subset inside))

/-- The text of a version can be cut anywhere. -/
lemma truncate_version (width : Nat) :
    truncate (asBytes wheel.version.display) width =
      some ((asBytes wheel.version.display).take width) := by
  rw [truncate]
  split
  next fits =>
    rw [if_pos]
    rw [isCharBoundary]
    split
    · rfl
    · cases found : (asBytes wheel.version.display)[width]? with
      | none =>
        have long := getElem?_eq_none_iff.mp found
        exact beq_iff_eq.mpr (Nat.le_antisymm fits long)
      | some byte =>
        have ascii := (wheel.version_printed (mem_of_getElem? found)).1
        exact bne_iff_ne.mpr (not_continuation ascii)
  next short => rw [take_of_length_le (Nat.le_of_lt (Nat.not_le.mp short))]

/-- Different versions have different texts. -/
lemma display_ne {left right : WheelFilename P} (differ : left.version.cmp right.version ≠ .eq) :
    left.version.display ≠ right.version.display := by
  intro same
  apply differ
  have keys : left.version.key = right.version.key := by
    rw [key, key, display_injective left.spelled right.spelled same]
  rw [cmp_orderedBy, keys]
  exact compare_eq_iff_eq.mpr rfl

end

variable {P : Type} [ToString P] (finish : List UInt8 -> UInt64)

/-- Every wheel has a key. -/
lemma cacheKey_eq (wheel : WheelFilename P) :
    (wheel.full.length <= cacheKeyMaxLen -> wheel.cacheKey finish = some wheel.full) /\
      (wheel.Long -> wheel.cacheKey finish =
        some (wheel.kept ++ 45 :: cacheDigest finish wheel.tags.display)) := by
  constructor
  · intro short
    rw [cacheKey, if_pos short]
  · intro long
    rw [cacheKey, if_neg (Nat.not_le.mpr long)]
    simp only
    rw [truncate_version]
    rfl

/-- Every wheel has a key, and no key is longer than the maximum. -/
theorem length_cacheKey (wheel : WheelFilename P) :
    ∃ key, wheel.cacheKey finish = some key /\ key.length <= cacheKeyMaxLen := by
  by_cases long : wheel.Long
  · refine ⟨_, (wheel.cacheKey_eq finish).2 long, ?_⟩
    have version := wheel.kept_of_version.length_le.trans (length_take_le _ _)
    have digest : (cacheDigest finish wheel.tags.display).length = 16 := rfl
    rw [length_append, length_cons, digest]
    exact Nat.add_le_add_right version 17
  · have short := Nat.not_lt.mp long
    exact ⟨_, (wheel.cacheKey_eq finish).1 short, short⟩

variable {finish} {left right : WheelFilename P}

/-- A key in full is not a key with a digest: only the first has a dash behind
its first one. -/
lemma full_ne_digest (left right : WheelFilename P) :
    left.full ≠ right.kept ++ 45 :: cacheDigest finish right.tags.display := by
  intro same
  rcases Library.cut_at_mark left.version_dash right.kept_dash same with ⟨_, tags⟩
  refine dash_notin_toHex (finish (writeStr right.tags.display)) ?_
  rw [<- cacheDigest, <- tags]
  exact dash_mem_asBytes left.tags.display_dash

lemma full_inj : left.full = right.full <->
    left.version.display = right.version.display /\ left.tags.display = right.tags.display := by
  constructor
  · intro same
    rcases Library.cut_at_mark left.version_dash right.version_dash same with ⟨version, tags⟩
    exact ⟨asBytes_injective version, asBytes_injective tags⟩
  · rintro ⟨version, tags⟩
    rw [full, full, version, tags]

lemma cacheKey_eq_of_kept (tags : left.tags.display = right.tags.display) (leftLong : left.Long)
    (rightLong : right.Long) (version : left.kept = right.kept) :
    left.cacheKey finish = right.cacheKey finish := by
  rw [(left.cacheKey_eq finish).2 leftLong, (right.cacheKey_eq finish).2 rightLong, version, tags]

/-- When two wheels have the same key.  The digest is assumed to tell their two
tags apart. -/
lemma cacheKey_eq_iff (injective : cacheDigest finish left.tags.display =
      cacheDigest finish right.tags.display -> left.tags.display = right.tags.display) :
    left.cacheKey finish = right.cacheKey finish <->
      left.tags.display = right.tags.display /\
        (left.version.display = right.version.display \/
          left.Long /\ right.Long /\ left.kept = right.kept) := by
  by_cases leftLong : left.Long
  · rw [(left.cacheKey_eq finish).2 leftLong]
    by_cases rightLong : right.Long
    · rw [(right.cacheKey_eq finish).2 rightLong, Option.some_inj]
      constructor
      · intro same
        rcases Library.cut_at_mark left.kept_dash right.kept_dash same with ⟨version, digest⟩
        exact ⟨injective digest, .inr ⟨leftLong, rightLong, version⟩⟩
      · rintro ⟨tags, version | ⟨_, _, version⟩⟩
        · rw [kept, kept, version, tags]
        · rw [version, tags]
    · rw [(right.cacheKey_eq finish).1 (Nat.not_lt.mp rightLong), Option.some_inj]
      constructor
      · intro same
        exact absurd same.symm (full_ne_digest right left)
      · rintro ⟨tags, version | ⟨_, long, _⟩⟩
        · rw [Long, full_inj.mpr ⟨version, tags⟩] at leftLong
          exact absurd leftLong rightLong
        · exact absurd long rightLong
  · rw [(left.cacheKey_eq finish).1 (Nat.not_lt.mp leftLong)]
    by_cases rightLong : right.Long
    · rw [(right.cacheKey_eq finish).2 rightLong, Option.some_inj]
      constructor
      · intro same
        exact absurd same (full_ne_digest left right)
      · rintro ⟨tags, version | ⟨long, _, _⟩⟩
        · rw [Long, <- full_inj.mpr ⟨version, tags⟩] at rightLong
          exact absurd rightLong leftLong
        · exact absurd long leftLong
    · rw [(right.cacheKey_eq finish).1 (Nat.not_lt.mp rightLong), Option.some_inj, full_inj]
      constructor
      · rintro ⟨version, tags⟩
        exact ⟨tags, .inl version⟩
      · rintro ⟨tags, version | ⟨long, _, _⟩⟩
        · exact ⟨version, tags⟩
        · exact absurd long leftLong

/-- Wheels of a package with different versions or tags have different keys,
unless they have one tag, both keys are written with a digest, and nothing that
tells the versions apart is kept. -/
theorem cacheKey_distinct (finish : List UInt8 -> UInt64) (left right : WheelFilename P)
    (differ : left.version.cmp right.version ≠ .eq \/ left.tags.display ≠ right.tags.display)
    (injective : cacheDigest finish left.tags.display =
      cacheDigest finish right.tags.display -> left.tags.display = right.tags.display) :
    (∃ key, left.cacheKey finish = some key) /\ (left.cacheKey finish ≠ right.cacheKey finish <->
        ¬ (left.Long /\ right.Long /\ left.tags.display = right.tags.display /\
          left.kept = right.kept)) := by
  constructor
  · by_cases long : left.Long
    · exact ⟨_, (left.cacheKey_eq finish).2 long⟩
    · exact ⟨_, (left.cacheKey_eq finish).1 (Nat.not_lt.mp long)⟩
  · rw [Ne, not_iff_not, cacheKey_eq_iff injective]
    constructor
    · rintro ⟨tags, version | ⟨leftLong, rightLong, version⟩⟩
      · rcases differ with differ | differ
        · exact absurd version (display_ne differ)
        · exact absurd tags differ
      · exact ⟨leftLong, rightLong, tags, version⟩
    · rintro ⟨leftLong, rightLong, tags, version⟩
      exact ⟨tags, .inr ⟨leftLong, rightLong, version⟩⟩

/-- Two wheels of one version whose tags differ, with a hash that adds up the bytes. -/
theorem cacheKey_distinct_py2_py3 :
    ∃ left : WheelFilename String, ∃ right : WheelFilename String,
      left.name = right.name /\ left.version = right.version /\
        left.cacheKey (fun bytes => (bytes.map UInt8.toUInt64).sum) ≠
          right.cacheKey (fun bytes => (bytes.map UInt8.toUInt64).sum) := by
  refine ⟨.new "example" _ (@fromStr_spelled "1.2" (.new [1, 2] (by decide)) rfl)
      (.python 2 none) .none "any",
    .new "example" _ (@fromStr_spelled "1.2" (.new [1, 2] (by decide)) rfl)
      (.python 3 none) .none "any", rfl, rfl, ?_⟩
  refine (cacheKey_distinct _ _ _ (.inr (by decide)) ?_).2.mpr ?_
  · exact fun same => absurd same (by decide)
  · rintro ⟨long, _⟩
    exact absurd long (by decide)

/-- The versions `1.1.….1.1` and `1.1.….1.2` of 27 numbers, with one tag: what tells
them apart is cut off, whatever the hash. -/
theorem cacheKey_collision :
    ∃ left : WheelFilename String, ∃ right : WheelFilename String,
      left.name = right.name /\ left.version.cmp right.version ≠ .eq /\
        ∀ finish, left.cacheKey finish = right.cacheKey finish := by
  refine ⟨.new "example" _ (@fromStr_spelled
      "1.1.1.1.1.1.1.1.1.1.1.1.1.1.1.1.1.1.1.1.1.1.1.1.1.1.1"
      (.new (replicate 26 1 ++ [1]) (by decide)) rfl) (.python 3 none) .none "any",
    .new "example" _ (@fromStr_spelled
      "1.1.1.1.1.1.1.1.1.1.1.1.1.1.1.1.1.1.1.1.1.1.1.1.1.1.2"
      (.new (replicate 26 1 ++ [2]) (by decide)) rfl) (.python 3 none) .none "any",
    rfl, by decide +kernel, fun finish => ?_⟩
  apply cacheKey_eq_of_kept <;> decide +kernel

end WheelFilename

end Uv.Wheel
