import Uv.Library.Text
import Uv.Platform.Tag

namespace Uv.Platform

open Library Library.Text List Option

/-!
# Reading language and ABI tags

The readers are lenient: numbers may have leading zeros or a plus sign, and the flags
of an ABI may come in any order.  The texts that are written are in a normal form, and
a tag that has been read is read back from its text.
-/

variable {c : Char}

lemma isWordChar_of_isDigit (digit : c.isDigit) : isWordChar c := by
  rw [isWordChar, Char.isAlphanum, digit, Bool.or_true, Bool.true_or]

def byteLength (text : List Char) : Nat := (text.map Char.utf8Size).sum

/-! ## Versions -/

def digitValue (c : Char) : UInt8 := UInt8.ofNat (c.toNat - 48)

/-- One digit for the major version, and the others for the minor one. -/
def parseVersion : List Char -> Option (UInt8 × UInt8)
  | [] => none
  | first :: rest =>
    if first.isDigit then
      (parseUnsigned 256 rest).map fun minor => (digitValue first, UInt8.ofNat minor)
    else none

def parseMajor : List Char -> Option UInt8
  | [digit] => if digit.isDigit then some (digitValue digit) else none
  | _ => none

lemma digitValue_lt (digit : c.isDigit) : (digitValue c).toNat < 10 := by
  rw [Char.isDigit, Bool.and_eq_true, decide_eq_true_eq, decide_eq_true_eq] at digit
  have range : 48 <= c.toNat /\ c.toNat <= 57 := digit
  rw [digitValue, UInt8.toNat_ofNat']
  omega

lemma isDigit_digitChar {n : Nat} (small : n < 10) : (Nat.digitChar n).isDigit := by
  revert n
  decide

variable {major : UInt8}

lemma digitValue_digitChar (small : major.toNat < 10) :
    digitValue (Nat.digitChar major.toNat) = major := by
  have all : ∀ n, n < 10 -> (Nat.digitChar n).toNat - 48 = n := by decide
  rw [digitValue, all _ small, UInt8.ofNat_toNat]

variable {version : UInt8 × UInt8} {text : List Char}

lemma parseVersion_lt (read : parseVersion text = some version) :
    version.1.toNat < 10 /\ version.2.toNat < 10 ^ (text.length - 1) := by
  cases text with
  | nil => cases read
  | cons first rest =>
    rw [parseVersion] at read
    split at read
    next digit =>
      rcases map_eq_some_iff.mp read with ⟨minor, parsed, rfl⟩
      refine ⟨digitValue_lt digit, ?_⟩
      have below := parseUnsigned_lt parsed
      rw [UInt8.toNat_ofNat', Nat.mod_eq_of_lt below.1]
      exact below.2
    next => cases read

lemma parseMajor_lt (read : parseMajor text = some major) :
    major.toNat < 10 := by
  rw [parseMajor.eq_def] at read
  split at read
  next digit =>
    split at read
    next isDigit =>
      cases read
      exact digitValue_lt isDigit
    next => cases read
  next => cases read

lemma displayVersion_toList (small : version.1.toNat < 10) :
    (displayVersion version).toList =
      Nat.digitChar version.1.toNat :: decimal version.2.toNat := by
  rw [displayVersion, String.toList_append, <- decimal, <- decimal, decimal_of_lt small]
  rfl

lemma parseVersion_display (small : version.1.toNat < 10) :
    parseVersion (displayVersion version).toList = some version := by
  rw [displayVersion_toList small, parseVersion, if_pos (isDigit_digitChar small),
    parseUnsigned_decimal version.2.toNat_lt, map_some, digitValue_digitChar small,
    UInt8.ofNat_toNat]

lemma parseMajor_display (small : major.toNat < 10) :
    parseMajor (toString major.toNat).toList = some major := by
  rw [<- decimal, decimal_of_lt small, parseMajor, if_pos (isDigit_digitChar small),
    digitValue_digitChar small]

lemma isDigit_of_mem_displayVersion (inside : c ∈ (displayVersion version).toList) : c.isDigit := by
  rw [displayVersion, String.toList_append, mem_append] at inside
  rcases inside with inside | inside
  · exact isDigit_of_mem_decimal inside
  · exact isDigit_of_mem_decimal inside

lemma toString_all_isWordChar (n : Nat) : (toString n).toList.all isWordChar :=
  all_eq_true.mpr fun _ inside => isWordChar_of_isDigit (isDigit_of_mem_decimal inside)

lemma displayVersion_all_isWordChar (version : UInt8 × UInt8) :
    (displayVersion version).toList.all isWordChar :=
  all_eq_true.mpr fun _ inside => isWordChar_of_isDigit (isDigit_of_mem_displayVersion inside)

lemma byteLength_of_digits (digits : ∀ c ∈ text, c.isDigit) :
    byteLength text = text.length := by
  have sizes : text.map Char.utf8Size = text.map fun _ => 1 := by
    refine map_congr_left fun c inside => ?_
    have digit := digits c inside
    rw [Char.isDigit, Bool.and_eq_true, decide_eq_true_eq, decide_eq_true_eq] at digit
    have small : c.val <= 0x7f := UInt32.le_trans digit.2 (by decide)
    exact if_pos small
  rw [byteLength, sizes, map_const', sum_replicate, smul_eq_mul, mul_one]

lemma length_le_byteLength (text : List Char) : text.length <= byteLength text := by
  induction text with
  | nil => exact le_rfl
  | cons c rest ih =>
    have positive := c.utf8Size_pos
    simp only [byteLength, map_cons, sum_cons, length_cons] at *
    omega

/-! ## Language tags -/

namespace LanguageTag

/-- What follows `py`. -/
def fromPython (py : List Char) : Option LanguageTag :=
  match byteLength py with
  | 0 => Option.none
  | 1 => (parseMajor py).map fun major => .python major Option.none
  | 2 | 3 => (parseVersion py).map fun version => .python version.1 (some version.2)
  | _ => (py.dropPrefix? "ston".toList).bind fun pyston => (parseVersion pyston).map .pyston

/-- What follows `cp`. -/
def fromCPython (cp : List Char) : Option LanguageTag :=
  match byteLength cp with
  | 0 => Option.none
  | 1 => (parseMajor cp).map .cpythonMajor
  | 2 | 3 => (parseVersion cp).map .cpython
  | _ => Option.none

def fromStr (text : String) : Option LanguageTag :=
  let s := text.toList
  if s = "none".toList then some .none
  else
    match s.dropPrefix? "py".toList with
    | some py => fromPython py
    | Option.none =>
      match s.dropPrefix? "cp".toList with
      | some cp => fromCPython cp
      | Option.none =>
        match s.dropPrefix? "pp".toList with
        | some pp => (parseVersion pp).map .pypy
        | Option.none =>
          (s.dropPrefix? "graalpy".toList).bind fun graalpy =>
            (parseVersion graalpy).map .graalpy

/-- The tags that come from text. -/
def IsRead : LanguageTag -> Prop
  | .none => True
  | .python major Option.none => major.toNat < 10
  | .python major (some minor) => major.toNat < 10 /\ minor.toNat < 100
  | .cpython version => version.1.toNat < 10 /\ version.2.toNat < 100
  | .pypy version | .graalpy version | .pyston version => version.1.toNat < 10
  | .cpythonMajor major => major.toNat < 10

/-- Two or three bytes leave at most two digits for the minor version. -/
lemma minor_lt_of_byteLength {count : Nat} (short : count <= 3) (length : byteLength text = count)
    (read : parseVersion text = some version) :
    version.1.toNat < 10 /\ version.2.toNat < 100 := by
  have below := parseVersion_lt read
  refine ⟨below.1, below.2.trans_le ?_⟩
  have few : text.length - 1 <= 2 := by
    have := length_le_byteLength text
    omega
  exact Nat.pow_le_pow_right (by decide) few

variable {tag : LanguageTag}

lemma isRead_of_fromPython {py : List Char} (read : fromPython py = some tag) : tag.IsRead := by
  rw [fromPython] at read
  split at read
  next => cases read
  next =>
    rcases map_eq_some_iff.mp read with ⟨major, parsed, rfl⟩
    exact parseMajor_lt parsed
  next length =>
    rcases map_eq_some_iff.mp read with ⟨version, parsed, rfl⟩
    exact minor_lt_of_byteLength (by decide) length parsed
  next length =>
    rcases map_eq_some_iff.mp read with ⟨version, parsed, rfl⟩
    exact minor_lt_of_byteLength (by decide) length parsed
  next =>
    rcases bind_eq_some_iff.mp read with ⟨pyston, _, read⟩
    rcases map_eq_some_iff.mp read with ⟨version, parsed, rfl⟩
    exact (parseVersion_lt parsed).1

lemma isRead_of_fromCPython {cp : List Char} (read : fromCPython cp = some tag) : tag.IsRead := by
  rw [fromCPython] at read
  split at read
  next => cases read
  next =>
    rcases map_eq_some_iff.mp read with ⟨major, parsed, rfl⟩
    exact parseMajor_lt parsed
  next length =>
    rcases map_eq_some_iff.mp read with ⟨version, parsed, rfl⟩
    exact minor_lt_of_byteLength (by decide) length parsed
  next length =>
    rcases map_eq_some_iff.mp read with ⟨version, parsed, rfl⟩
    exact minor_lt_of_byteLength (by decide) length parsed
  next => cases read

lemma isRead_of_fromStr {text : String} (read : fromStr text = some tag) :
    tag.IsRead := by
  simp only [fromStr] at read
  split at read
  next =>
    cases read
    trivial
  split at read
  next => exact isRead_of_fromPython read
  split at read
  next => exact isRead_of_fromCPython read
  split at read
  next =>
    rcases map_eq_some_iff.mp read with ⟨version, parsed, rfl⟩
    exact (parseVersion_lt parsed).1
  next =>
    rcases bind_eq_some_iff.mp read with ⟨graalpy, _, read⟩
    rcases map_eq_some_iff.mp read with ⟨version, parsed, rfl⟩
    exact (parseVersion_lt parsed).1

lemma byteLength_displayVersion (small : version.1.toNat < 10) (minor : version.2.toNat < 100) :
    byteLength (displayVersion version).toList = 2 \/ byteLength (displayVersion version).toList = 3 := by
  rw [byteLength_of_digits fun _ => isDigit_of_mem_displayVersion, displayVersion_toList small,
    length_cons]
  have few := @length_decimal_le version.2.toNat 2 (by decide) minor
  have some := length_pos_of_ne_nil (decimal_ne_nil version.2.toNat)
  omega

lemma byteLength_toString (small : major.toNat < 10) :
    byteLength (toString major.toNat).toList = 1 := by
  rw [<- decimal, byteLength_of_digits fun _ => isDigit_of_mem_decimal, decimal_of_lt small]
  rfl

lemma fromPython_displayVersion (small : version.1.toNat < 10) (minor : version.2.toNat < 100) :
    fromPython (displayVersion version).toList = some (.python version.1 (some version.2)) := by
  rcases byteLength_displayVersion small minor with length | length
  all_goals simp only [fromPython, length, parseVersion_display small, map_some]

lemma fromCPython_displayVersion (small : version.1.toNat < 10) (minor : version.2.toNat < 100) :
    fromCPython (displayVersion version).toList = some (.cpython version) := by
  rcases byteLength_displayVersion small minor with length | length
  all_goals simp only [fromCPython, length, parseVersion_display small, map_some]

/-- The word `ston` alone is already too long for a version. -/
lemma fromPython_pyston (small : version.1.toNat < 10) :
    fromPython ("ston".toList ++ (displayVersion version).toList) = some (.pyston version) := by
  have length : 4 <= byteLength ("ston".toList ++ (displayVersion version).toList) := by
    have := length_le_byteLength ("ston".toList ++ (displayVersion version).toList)
    rw [length_append] at this
    have four : "ston".toList.length = 4 := rfl
    omega
  rw [fromPython]
  split
  next none => omega
  next one => omega
  next two => omega
  next three => omega
  next =>
    rw [dropPrefix?_append, bind_some, parseVersion_display small]
    rfl

/-- A tag that has been read is read back. -/
lemma fromStr_display (read : tag.IsRead) : fromStr tag.display = some tag := by
  cases tag with
  | none => rfl
  | python major minor =>
    cases minor with
    | none =>
      simp only [fromStr, display, String.toList_append, dropPrefix?_append]
      rw [if_neg (by simp), fromPython, byteLength_toString read, parseMajor_display read]
      rfl
    | some minor =>
      simp only [fromStr, display, String.toList_append, dropPrefix?_append]
      rw [if_neg (by simp)]
      exact fromPython_displayVersion read.1 read.2
  | cpython version =>
    have other : ("cp".toList ++ (displayVersion version).toList).dropPrefix? "py".toList =
      Option.none := rfl
    simp only [fromStr, display, String.toList_append, other, dropPrefix?_append]
    rw [if_neg (by simp)]
    exact fromCPython_displayVersion read.1 read.2
  | cpythonMajor major =>
    have other : ("cp".toList ++ (toString major.toNat).toList).dropPrefix? "py".toList =
      Option.none := rfl
    simp only [fromStr, display, String.toList_append, other, dropPrefix?_append]
    rw [if_neg (by simp), fromCPython, byteLength_toString read, parseMajor_display read]
    rfl
  | pypy version =>
    have python : ("pp".toList ++ (displayVersion version).toList).dropPrefix? "py".toList =
      Option.none := rfl
    have cpython : ("pp".toList ++ (displayVersion version).toList).dropPrefix? "cp".toList =
      Option.none := rfl
    simp only [fromStr, display, String.toList_append, python, cpython, dropPrefix?_append]
    rw [if_neg (by simp), parseVersion_display read]
    rfl
  | graalpy version =>
    have other : ∀ start, start = "py".toList \/ start = "cp".toList \/ start = "pp".toList ->
        ("graalpy".toList ++ (displayVersion version).toList).dropPrefix? start =
          Option.none := by
      rintro start (rfl | rfl | rfl) <;> rfl
    simp only [fromStr, display, String.toList_append, other, true_or, or_true, dropPrefix?_append]
    rw [if_neg (by simp), Option.bind_some, parseVersion_display read]
    rfl
  | pyston version =>
    have start : "pyston".toList = "py".toList ++ "ston".toList := rfl
    simp only [fromStr, display, String.toList_append, start, append_assoc, dropPrefix?_append]
    rw [if_neg (by simp)]
    exact fromPython_pyston read

/-- There are only letters, digits and underscores in the text. -/
lemma display_all_isWordChar (tag : LanguageTag) :
    tag.display.toList.all isWordChar := by
  cases tag with
  | none => decide
  | python major minor =>
    cases minor <;> rw [display, String.toList_append, all_append]
    · rw [toString_all_isWordChar]
      decide
    · rw [displayVersion_all_isWordChar]
      decide
  | cpythonMajor major =>
    rw [display, String.toList_append, all_append, toString_all_isWordChar]
    decide
  | cpython version | pypy version | graalpy version | pyston version =>
    rw [display, String.toList_append, all_append, displayVersion_all_isWordChar]
    decide

end LanguageTag

/-! ## ABI tags -/

namespace CPythonAbiVariants

variable (variant : CPythonAbiVariants)

/-- Set the flag of a letter, which must not be set already. -/
def insertChar (suffix : Char) : Option CPythonAbiVariants :=
  match suffix with
  | 't' => if variant.freethreading then none else some { variant with freethreading := true }
  | 'u' => if variant.wideUnicode then none else some { variant with wideUnicode := true }
  | 'd' => if variant.debug then none else some { variant with debug := true }
  | 'm' => if variant.pymalloc then none else some { variant with pymalloc := true }
  | _ => none

def ofSuffixes (suffixes : List Char) : Option CPythonAbiVariants :=
  suffixes.foldlM insertChar {}

/-- The order of the letters in the text is one of those that are accepted. -/
lemma ofSuffixes_display :
    ofSuffixes variant.display.toList = some variant := by
  rcases variant with ⟨freethreading, wideUnicode, debug, pymalloc⟩
  cases freethreading <;> cases wideUnicode <;> cases debug <;> cases pymalloc <;> rfl

lemma display_all :
    variant.display.toList.all (fun c => isWordChar c && !c.isDigit) := by
  rcases variant with ⟨freethreading, wideUnicode, debug, pymalloc⟩
  cases freethreading <;> cases wideUnicode <;> cases debug <;> cases pymalloc <;> decide

end CPythonAbiVariants

namespace AbiTag

/-- What follows `cp`: digits and the letters of the flags. -/
def fromCPython (cp : List Char) : Option AbiTag := do
  let version <- parseVersion (cp.takeWhile Char.isDigit)
  let variant <- CPythonAbiVariants.ofSuffixes (cp.dropWhile Char.isDigit)
  some (.cpython version variant)

variable (rest : List Char)

/-- What follows `pypy`. -/
def fromPyPy : Option AbiTag :=
  match rest.dropPrefix? "_".toList with
  | some rest => (parseVersion rest).map (.pypy Option.none)
  | Option.none => do
      let (version, rest) <- splitOnce '_' rest
      let version <- parseVersion version
      let rest <- rest.dropPrefix? "pp".toList
      let implementation <- parseVersion rest
      some (.pypy (some version) implementation)

/-- What follows `graalpy`. -/
def fromGraalPy : Option AbiTag := do
  let (implementation, rest) <- splitOnce '_' rest
  let implementation <- parseVersion implementation
  let (version, suffix) <- splitOnce '_' rest
  if suffix ≠ "native".toList then Option.none
  else do
    let version <- parseVersion version
    some (.graalpy version implementation)

/-- What follows `pyston`. -/
def fromPyston : Option AbiTag := do
  let rest <- rest.dropPrefix? "_".toList
  let rest <- rest.dropSuffix? "_x86_64_linux_gnu".toList
  let implementation <- parseVersion rest
  some (.pyston implementation)

def fromStr (text : String) : Option AbiTag :=
  let s := text.toList
  if s = "none".toList then some .none
  else if s = "abi3".toList then some .abi3
  else if s = "abi3t".toList then some .abi3t
  else
    match s.dropPrefix? "cp".toList with
    | some cp => fromCPython cp
    | Option.none =>
      match s.dropPrefix? "pypy".toList with
      | some rest => fromPyPy rest
      | Option.none =>
        match s.dropPrefix? "graalpy".toList with
        | some rest => fromGraalPy rest
        | Option.none => (s.dropPrefix? "pyston".toList).bind fromPyston

/-- The tags that come from text. -/
def IsRead : AbiTag -> Prop
  | .none | .abi3 | .abi3t => True
  | .cpython version _ => version.1.toNat < 10
  | .pypy version implementation =>
    (∀ some, version = Option.some some -> some.1.toNat < 10) /\ implementation.1.toNat < 10
  | .graalpy version implementation => version.1.toNat < 10 /\ implementation.1.toNat < 10
  | .pyston implementation => implementation.1.toNat < 10

variable {tag : AbiTag}

lemma isRead_of_fromPyPy {rest : List Char} (read : fromPyPy rest = some tag) :
    tag.IsRead := by
  rw [fromPyPy] at read
  split at read
  next =>
    rcases map_eq_some_iff.mp read with ⟨implementation, parsed, rfl⟩
    exact ⟨fun _ impossible => absurd impossible (some_ne_none _).symm, (parseVersion_lt parsed).1⟩
  next =>
    rcases bind_eq_some_iff.mp read with ⟨⟨version, rest⟩, _, read⟩
    rcases bind_eq_some_iff.mp read with ⟨version, parsed, read⟩
    rcases bind_eq_some_iff.mp read with ⟨rest, _, read⟩
    rcases bind_eq_some_iff.mp read with ⟨implementation, implementationParsed, read⟩
    cases read
    refine ⟨fun other same => ?_, (parseVersion_lt implementationParsed).1⟩
    exact some.inj same ▸ (parseVersion_lt parsed).1

lemma isRead_of_fromGraalPy {rest : List Char}
    (read : fromGraalPy rest = some tag) : tag.IsRead := by
  rcases bind_eq_some_iff.mp read with ⟨⟨implementation, rest⟩, _, read⟩
  rcases bind_eq_some_iff.mp read with ⟨implementation, implementationParsed, read⟩
  rcases bind_eq_some_iff.mp read with ⟨⟨version, suffix⟩, _, read⟩
  dsimp only at read
  split at read
  next => cases read
  next =>
    rcases bind_eq_some_iff.mp read with ⟨version, parsed, read⟩
    cases read
    exact ⟨(parseVersion_lt parsed).1, (parseVersion_lt implementationParsed).1⟩

lemma isRead_of_fromStr {text : String} (read : fromStr text = some tag) :
    tag.IsRead := by
  simp only [fromStr] at read
  split at read
  next =>
    cases read
    trivial
  split at read
  next =>
    cases read
    trivial
  split at read
  next =>
    cases read
    trivial
  split at read
  next =>
    rcases bind_eq_some_iff.mp read with ⟨version, parsed, read⟩
    rcases bind_eq_some_iff.mp read with ⟨variant, _, read⟩
    cases read
    exact (parseVersion_lt parsed).1
  split at read
  next => exact isRead_of_fromPyPy read
  split at read
  next => exact isRead_of_fromGraalPy read
  next =>
    rcases bind_eq_some_iff.mp read with ⟨rest, _, read⟩
    rcases bind_eq_some_iff.mp read with ⟨rest, _, read⟩
    rcases bind_eq_some_iff.mp read with ⟨rest, _, read⟩
    rcases bind_eq_some_iff.mp read with ⟨implementation, parsed, read⟩
    cases read
    exact (parseVersion_lt parsed).1

/-! ### Reading what is written -/

lemma underscore_not_mem_displayVersion (version : UInt8 × UInt8) :
    '_' ∉ (displayVersion version).toList := by
  intro inside
  exact absurd (isDigit_of_mem_displayVersion inside) (by decide)

lemma fromCPython_display (small : version.1.toNat < 10) (variant : CPythonAbiVariants) :
    fromCPython ((displayVersion version).toList ++ variant.display.toList) =
      some (.cpython version variant) := by
  have digits : ∀ c ∈ (displayVersion version).toList, c.isDigit :=
    fun _ => isDigit_of_mem_displayVersion
  have letters : variant.display.toList.takeWhile Char.isDigit = [] /\
      variant.display.toList.dropWhile Char.isDigit = variant.display.toList := by
    have all := variant.display_all
    cases text : variant.display.toList with
    | nil => exact ⟨rfl, rfl⟩
    | cons c rest =>
      rw [text, all_cons, Bool.and_eq_true, Bool.and_eq_true, Bool.not_eq_true'] at all
      simp only [takeWhile_cons, dropWhile_cons, all.1.2, Bool.false_eq_true, if_false, and_self]
  rw [fromCPython, takeWhile_append_of_pos digits, dropWhile_append_of_pos digits,
    letters.1, letters.2, append_nil, parseVersion_display small,
    CPythonAbiVariants.ofSuffixes_display]
  rfl

lemma fromPyPy_display {version implementation : UInt8 × UInt8} (small : version.1.toNat < 10)
    (implementationSmall : implementation.1.toNat < 10) :
    fromPyPy ((displayVersion version).toList ++ ("_pp".toList ++
      (displayVersion implementation).toList)) = some (.pypy (some version) implementation) := by
  have start : ((displayVersion version).toList ++ ("_pp".toList ++
      (displayVersion implementation).toList)).dropPrefix? "_".toList = Option.none := by
    cases found : ((displayVersion version).toList ++ ("_pp".toList ++
      (displayVersion implementation).toList)).dropPrefix? "_".toList with
    | none => rfl
    | some rest =>
      have same := eq_append_of_dropPrefix? found
      rw [displayVersion_toList small] at same
      have first := (cons.inj same).1
      exact absurd (first ▸ isDigit_digitChar small) (by decide)
  have cut : splitOnce '_' ((displayVersion version).toList ++ ("_pp".toList ++
      (displayVersion implementation).toList)) =
        some ((displayVersion version).toList, "pp".toList ++ (displayVersion implementation).toList) :=
    splitOnce_append _ (underscore_not_mem_displayVersion version)
  simp only [fromPyPy, start, cut, Option.bind_eq_bind, Option.bind_some,
    parseVersion_display small, dropPrefix?_append, parseVersion_display implementationSmall]

lemma fromGraalPy_display {version implementation : UInt8 × UInt8}
    (small : version.1.toNat < 10) (implementationSmall : implementation.1.toNat < 10) :
    fromGraalPy ((displayVersion implementation).toList ++ ("_".toList ++
      ((displayVersion version).toList ++ "_native".toList))) =
        some (.graalpy version implementation) := by
  have first : splitOnce '_' ((displayVersion implementation).toList ++ ("_".toList ++
      ((displayVersion version).toList ++ "_native".toList))) =
        some ((displayVersion implementation).toList,
          (displayVersion version).toList ++ "_native".toList) :=
    splitOnce_append _ (underscore_not_mem_displayVersion implementation)
  have second : splitOnce '_' ((displayVersion version).toList ++ "_native".toList) =
      some ((displayVersion version).toList, "native".toList) :=
    splitOnce_append _ (underscore_not_mem_displayVersion version)
  simp only [fromGraalPy, first, second, bind_eq_bind, bind_some,
    parseVersion_display implementationSmall, parseVersion_display small, ne_eq, not_true, if_false]

/-- A tag that has been read is read back. -/
lemma fromStr_display (read : tag.IsRead) : fromStr tag.display = some tag := by
  cases tag with
  | none | abi3 | abi3t => rfl
  | cpython version variant =>
    simp only [fromStr, display, String.toList_append, append_assoc, dropPrefix?_append]
    rw [if_neg (by simp), if_neg (by simp), if_neg (by simp)]
    exact fromCPython_display read variant
  | pypy version implementation =>
    have other : ∀ rest : List Char, ("pypy".toList ++ rest).dropPrefix? "cp".toList =
      Option.none := fun _ => rfl
    cases version with
    | none =>
      have start : "pypy_".toList = "pypy".toList ++ "_".toList := rfl
      simp only [fromStr, display, String.toList_append, start, append_assoc, other,
        dropPrefix?_append, fromPyPy, parseVersion_display read.2]
      rw [if_neg (by simp), if_neg (by simp), if_neg (by simp)]
      rfl
    | some version =>
      simp only [fromStr, display, String.toList_append, append_assoc, other, dropPrefix?_append]
      rw [if_neg (by simp), if_neg (by simp), if_neg (by simp)]
      exact fromPyPy_display (read.1 version rfl) read.2
  | graalpy version implementation =>
    have cpython : ∀ rest : List Char, ("graalpy".toList ++ rest).dropPrefix? "cp".toList =
      Option.none := fun _ => rfl
    have pypy : ∀ rest : List Char, ("graalpy".toList ++ rest).dropPrefix? "pypy".toList =
      Option.none := fun _ => rfl
    simp only [fromStr, display, String.toList_append, append_assoc, cpython, pypy,
      dropPrefix?_append]
    rw [if_neg (by simp), if_neg (by simp), if_neg (by simp)]
    exact fromGraalPy_display read.1 read.2
  | pyston implementation =>
    have other : ∀ start, start = "cp".toList \/ start = "pypy".toList \/
        start = "graalpy".toList -> ∀ rest : List Char,
        ("pyston".toList ++ rest).dropPrefix? start = Option.none := by
      rintro start (rfl | rfl | rfl) rest <;> rfl
    have start : "pyston_".toList = "pyston".toList ++ "_".toList := rfl
    simp only [fromStr, display, String.toList_append, start, append_assoc, other, true_or,
      or_true, dropPrefix?_append, fromPyston, Option.bind_some, Option.bind_eq_bind,
      dropSuffix?_append, parseVersion_display read]
    rw [if_neg (by simp), if_neg (by simp), if_neg (by simp)]

/-- There are only letters, digits and underscores in the text. -/
lemma display_all_isWordChar (tag : AbiTag) : tag.display.toList.all isWordChar := by
  cases tag with
  | none | abi3 | abi3t => decide
  | cpython version variant =>
    have flags : variant.display.toList.all isWordChar :=
      all_eq_true.mpr fun c inside =>
        (Bool.and_eq_true _ _ ▸ all_eq_true.mp variant.display_all c inside).1
    simp only [display, String.toList_append, all_append, displayVersion_all_isWordChar, flags]
    decide
  | pypy version implementation =>
    cases version <;>
      simp only [display, String.toList_append, all_append, displayVersion_all_isWordChar] <;>
      decide
  | graalpy version implementation | pyston implementation =>
    simp only [display, String.toList_append, all_append, displayVersion_all_isWordChar]
    decide

end AbiTag

end Uv.Platform
