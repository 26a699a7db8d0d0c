import Uv.Library.ByteText
import Uv.Pep440.Checked

namespace Uv.Pep440

open Library List

/-!
# The version parser

The parser scans bytes from left to right and fills in the components as it
goes.  Its position is kept as the bytes still to read, so moving back means
returning to an earlier state.  The source loops until a condition on the input
fails, and each round reads at least one byte, so the number of unread bytes
bounds the number of rounds.
-/

/-! ## Bytes -/

/-- The UTF-8 bytes of a text. -/
def asBytes (text : String) : List UInt8 :=
  text.toList.flatMap String.utf8EncodeChar

/-- The text of ASCII bytes. -/
def asciiText (bytes : List UInt8) : String :=
  String.ofList (bytes.map fun byte => Char.ofNat byte.toNat)

def startsWithIgnoreAsciiCase (needle haystack : List UInt8) : Bool :=
  needle.length <= haystack.length &&
    (needle.zip haystack).all fun pair => eqIgnoreAsciiCase pair.1 pair.2

/-! ## Errors -/

inductive ErrorKind where
  | wildcard
  | invalidDigit (got : UInt8)
  | numberTooBig (bytes : List UInt8)
  | noLeadingNumber
  | noLeadingReleaseNumber
  | localEmpty (precursor : UInt8)
  | unexpectedEnd (version remaining : List UInt8)
  deriving DecidableEq, Repr

/-- Errors of a version pattern.  `noRelease` stands for the assertion at the
end of the parser, which a successful scan never violates. -/
inductive PatternErrorKind where
  | version (err : ErrorKind)
  | wildcardNotTrailing
  | noRelease
  deriving DecidableEq, Repr

/-! ## Numbers -/

variable (left right : UInt64)

def checkedMul : Option UInt64 :=
  if left.toNat * right.toNat < 2 ^ 64 then some (left * right) else none

def checkedAdd : Option UInt64 :=
  if left.toNat + right.toNat < 2 ^ 64 then some (left + right) else none

/-- The loop of `parse_u64`.  The whole input is kept for the error. -/
def parseU64From (bytes : List UInt8) : UInt64 -> List UInt8 -> Except ErrorKind UInt64
  | n, [] => .ok n
  | n, byte :: rest =>
    if byte < 48 then .error (.invalidDigit byte)
    else if byte - 48 > 9 then .error (.invalidDigit byte)
    else
      match (checkedMul n 10).bind (checkedAdd · (byte - 48).toUInt64) with
      | none => .error (.numberTooBig bytes)
      | some n => parseU64From bytes n rest

def parseU64 (bytes : List UInt8) : Except ErrorKind UInt64 :=
  parseU64From bytes 0 bytes

/-! ## The state of the parser -/

structure Parser where
  unread : List UInt8
  epoch : UInt64
  release : List UInt64
  pre : Option Prerelease
  post : Option UInt64
  dev : Option UInt64
  localSegments : List LocalSegment
  wildcard : Bool
  deriving DecidableEq, Repr

structure VersionPattern where
  version : Version
  wildcard : Bool

namespace Parser

variable (version : List UInt8)

def new : Parser where
  unread := version
  epoch := 0
  release := []
  pre := none
  post := none
  dev := none
  localSegments := []
  wildcard := false

variable (parser : Parser)

def isDone : Bool := parser.unread.isEmpty

/-- Read a number of bytes. -/
def advance (count : Nat) : Parser :=
  { parser with unread := parser.unread.drop count }

def bumpWhile (predicate : UInt8 -> Bool) : List UInt8 × Parser :=
  let found := parser.unread.takeWhile predicate
  (found, parser.advance found.length)

/-- Read a text, whatever its case, if it comes next. -/
def bumpIf (string : String) : Option Parser :=
  if parser.isDone then none
  else if startsWithIgnoreAsciiCase (asBytes string) parser.unread then
    some (parser.advance (asBytes string).length)
  else none

/-- Read the first text of an ordered set that comes next. -/
def bumpIfStringSet {α : Type} (parser : Parser) : List (String × α) -> Option (α × Parser)
  | [] => none
  | (string, value) :: rest =>
    if startsWithIgnoreAsciiCase (asBytes string) parser.unread then
      some (value, parser.advance (asBytes string).length)
    else parser.bumpIfStringSet rest

/-- The separators allowed in several parts of a version. -/
def isSeparator (byte : UInt8) : Bool := byte == 46 || byte == 95 || byte == 45

/-- Read a separator if one comes next. -/
def bumpIfSeparator : Option (UInt8 × Parser) :=
  match parser.unread with
  | [] => none
  | byte :: _ => if isSeparator byte then some (byte, parser.advance 1) else none

/-- Move past a separator, if there is one. -/
def skipSeparator : Parser :=
  match parser.bumpIfSeparator with
  | some (_, parser) => parser
  | none => parser

def parseNumber : Except ErrorKind (Option UInt64 × Parser) :=
  let (digits, parser) := parser.bumpWhile isAsciiDigit
  if digits.isEmpty then .ok (none, parser)
  else do
    let n <- parseU64 digits
    if n = u64Max then .error (.numberTooBig digits) else .ok (some n, parser)

/-! ## Components -/

def parseEpochAndInitialRelease : Except ErrorKind Parser := do
  let (first, parser) <- parser.parseNumber
  match first with
  | none => .error .noLeadingNumber
  | some firstNumber =>
    match parser.bumpIf "!" with
    | none => .ok { parser with release := parser.release ++ [firstNumber] }
    | some parser =>
      let parser := { parser with epoch := firstNumber }
      let (second, parser) <- parser.parseNumber
      match second with
      | none => .error .noLeadingReleaseNumber
      | some n => .ok { parser with release := parser.release ++ [n] }

/-- The loop over the remaining release numbers.  When no number follows a dot,
the parser moves back by one byte, to the position before the dot. -/
def restOfReleaseLoop : Nat -> Parser -> Except ErrorKind Parser
  | 0, parser => .ok parser
  | rounds + 1, parser =>
    match parser.bumpIf "." with
    | none => .ok parser
    | some dotted => do
        let (number, dotted) <- dotted.parseNumber
        match number with
        | none => .ok parser
        | some n => restOfReleaseLoop rounds { dotted with release := dotted.release ++ [n] }

def parseRestOfRelease : Except ErrorKind Parser :=
  restOfReleaseLoop parser.unread.length parser

/-- A trailing wildcard, which must end the input. -/
def parseWildcard : Except PatternErrorKind (Bool × Parser) :=
  match parser.bumpIf ".*" with
  | none => .ok (false, parser)
  | some parser =>
    if !parser.isDone then .error .wildcardNotTrailing
    else .ok (true, { parser with wildcard := true })

/-- The spellings of a pre-release, in the order in which they are tried. -/
def preSpellings : List (String × PrereleaseKind) :=
  [("alpha", .alpha), ("beta", .beta), ("preview", .rc), ("pre", .rc), ("rc", .rc),
    ("a", .alpha), ("b", .beta), ("c", .rc)]

def parsePre : Except ErrorKind Parser :=
  match parser.skipSeparator.bumpIfStringSet preSpellings with
  | none => .ok parser
  | some (kind, parser) => do
      let (number, parser) <- parser.skipSeparator.parseNumber
      .ok { parser with pre := some { kind := kind, number := number.getD 0 } }

def postSpellings : List (String × Unit) := [("post", ()), ("rev", ()), ("r", ())]

/-- A post-release written as a word. -/
def parsePostWord : Except ErrorKind Parser :=
  match parser.skipSeparator.bumpIfStringSet postSpellings with
  | none => .ok parser
  | some (_, parser) => do
      let (number, parser) <- parser.skipSeparator.parseNumber
      .ok { parser with post := some (number.getD 0) }

/-- A post-release, either as a bare number after a hyphen or as a word. -/
def parsePost : Except ErrorKind Parser :=
  match parser.bumpIf "-" with
  | none => parser.parsePostWord
  | some dashed => do
      let (number, dashed) <- dashed.parseNumber
      match number with
      | some n => .ok { dashed with post := some n }
      | none => parser.parsePostWord

def parseDev : Except ErrorKind Parser :=
  match parser.skipSeparator.bumpIf "dev" with
  | none => .ok parser
  | some parser => do
      let (number, parser) <- parser.skipSeparator.parseNumber
      .ok { parser with dev := some (number.getD 0) }

/-- A run of letters and digits as a local segment. -/
def localSegment (run : List UInt8) : LocalSegment :=
  match parseU64 run with
  | .ok number => .number number
  | .error _ => .string (asciiText (run.map toAsciiLowercase))

/-- The loop over the local segments. -/
def localLoop : Nat -> UInt8 -> Parser -> Except ErrorKind Parser
  | 0, precursor, _ => .error (.localEmpty precursor)
  | rounds + 1, precursor, parser =>
    let (first, parser) := parser.bumpWhile isAsciiAlphanumeric
    if first.isEmpty then .error (.localEmpty precursor)
    else
      let parser := { parser with localSegments := parser.localSegments ++ [localSegment first] }
      match parser.bumpIfSeparator with
      | none => .ok parser
      | some (byte, parser) => localLoop rounds byte parser

def parseLocal : Except ErrorKind Parser :=
  match parser.bumpIf "+" with
  | none => .ok parser
  | some parser => localLoop (parser.unread.length + 1) 43 parser

/-! ## Whole versions -/

def intoPattern : Except PatternErrorKind VersionPattern :=
  if nonempty : parser.release = [] then .error .noRelease
  else
    .ok
      { version := ((((Version.new parser.release nonempty).withEpoch parser.epoch).withPre
          parser.pre).withPost parser.post).withDev parser.dev |>.withLocal
          (.segments parser.localSegments)
        wildcard := parser.wildcard }

/-- Errors of a version inside a pattern. -/
def liftError {α : Type} : Except ErrorKind α -> Except PatternErrorKind α
  | .ok value => .ok value
  | .error err => .error (.version err)

/-! ## The fast path -/

/-- Multiply by ten and add a digit, within a byte. -/
def pushDigit (cur digit : UInt8) : Option UInt8 :=
  if cur.toNat * 10 < 2 ^ 8 then
    if cur.toNat * 10 + digit.toNat < 2 ^ 8 then some (cur * 10 + digit) else none
  else none

/-- The loop of the fast parser: whether the last byte was a digit, the number
being read, and the numbers already stored, of which there is room for four. -/
def fastLoop : Bool -> UInt8 -> List UInt8 -> List UInt8 -> Option (List UInt8)
  | prevDigit, cur, release, [] =>
    if !prevDigit then none
    else if release.length < 4 then some (release ++ [cur])
    else none
  | prevDigit, cur, release, byte :: rest =>
    if byte = 46 then
      if !prevDigit then none
      else if release.length < 4 then fastLoop false 0 (release ++ [cur]) rest
      else none
    else if byte < 48 then none
    else if byte - 48 > 9 then none
    else
      match pushDigit cur (byte - 48) with
      | none => none
      | some cur => fastLoop true cur release rest

/-- A version that is written as at most four dotted numbers below 256. -/
def parseFast : Option (List UInt8) :=
  match version with
  | [major, 46, minor, 46, patch] =>
    if major - 48 <= 9 && minor - 48 <= 9 && patch - 48 <= 9 then
      some [major - 48, minor - 48, patch - 48]
    else fastLoop false 0 [] version
  | _ => fastLoop false 0 [] version

variable (release : List UInt8)

/-- The packed word of the fast parser.  Numbers that were not stored are zero. -/
def fromFastRelease : VersionInner :=
  .small
    { repr := ((release.getD 0 0).toUInt64 <<< 48) ||| ((release.getD 1 0).toUInt64 <<< 40) |||
        ((release.getD 2 0).toUInt64 <<< 32) ||| ((release.getD 3 0).toUInt64 <<< 24) |||
        (VersionSmall.suffixNone <<< VersionSmall.suffixVersionBitLen)
      len := release.length }

lemma length_fastLoop {prevDigit : Bool} {cur : UInt8} {release rest result : List UInt8}
    (found : fastLoop prevDigit cur release rest = some result) :
    1 <= result.length /\ result.length <= 4 := by
  fun_induction fastLoop prevDigit cur release rest with
  | case2 prevDigit cur release _ room =>
    cases found
    simp only [length_append, length_cons, length_nil]
    omega
  | case5 _ _ _ _ _ _ ih => exact ih found
  | case10 _ _ _ _ _ _ _ _ _ _ ih => exact ih found
  | _ => contradiction

lemma length_parseFast {version result : List UInt8} (found : parseFast version = some result) :
    1 <= result.length /\ result.length <= 4 := by
  unfold parseFast at found
  split at found
  · split at found
    · cases found
      simp
    · exact length_fastLoop found
  · exact length_fastLoop found

lemma pushRelease_byte {small : VersionSmall} (byte : UInt8) (room : small.len < 4) :
    small.pushRelease byte.toUInt64 =
      some
        { repr := small.repr ||| byte.toUInt64 <<< UInt64.ofNat (48 - small.len * 8)
          len := small.len + 1 } := by
  have bound : byte.toUInt64.toNat <= 255 := by
    rw [UInt8.toNat_toUInt64]
    have := byte.toNat_lt
    omega
  have low : ¬ byte.toUInt64 > 0xFFFF := by
    rw [gt_iff_lt, UInt64.lt_iff_toNat_lt]
    change ¬ 65535 < _
    omega
  have lower : ¬ byte.toUInt64 > 0xFF := by
    rw [gt_iff_lt, UInt64.lt_iff_toNat_lt]
    change ¬ 255 < _
    omega
  unfold VersionSmall.pushRelease
  by_cases first : small.len = 0
  · rw [if_pos first, if_neg low, first]
    rfl
  · rw [if_neg first, if_neg lower, if_neg (Nat.not_le.mpr room)]

lemma pushRelease_byte_inner (word : UInt64) (len : Nat) (byte : UInt8) (shift : UInt64)
    (room : len < 4) (place : UInt64.ofNat (48 - len * 8) = shift) :
    VersionInner.pushRelease (.small ⟨word, len⟩) byte.toUInt64 =
      .small ⟨word ||| byte.toUInt64 <<< shift, len + 1⟩ := by
  have pushed := @pushRelease_byte ⟨word, len⟩ byte room
  unfold VersionInner.pushRelease VersionInner.setOrMakeFull
  simp only [pushed, place]

/-- The fast path packs the word that the general builder packs. -/
lemma fromFastRelease_eq {release : List UInt8} (nonempty : 1 <= release.length)
    (fits : release.length <= 4) :
    fromFastRelease release =
      (release.map UInt8.toUInt64).foldl VersionInner.pushRelease
        (VersionInner.clearRelease (.small .new)) := by
  have cleared : VersionInner.clearRelease (.small .new) =
      .small ⟨VersionSmall.suffixNone <<< VersionSmall.suffixVersionBitLen, 0⟩ := by decide
  have second : (0 : UInt8).toUInt64 <<< (40 : UInt64) = 0 := by decide
  have third : (0 : UInt8).toUInt64 <<< (32 : UInt64) = 0 := by decide
  have fourth : (0 : UInt8).toUInt64 <<< (24 : UInt64) = 0 := by decide
  rw [cleared]
  unfold fromFastRelease
  generalize VersionSmall.suffixNone <<< VersionSmall.suffixVersionBitLen = suffix
  -- The pushed numbers are the bytes of the word from the top down.
  match release with
  | [_] | [_, _] | [_, _, _] | [_, _, _, _] =>
    simp only [map_cons, map_nil, foldl_cons, foldl_nil,
      pushRelease_byte_inner _ 0 _ 48 (by decide) rfl,
      pushRelease_byte_inner _ (0 + 1) _ 40 (by decide) rfl,
      pushRelease_byte_inner _ (0 + 1 + 1) _ 32 (by decide) rfl,
      pushRelease_byte_inner _ (0 + 1 + 1 + 1) _ 24 (by decide) rfl, getD_cons_zero,
      getD_cons_succ, getD_nil, second, third, fourth, UInt64.or_zero]
    first
    | rw [UInt64.or_comm, <- UInt64.or_assoc, <- UInt64.or_assoc, <- UInt64.or_assoc]
    | rw [UInt64.or_comm, <- UInt64.or_assoc, <- UInt64.or_assoc]
    | rw [UInt64.or_comm, <- UInt64.or_assoc]
    | rw [UInt64.or_comm]
    rfl

/-- The version of a successful fast parse. -/
def fastVersion (nonempty : 1 <= release.length) (fits : release.length <= 4) : Version where
  inner := fromFastRelease release
  packed := by
    rw [fromFastRelease_eq nonempty fits]
    exact (@VersionInner.replaceRelease_spec (.small .new) VersionSmall.new_packed _).1
  nonempty := by
    rw [fromFastRelease_eq nonempty fits, VersionInner.release_eq,
      (@VersionInner.replaceRelease_spec (.small .new) VersionSmall.new_packed _).2]
    intro empty
    rw [List.map_eq_nil_iff.mp empty] at nonempty
    cases nonempty

/-! ## Entry points -/

/-- The general parser, after the fast path gave up. -/
def parseSlow : Except PatternErrorKind VersionPattern := do
  let parser := ((new version).bumpWhile isAsciiWhitespace).2
  let parser := (parser.bumpIf "v").getD parser
  let parser <- liftError parser.parseEpochAndInitialRelease
  let parser <- liftError parser.parseRestOfRelease
  let (wildcard, parser) <- parser.parseWildcard
  if wildcard then parser.intoPattern
  else
    let parser <- liftError parser.parsePre
    let parser <- liftError parser.parsePost
    let parser <- liftError parser.parseDev
    let parser <- liftError parser.parseLocal
    let parser := (parser.bumpWhile isAsciiWhitespace).2
    if !parser.isDone then
      .error (.version (.unexpectedEnd
        (version.take (version.length - parser.unread.length)) parser.unread))
    else parser.intoPattern

def parsePattern : Except PatternErrorKind VersionPattern :=
  match found : parseFast version with
  | some release =>
    .ok
      { version := fastVersion release (length_parseFast found).1 (length_parseFast found).2
        wildcard := false }
  | none => parseSlow version

def parse : Except ErrorKind Version :=
  match parsePattern version with
  | .ok pattern => if pattern.wildcard then .error .wildcard else .ok pattern.version
  | .error (.version err) => .error err
  | .error .wildcardNotTrailing => .error .wildcard
  | .error .noRelease => .error .noLeadingNumber

end Parser

def Version.fromStr (version : String) : Except ErrorKind Version :=
  Parser.parse (asBytes version)

def VersionPattern.fromStr (version : String) : Except PatternErrorKind VersionPattern :=
  Parser.parsePattern (asBytes version)

end Uv.Pep440
