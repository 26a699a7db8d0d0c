import Uv.Library.ByteText

namespace Uv.Client

open Library List

/-!
# Cache control directives

The `Cache-Control` header may be given several times.  Its values are read as directives
separated by commas, and the directives are collected into one record.  A header value
that cannot be read and a directive that is given twice both stand for `must-revalidate`.
-/

structure CacheControlDirective where
  name : String
  value : List UInt8
  deriving DecidableEq

def CacheControlDirective.mustRevalidate : CacheControlDirective := ⟨"must-revalidate", []⟩

/-! ## Reading a header value -/

variable (byte : UInt8)

/-- The bytes of a token: letters, digits and some punctuation. -/
def isTokenByte : Bool :=
  byte ∈ [33, 35, 36, 37, 38, 39, 42, 43, 45, 46, 94, 95, 96, 124, 126] || isAsciiAlphanumeric byte

/-- A byte of a quoted string that stands for itself. -/
def isQdtextByte : Bool :=
  byte = 9 || byte = 32 || byte = 0x21 || (0x23 <= byte && byte <= 0x5B) ||
    (0x5D <= byte && byte <= 0x7E) || 0x80 <= byte

/-- A byte that may follow a backslash in a quoted string. -/
def isQuotedPairByte : Bool :=
  byte = 9 || byte = 32 || (0x21 <= byte && byte <= 0x7E) || 0x80 <= byte

variable (cur : List UInt8)

def skipWhitespace : List UInt8 := cur.dropWhile isAsciiWhitespace

def parseToken : Option (List UInt8 × List UInt8) :=
  if cur.takeWhile isTokenByte = [] then none
  else some (cur.takeWhile isTokenByte, cur.dropWhile isTokenByte)

/-- The rest of a quoted string whose opening quote has been read. -/
def parseQuotedString (value : List UInt8) : List UInt8 -> Option (List UInt8 × List UInt8)
  | [] => none
  | byte :: cur =>
    if byte = 34 then some (value, cur)
    else if byte = 92 then
      match cur with
      | [] => none
      | escaped :: cur =>
        if isQuotedPairByte escaped then parseQuotedString (value ++ [escaped]) cur else none
    else if isQdtextByte byte then parseQuotedString (value ++ [byte]) cur
    else none

def parseValue : List UInt8 -> Option (List UInt8 × List UInt8)
  | [] => none
  | byte :: cur => if byte = 34 then parseQuotedString [] cur else parseToken (byte :: cur)

/-- Skip whitespace and one comma. -/
def skipDelimiter : List UInt8 :=
  match skipWhitespace cur with
  | byte :: rest => if byte = 44 then rest else byte :: rest
  | [] => []

/-- The name of a directive, in lower case. -/
def directiveName (token : List UInt8) : String :=
  String.ofList (token.map fun byte => Char.ofNat (toAsciiLowercase byte).toNat)

/-- The directives that were read, and the names that were seen. -/
abbrev Emitted := List CacheControlDirective × List String

def emitRevalidation (seen : List String) : Emitted :=
  if "must-revalidate" ∈ seen then ([], seen)
  else ([CacheControlDirective.mustRevalidate], "must-revalidate" :: seen)

def emitDirective (directive : CacheControlDirective) (seen : List String) : Emitted :=
  if directive.name ∈ seen then emitRevalidation seen
  else ([directive], directive.name :: seen)

/-- The name and the value at the start of a header value, and what is left.  Nothing is
returned if the rest of the header value has to be skipped. -/
def parseDirective : Option (CacheControlDirective × List UInt8) :=
  match parseToken (skipWhitespace cur) with
  | none => none
  | some (token, rest) =>
    if rest.head? = some 61 then
      match parseValue rest.tail with
      | none => none
      | some (value, rest) => some (⟨directiveName token, value⟩, skipDelimiter rest)
    else some (⟨directiveName token, []⟩, skipDelimiter rest)

variable {cur : List UInt8}

lemma length_parseToken {token rest : List UInt8}
    (parsed : parseToken cur = some (token, rest)) : rest.length < cur.length := by
  unfold parseToken at parsed
  split at parsed
  next => cases parsed
  next nonempty =>
    cases parsed
    have whole := congrArg length (@takeWhile_append_dropWhile _ isTokenByte cur)
    have positive := length_pos_of_ne_nil nonempty
    rw [length_append] at whole
    omega

lemma suffix_parseQuotedString {value found rest : List UInt8}
    (parsed : parseQuotedString value cur = some (found, rest)) : rest <:+ cur := by
  fun_induction parseQuotedString value cur with
  | case2 =>
    cases parsed
    exact suffix_cons _ _
  | case4 _ _ _ _ _ ih => exact (ih parsed).trans ((suffix_cons _ _).trans (suffix_cons _ _))
  | case6 _ _ _ _ _ _ ih => exact (ih parsed).trans (suffix_cons _ _)
  | _ => cases parsed

lemma length_parseValue {value rest : List UInt8}
    (parsed : parseValue cur = some (value, rest)) : rest.length <= cur.length := by
  cases cur with
  | nil => cases parsed
  | cons byte cur =>
    rw [parseValue] at parsed
    split at parsed
    · exact ((suffix_parseQuotedString parsed).trans (suffix_cons _ _)).length_le
    · exact Nat.le_of_lt (length_parseToken parsed)

lemma suffix_skipDelimiter (cur : List UInt8) : skipDelimiter cur <:+ cur := by
  have within : skipWhitespace cur <:+ cur := dropWhile_suffix _
  unfold skipDelimiter
  split
  next byte rest found =>
    rw [found] at within
    split
    · exact (suffix_cons _ _).trans within
    · exact within
  next => exact nil_suffix

/-- A directive takes up at least one byte. -/
lemma length_parseDirective {rest : List UInt8} {directive : CacheControlDirective}
    (parsed : parseDirective cur = some (directive, rest)) : rest.length < cur.length := by
  unfold parseDirective at parsed
  have start : (skipWhitespace cur).length <= cur.length := (dropWhile_suffix _).length_le
  split at parsed
  next => cases parsed
  next token tail found =>
    have shorter := length_parseToken found
    split at parsed
    · split at parsed
      next => cases parsed
      next value after valued =>
        cases parsed
        have behind := length_parseValue valued
        have last := (suffix_skipDelimiter after).length_le
        rw [length_tail] at behind
        omega
    · cases parsed
      have last := (suffix_skipDelimiter tail).length_le
      omega

/-- The directives of one header value. -/
def parseHeader (cur : List UInt8) (seen : List String) : Emitted :=
  if cur = [] then ([], seen)
  else
    match _ : parseDirective cur with
    | none => if skipWhitespace cur = [] then ([], seen) else emitRevalidation seen
    | some (directive, rest) =>
      let first := emitDirective directive seen
      let others := parseHeader rest first.2
      (first.1 ++ others.1, others.2)
termination_by cur.length
decreasing_by exact length_parseDirective (by assumption)

/-- The directives of all values of the header. -/
def parseHeaders : List (List UInt8) -> List String -> List CacheControlDirective
  | [], _ => []
  | header :: headers, seen =>
    let first := parseHeader header seen
    first.1 ++ parseHeaders headers first.2

/-! ## Collecting the directives -/

/-- The directives that the cache policy reads. -/
structure CacheControl where
  noCache : Bool
  noStore : Bool
  mustRevalidate : Bool
  isPrivate : Bool
  isPublic : Bool
  immutable : Bool
  maxAgeSeconds : Option Nat
  maxStaleSeconds : Option Nat
  minFreshSeconds : Option Nat
  sMaxageSeconds : Option Nat
  deriving DecidableEq

def CacheControl.empty : CacheControl := ⟨false, false, false, false, false, false, none, none, none, none⟩

/-- The largest number of seconds, `u64::MAX`. -/
def maxSeconds : Nat := 2 ^ 64 - 1

def parseInt (value : List UInt8) : Option Nat :=
  if value ≠ [] /\ value.all isAsciiDigit = true then
    let number := value.foldl (fun number byte => 10 * number + (byte.toNat - 48)) 0
    if number <= maxSeconds then some number else none
  else none

/-- A directive with a number of seconds.  A number that cannot be read forces
revalidation. -/
def withSeconds (cc : CacheControl) (seconds : Option Nat)
    (set : Nat -> CacheControl) : CacheControl :=
  match seconds with
  | none => { cc with mustRevalidate := true }
  | some seconds => set seconds

def collectDirective (cc : CacheControl) (ccd : CacheControlDirective) : CacheControl :=
  match ccd.name with
  | "max-age" => withSeconds cc (parseInt ccd.value) fun seconds =>
    { cc with maxAgeSeconds := some seconds }
  | "no-cache" => { cc with noCache := true }
  | "no-store" => { cc with noStore := true }
  | "max-stale" =>
    withSeconds cc (if ccd.value = [] then some maxSeconds else parseInt ccd.value)
      fun seconds => { cc with maxStaleSeconds := some seconds }
  | "min-fresh" => withSeconds cc (parseInt ccd.value) fun seconds =>
    { cc with minFreshSeconds := some seconds }
  | "must-revalidate" => { cc with mustRevalidate := true }
  | "private" => { cc with isPrivate := true }
  | "public" => { cc with isPublic := true }
  | "s-maxage" => withSeconds cc (parseInt ccd.value) fun seconds =>
    { cc with sMaxageSeconds := some seconds }
  | "immutable" => { cc with immutable := true }
  | _ => cc

/-- The directives of a header that is given any number of times. -/
def cacheControl (headers : List (List UInt8)) : CacheControl :=
  (parseHeaders headers []).foldl collectDirective CacheControl.empty

end Uv.Client
