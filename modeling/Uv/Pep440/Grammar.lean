import Uv.Library.Regex
import Uv.Pep440.Parser

namespace Uv.Pep440

open Library
open Library.Regex

/-!
# The grammar of PEP 440, Appendix B

The standard gives the flexible form of a version as a regular expression, and
reads the components off its groups.  The expression is written here as data,
with its alternatives in the order of the standard; letters match in either
case.  `Components` is what the standard assigns to a match, with numbers of any
size and local segments as texts.
-/

namespace Grammar

inductive Group where
  | epoch
  | release
  | preL
  | preN
  | postN1
  | postL
  | postN2
  | devL
  | devN
  | localText
  deriving DecidableEq, Repr

/-- A word in either case. -/
def word (text : String) : Regex Group UInt8 :=
  literal ((asBytes text).map eqIgnoreAsciiCase)

def digits : Regex Group UInt8 := plus (.chars isAsciiDigit)

def separator : Regex Group UInt8 := .chars Parser.isSeparator

def isDot (byte : UInt8) : Bool := byte == 46

def epoch : Regex Group UInt8 := .seq (.group .epoch digits) (word "!")

def release : Regex Group UInt8 :=
  .group .release (.seq digits (.star (.seq (.chars isDot) digits)))

/-- A separator, a word, a separator and a number, of which only the word has
to be present. -/
def suffix (words : List String) (letters number : Group) : Regex Group UInt8 :=
  .seq (.opt separator) (.seq (.group letters (oneOf (words.map word)))
    (.seq (.opt separator) (.opt (.group number digits))))

def preWords : List String := ["a", "b", "c", "rc", "alpha", "beta", "pre", "preview"]

def postWords : List String := ["post", "rev", "r"]

def pre : Regex Group UInt8 := suffix preWords .preL .preN

def post : Regex Group UInt8 :=
  .alt (.seq (word "-") (.group .postN1 digits)) (suffix postWords .postL .postN2)

def dev : Regex Group UInt8 := suffix ["dev"] .devL .devN

def localVersion : Regex Group UInt8 :=
  .seq (word "+") (.group .localText
    (.seq (plus (.chars isAsciiAlphanumeric))
      (.star (.seq separator (plus (.chars isAsciiAlphanumeric))))))

/-- The version pattern of Appendix B. -/
def version : Regex Group UInt8 :=
  .seq (.opt (word "v")) (.seq (.opt epoch) (.seq release (.seq (.opt pre) (.seq (.opt post)
    (.seq (.opt dev) (.opt localVersion))))))

/-! ## Components of a match -/

/-- The value of a run of digits. -/
def decimal (digits : List UInt8) : Nat :=
  digits.foldl (fun value digit => value * 10 + (digit - 48).toNat) 0

/-- The maximal pieces of a text without a separator. -/
def fields (separates : UInt8 -> Bool) : List UInt8 -> List (List UInt8)
  | [] => [[]]
  | byte :: rest =>
    if separates byte then [] :: fields separates rest
    else
      match fields separates rest with
      | [] => [[byte]]
      | field :: others => (byte :: field) :: others

/-- The kind of a pre-release, from any of its spellings. -/
def preKind (letters : List UInt8) : PrereleaseKind :=
  let lower := letters.map toAsciiLowercase
  if lower = asBytes "a" \/ lower = asBytes "alpha" then .alpha
  else if lower = asBytes "b" \/ lower = asBytes "beta" then .beta
  else .rc

@[ext] structure Components where
  epoch : Nat
  release : List Nat
  pre : Option (PrereleaseKind × Nat)
  post : Option Nat
  dev : Option Nat
  localTexts : List (List UInt8)
  deriving DecidableEq, Repr

/-- The components that the standard reads off a match.  A number that is not
written is zero, and a local version is split at its separators. -/
def components (caps : Captures Group UInt8) : Components where
  epoch := (caps .epoch).elim 0 decimal
  release := (caps .release).elim [] fun text => (fields isDot text).map decimal
  pre := (caps .preL).map fun letters => (preKind letters, (caps .preN).elim 0 decimal)
  post :=
    match caps .postN1 with
    | some number => some (decimal number)
    | none => (caps .postL).map fun _ => (caps .postN2).elim 0 decimal
  dev := (caps .devL).map fun _ => (caps .devN).elim 0 decimal
  localTexts := (caps .localText).elim [] (fields Parser.isSeparator)

namespace Components

/-- The limit of the parser for every number outside the local version. -/
def limit : Nat := 2 ^ 64 - 1

/-- Every number outside the local version is below the limit. -/
def NumbersFit (parts : Components) : Prop :=
  parts.epoch < limit /\ (∀ number ∈ parts.release, number < limit) /\
    (∀ kind number, parts.pre = some (kind, number) -> number < limit) /\
    (∀ number, parts.post = some number -> number < limit) /\
    (∀ number, parts.dev = some number -> number < limit)

/-- A stored local segment for a text.  Runs of digits are stored as numbers
when they fit in 64 bits; everything else is stored in lower case. -/
def SegmentDenotes (segment : LocalSegment) (text : List UInt8) : Prop :=
  match segment with
  | .number value => text.all isAsciiDigit = true /\ decimal text = value.toNat
  | .string stored =>
    stored = asciiText (text.map toAsciiLowercase) /\
      (text.all isAsciiDigit = true -> 2 ^ 64 <= decimal text)

/-- The record holds the components, and nothing else. -/
structure Denotes (parts : Components) (record : VersionFull) : Prop where
  epoch : record.epoch.toNat = parts.epoch
  release : record.release.map UInt64.toNat = parts.release
  pre : record.pre.map (fun pre => (pre.kind, pre.number.toNat)) = parts.pre
  post : record.post.map UInt64.toNat = parts.post
  dev : record.dev.map UInt64.toNat = parts.dev
  localVersion : ∃ segments, record.localVersion = .segments segments /\
    List.Forall₂ SegmentDenotes segments parts.localTexts
  min : record.min = none
  max : record.max = none

end Components

/-- A text without the whitespace at its ends. -/
def trim (text : List UInt8) : List UInt8 :=
  ((text.dropWhile isAsciiWhitespace).reverse.dropWhile isAsciiWhitespace).reverse

end Grammar

end Uv.Pep440
