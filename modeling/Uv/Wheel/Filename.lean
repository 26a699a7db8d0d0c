import Uv.Cache.Key
import Uv.Platform.Tags

namespace Uv.Wheel

open Pep440
open Platform

/-!
# Wheel filenames

A wheel filename has a name, a version and a compatibility tag.  Most tags
have one part each.  The others keep the text of the filename, because tags
that are not supported are dropped when the filename is read.

The parsers of the single components are parameters of the reader; platform
tags are values of an arbitrary type with a text.
-/

structure WheelTagSmall (P : Type) where
  pythonTag : LanguageTag
  abiTag : AbiTag
  platformTag : P

/-- A number, and the text that follows it. -/
structure BuildTag where
  number : UInt64
  suffix : Option String
  deriving DecidableEq, Repr

/-- The tag of a filename with several parts, a build tag or a variant label. -/
structure WheelTagLarge (P : Type) where
  buildTag : Option BuildTag
  pythonTag : List LanguageTag
  abiTag : List AbiTag
  platformTag : List P
  variant : Option String
  repr : String
  /-- The text is cut between the components of the tag. -/
  repr_dash : '-' ∈ repr.toList

inductive WheelTag (P : Type) where
  | small (tag : WheelTagSmall P)
  | large (tag : WheelTagLarge P)

namespace WheelTag

variable {P : Type}

def pythonTags : WheelTag P -> List LanguageTag
  | .small tag => [tag.pythonTag]
  | .large tag => tag.pythonTag

def abiTags : WheelTag P -> List AbiTag
  | .small tag => [tag.abiTag]
  | .large tag => tag.abiTag

def platformTags : WheelTag P -> List P
  | .small tag => [tag.platformTag]
  | .large tag => tag.platformTag

def variant : WheelTag P -> Option String
  | .small _ => none
  | .large tag => tag.variant

def display [ToString P] : WheelTag P -> String
  | .small tag => tag.pythonTag.display ++ "-" ++ tag.abiTag.display ++ "-" ++ toString tag.platformTag
  | .large tag => tag.repr

lemma display_dash [ToString P] (tag : WheelTag P) : '-' ∈ tag.display.toList := by
  cases tag with
  | small tag => simp [display]
  | large tag => exact tag.repr_dash

end WheelTag

/-- A wheel filename.  Its version has been read from text. -/
structure WheelFilename (P : Type) where
  name : String
  version : Version
  tags : WheelTag P
  spelled : version.Spelled

/-- A filename from its components. -/
def WheelFilename.new {P : Type} (name : String) (version : Version) (spelled : version.Spelled)
    (pythonTag : LanguageTag) (abiTag : AbiTag) (platformTag : P) : WheelFilename P :=
  ⟨name, version, .small ⟨pythonTag, abiTag, platformTag⟩, spelled⟩

/-- The wheel is accepted by an interpreter with the given tags. -/
def WheelFilename.isCompatible {P : Type} [DecidableEq P] (wheel : WheelFilename P)
    (tags : Tags P) : Bool :=
  wheel.tags.variant.isNone &&
    tags.isCompatible wheel.tags.pythonTags wheel.tags.abiTags wheel.tags.platformTags

/-! ## Reading a filename -/

inductive WheelFilenameError where
  | invalidWheelFileName (filename message : String)
  | invalidPackageName (filename : String)
  | invalidVersion (filename : String) (error : ErrorKind)
  | invalidBuildTag (filename : String)
  | invalidVariantLabel (filename : String)

/-- The parsers of the components of a filename. -/
structure Readers (P : Type) where
  packageName : String -> Option String
  languageTag : String -> Option LanguageTag
  abiTag : String -> Option AbiTag
  platformTag : String -> Option P
  buildTag : String -> Option BuildTag
  variantLabel : String -> Option String

/-- The components after the version, by their roles. -/
structure TagTexts where
  buildTag : Option String
  pythonTag : String
  abiTag : String
  platformTag : String
  variant : Option String
  /-- All three tags have one part, and there is nothing else. -/
  isSmall : Bool

def startsWithDigit (text : String) : Bool :=
  match text.toList with
  | [] => false
  | c :: _ => c.isDigit

/-- Assign the components after the version to their roles. -/
def tagTexts : List String -> Option TagTexts
  | [python, abi, platform] =>
    some ⟨none, python, abi, platform, none,
      !(python.toList ++ abi.toList ++ platform.toList).contains '.'⟩
  | [first, second, third, fourth] =>
    if !startsWithDigit first then some ⟨none, first, second, third, some fourth, false⟩
    else some ⟨some first, second, third, fourth, none, false⟩
  | [build, python, abi, platform, variant] =>
    some ⟨some build, python, abi, platform, some variant, false⟩
  | _ => none

/-- The parts between the delimiters.  After a delimiter at the end there is none. -/
def memchrSplit (text : List Char) (delimiter : Char) : List (List Char) :=
  let parts := text.splitOn delimiter
  if parts.getLast? = some [] then parts.dropLast else parts

/-- The supported tags among the parts of a component. -/
def parseLargeTagComponent {τ : Type} (read : String -> Option τ) (component filename : String) :
    Except WheelFilenameError (List τ) :=
  let tags := memchrSplit component.toList '.'
  if !component.isEmpty && tags.all fun tag => !tag.isEmpty && tag.all isWordChar then
    .ok (tags.filterMap fun tag => read (String.ofList tag))
  else
    .error (.invalidWheelFileName filename
      "Tag components must contain only ASCII letters, digits, underscores, and periods")

section

variable {P : Type}

/-- The components after the version, with the dashes between them. -/
def reprText (components : List String) : String := String.intercalate "-" components

lemma reprText_dash {components : List String} {texts : TagTexts}
    (found : tagTexts components = some texts) : '-' ∈ (reprText components).toList := by
  match components, found with
  | first :: second :: rest, _ =>
    simp only [reprText, String.intercalate_cons_cons]
    simp

/-- Read a component if it is there. -/
def parseOptional {τ : Type} (read : String -> Option τ) (error : WheelFilenameError) :
    Option String -> Except WheelFilenameError (Option τ)
  | none => .ok none
  | some text =>
    match read text with
    | none => .error error
    | some value => .ok (some value)

variable (readers : Readers P)

/-- The tag if all its components are supported and there is nothing else. -/
def parseSmall (texts : TagTexts) : Option (WheelTagSmall P) :=
  if texts.isSmall then do
    let python <- readers.languageTag texts.pythonTag
    let abi <- readers.abiTag texts.abiTag
    let platform <- readers.platformTag texts.platformTag
    some ⟨python, abi, platform⟩
  else none

def parseTags (filename : String) (components : List String)
    (texts : TagTexts) (found : tagTexts components = some texts) :
    Except WheelFilenameError (WheelTag P) := do
  let buildTag <- parseOptional readers.buildTag (.invalidBuildTag filename) texts.buildTag
  let variant <- parseOptional readers.variantLabel (.invalidVariantLabel filename) texts.variant
  match parseSmall readers texts with
  | some tag => pure (.small tag)
  | none =>
    let python <- parseLargeTagComponent readers.languageTag texts.pythonTag filename
    let abi <- parseLargeTagComponent readers.abiTag texts.abiTag filename
    let platform <- parseLargeTagComponent readers.platformTag texts.platformTag filename
    pure (.large ⟨buildTag, python, abi, platform, variant, reprText components,
      reprText_dash found⟩)

def parse (stem filename : String) :
    Except WheelFilenameError (WheelFilename P) :=
  match (stem.toList.splitOn '-').map String.ofList with
  | name :: version :: components =>
    match found : tagTexts components with
    | none =>
      .error (.invalidWheelFileName filename (match components.length with
        | 0 => "Must have a Python tag"
        | 1 => "Must have an ABI tag"
        | 2 => "Must have a platform tag"
        | _ => "Must have 5 to 7 components, but has more"))
    | some texts =>
      if startsWithDigit texts.pythonTag then
        .error (.invalidWheelFileName filename "Python tag must not start with a digit")
      else
        match readers.packageName name with
        | none => .error (.invalidPackageName filename)
        | some name =>
          match accepted : Version.fromStr version with
          | .error err => .error (.invalidVersion filename err)
          | .ok version =>
            match parseTags readers filename components texts found with
            | .error err => .error err
            | .ok tags => .ok ⟨name, version, tags, Version.fromStr_spelled accepted⟩
  | _ => .error (.invalidWheelFileName filename "Must have a version")

end

end Uv.Wheel
