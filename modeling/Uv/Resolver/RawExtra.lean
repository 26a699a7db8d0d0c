import Uv.Library.Text
import Uv.Normalize.PackageName
import Uv.Resolver.UniversalMarker

namespace Uv.Resolver

open Library.Text Normalize Marker

/-!
# Extras that stand for conflict items

The extra of a conflict item consists of its kind, the length of the package name and the
names, joined by dashes.  Names contain dashes as well, and digits between them, so it is the
length that tells where the package name ends.
-/

/-! ## Reading -/

inductive ConflictMarkerError where
  | invalidExtraInConflictMarker (reason : String) (rawExtra : ExtraName)
  | invalidValueInConflictMarker (kind : String) (name : String)

inductive ParsedRawExtra where
  | project (package : String)
  | extra (package extra : String)
  | group (package group : String)

/-- The first bytes and the others, unless a character or the end lies across the cut. -/
def splitAtChecked : Nat -> List Char -> Option (List Char × List Char)
  | 0, text => some ([], text)
  | _ + 1, [] => none
  | len, c :: rest =>
    if c.utf8Size <= len then
      (splitAtChecked (len - c.utf8Size) rest).map fun parts => (c :: parts.1, parts.2)
    else none

namespace ParsedRawExtra

/-- The last part of `parse`, where the package name has been cut off. -/
def ofKind (rawExtra : ExtraName) (kind package : String) (tail : List Char) :
    Except ConflictMarkerError ParsedRawExtra :=
  if kind = "project" then .ok (.project package)
  else if kind = "extra" \/ kind = "group" then
    match tail with
    | '-' :: tail =>
      if kind = "extra" then .ok (.extra package (String.ofList tail))
      else .ok (.group package (String.ofList tail))
    | _ => .error (.invalidExtraInConflictMarker
        ("expected `-` after package name `" ++ package ++ "`") rawExtra)
  else .error (.invalidExtraInConflictMarker
    ("unrecognized kind `" ++ kind ++ "` (must be `extra` or `group`)") rawExtra)

def parse (rawExtra : ExtraName) : Except ConflictMarkerError ParsedRawExtra :=
  match splitOnce '-' rawExtra.toList with
  | none => .error (.invalidExtraInConflictMarker
      "expected to find leading `package`, `extra-` or `group-`" rawExtra)
  | some (kind, tail) =>
    match splitOnce '-' tail with
    | none => .error (.invalidExtraInConflictMarker
        "expected to find `\x7bnumber\x7d-` after leading `package-`, `extra-` or `group-`" rawExtra)
    | some (digits, tail) =>
      match parseUnsigned (2 ^ 64) digits with
      | none => .error (.invalidExtraInConflictMarker ("found package length number `" ++
          String.ofList digits ++ "`, but could not parse into integer") rawExtra)
      | some len =>
        match splitAtChecked len tail with
        | none => .error (.invalidExtraInConflictMarker ("expected at least " ++ toString len ++
            " bytes for package name, but found " ++ toString (String.utf8Len tail)) rawExtra)
        | some (package, tail) => ofKind rawExtra (String.ofList kind) (String.ofList package) tail

def package : ParsedRawExtra -> String
  | .project package | .extra package _ | .group package _ => package

/-- Names of all kinds are validated in the same way. -/
def readName (kind name : String) : Except ConflictMarkerError String :=
  match PackageName.fromStr name with
  | none => .error (.invalidValueInConflictMarker kind name)
  | some name => .ok name

def toConflictItem (raw : ParsedRawExtra) : Except ConflictMarkerError ConflictItem := do
  let package <- readName "package" raw.package
  match raw with
  | .project _ => return ⟨package, .project⟩
  | .extra _ name => return ⟨package, .extra (<- readName "extra" name)⟩
  | .group _ name => return ⟨package, .group (<- readName "group" name)⟩

end ParsedRawExtra

open ParsedRawExtra

/-! ## What has been written -/

/-- The name has been validated, and its length is a machine word. -/
structure IsName (name : String) : Prop where
  read : ∃ text, PackageName.fromStr text = some name
  fits : name.utf8ByteSize < 2 ^ 64

def ConflictItem.IsNamed (item : ConflictItem) : Prop :=
  IsName item.package /\
    match item.kind with
    | .extra name | .group name => IsName name
    | .project => True

lemma splitAtChecked_append (first rest : List Char) :
    splitAtChecked (String.utf8Len first) (first ++ rest) = some (first, rest) := by
  induction first with
  | nil => rw [splitAtChecked.eq_def]; rfl
  | cons c first ih =>
    have positive := c.utf8Size_pos
    rw [String.utf8Len_cons, List.cons_append, splitAtChecked.eq_def]
    split
    next zero _ => omega
    next nothing => cases nothing
    next _ _ _ _ same _ =>
      cases same
      rw [if_pos (Nat.le_add_left _ _), Nat.add_sub_cancel, ih, Option.map_some]

section

variable {name : String} (isName : IsName name)

include isName

lemma IsName.fromStr_self : PackageName.fromStr name = some name /\ Plain name.toList := by
  rcases isName.read with ⟨text, read⟩
  exact PackageName.plain_of_fromStr read

lemma IsName.readName_self (kind : String) : readName kind name = .ok name := by
  rw [readName, isName.fromStr_self.1]

end

/-- The item is written as a kind, the length and name of the package, and the rest. -/
structure Encoding (item : ConflictItem) (kind : String) (rest : List Char) : Prop where
  text : (encodeConflictItem item).toList = kind.toList ++
    '-' :: (decimal item.package.utf8ByteSize ++ '-' :: (item.package.toList ++ rest))
  isWord : '-' ∉ kind.toList /\ Plain kind.toList
  starts : ∀ text, normalizeFrom none (kind.toList ++ text) =
    normalizeFrom (some 'a') (kind.toList ++ text)
  plain : Plain (item.package.toList ++ rest)
  reads : ∀ raw,
    (ofKind raw kind item.package rest).bind toConflictItem = .ok item

variable {item : ConflictItem}

lemma exists_encoding (named : item.IsNamed) :
    ∃ kind rest, Encoding item kind rest := by
  rcases item with ⟨package, kind⟩
  rcases named with ⟨isPackage, isName⟩
  have plain := isPackage.fromStr_self.2
  have read := isPackage.readName_self "package"
  cases kind with
  | extra name =>
    refine ⟨"extra", '-' :: name.toList, ?_, ⟨by decide, fun _ => rfl⟩, fun _ => rfl,
      plain.join isName.fromStr_self.2, fun raw => ?_⟩
    · simp [encodeConflictItem, encodePackageExtra, decimal]
    · simp [ofKind, Except.bind, toConflictItem,
        ParsedRawExtra.package, read, isName.readName_self]
      rfl
  | group name =>
    refine ⟨"group", '-' :: name.toList, ?_, ⟨by decide, fun _ => rfl⟩, fun _ => rfl,
      plain.join isName.fromStr_self.2, fun raw => ?_⟩
    · simp [encodeConflictItem, encodePackageGroup, decimal]
    · simp [ofKind, Except.bind, toConflictItem,
        ParsedRawExtra.package, read, isName.readName_self]
      rfl
  | project =>
    refine ⟨"project", [], ?_, ⟨by decide, fun _ => rfl⟩, fun _ => rfl,
      (List.append_nil _).symm ▸ plain, fun raw => ?_⟩
    · simp [encodeConflictItem, encodeProject, decimal]
    · simp [ofKind, Except.bind, toConflictItem,
        ParsedRawExtra.package, read]

lemma Encoding.parse {kind : String} {rest : List Char} (encoding : Encoding item kind rest)
    (isPackage : IsName item.package) :
    parse (encodeConflictItem item) =
      ofKind (encodeConflictItem item) kind item.package rest := by
  have length : String.utf8Len item.package.toList = item.package.utf8ByteSize := by
    rw [<- String.utf8ByteSize_ofList, String.ofList_toList]
  have absent : '-' ∉ decimal item.package.utf8ByteSize := not_mem_decimal (by decide)
  have cut := splitAtChecked_append item.package.toList rest
  rw [length] at cut
  simp only [ParsedRawExtra.parse, encoding.text, splitOnce_append _ encoding.isWord.1,
    splitOnce_append _ absent, parseUnsigned_decimal isPackage.fits, cut, String.ofList_toList]

lemma Encoding.fromStr_self {kind : String} {rest : List Char} (encoding : Encoding item kind rest) :
    PackageName.fromStr (encodeConflictItem item) = some (encodeConflictItem item) := by
  have digits : Plain (decimal item.package.utf8ByteSize) :=
    plain_of_digits (decimal_ne_nil _) fun _ => isDigit_of_mem_decimal
  have whole := encoding.isWord.2.join (digits.join encoding.plain) 'a'
  have nonempty : (encodeConflictItem item).toList ≠ [] := by
    rw [encoding.text]
    exact List.append_ne_nil_of_right_ne_nil _ (List.cons_ne_nil _ _)
  rw [<- encoding.starts, <- encoding.text] at whole
  rw [PackageName.fromStr, validateAndNormalizeRef_eq, Normalize.normalize, if_neg nonempty, whole,
    Option.map_some, String.ofList_toList]

lemma parse_encodeConflictItem (named : item.IsNamed) :
    (parse (encodeConflictItem item)).bind toConflictItem = .ok item := by
  rcases exists_encoding named with ⟨kind, rest, encoding⟩
  rw [encoding.parse named.1]
  exact encoding.reads _

lemma encodeConflictItem_inj (named : item.IsNamed) {other : ConflictItem} (named' : other.IsNamed)
    (same : encodeConflictItem other = encodeConflictItem item) : other = item := by
  have read := parse_encodeConflictItem named'
  rw [same, parse_encodeConflictItem named] at read
  exact (Except.ok.inj read).symm

/-- An encoded item is a valid extra, and is read back.  So different items, and items of
different kinds, have different extras. -/
theorem toConflictItem_encodeConflictItem (named : item.IsNamed) :
    PackageName.fromStr (encodeConflictItem item) = some (encodeConflictItem item) /\
      (parse (encodeConflictItem item)).bind toConflictItem = .ok item /\
      ∀ other : ConflictItem, other.IsNamed ->
        encodeConflictItem other = encodeConflictItem item -> other = item := by
  rcases exists_encoding named with ⟨kind, rest, encoding⟩
  exact ⟨encoding.fromStr_self, parse_encodeConflictItem named,
    fun _ named' => encodeConflictItem_inj named named'⟩

/-- The package name contains digits and dashes that could be taken for the length. -/
theorem toConflictItem_encodeConflictItem_dashes :
    let item : ConflictItem := ⟨"a-1-b", .extra "c-2-d"⟩
    (parse (encodeConflictItem item)).bind toConflictItem = .ok item := by
  have isPackage : IsName "a-1-b" := ⟨⟨"A_1.b", by decide +kernel⟩, by decide +kernel⟩
  have isExtra : IsName "c-2-d" := ⟨⟨"c-2-d", by decide +kernel⟩, by decide +kernel⟩
  exact (toConflictItem_encodeConflictItem ⟨isPackage, isExtra⟩).2.1

end Uv.Resolver
