import Uv.Normalize.PackageName
import Uv.Platform.PlatformTag
import Uv.Wheel.Filename

namespace Uv.Wheel

open Library Library.Text List String
open Normalize Pep440 Platform

/-!
# Writing and reading wheel filenames

With the readers of the components, a filename is read from its text and written again.
The name, the version and simple tags are written in their normal forms, and other tags
as they were.  What is written is read as the same filename.
-/

/-! ## The components -/

def isBuildTagByte (c : Char) : Bool := c.isAlphanum || c == '_' || c == '.'

/-- Digits for a number, and what follows. -/
def BuildTag.fromStr (s : String) : Option BuildTag :=
  let text := s.toList
  if text = [] then none
  else if !text.all isBuildTagByte then none
  else if text.takeWhile Char.isDigit = [] then none
  else
    (parseUnsigned (2 ^ 64) (text.takeWhile Char.isDigit)).map fun number =>
      { number := UInt64.ofNat number
        suffix := match text.dropWhile Char.isDigit with
          | [] => none
          | suffix => some (String.ofList suffix) }

def VariantLabel.fromStr (label : String) : Option String :=
  if label.isEmpty then none
  else if label.toList.all fun c => c.isLower || c.isDigit || c == '.' || c == '_' then some label
  else none

def wheelReaders : Readers PlatformTag where
  packageName := PackageName.fromStr
  languageTag := LanguageTag.fromStr
  abiTag := AbiTag.fromStr
  platformTag := PlatformTag.fromStr
  buildTag := BuildTag.fromStr
  variantLabel := VariantLabel.fromStr

instance : ToString PlatformTag := ⟨PlatformTag.display⟩

/-! ## Filenames -/

namespace WheelFilename

def fromStr (filename : String) : Except WheelFilenameError (WheelFilename PlatformTag) :=
  match filename.toList.dropSuffix? ".whl".toList with
  | none => .error (.invalidWheelFileName filename "Must end with .whl")
  | some stem => parse wheelReaders (String.ofList stem) filename

variable (wheel : WheelFilename PlatformTag)

def stem : String :=
  PackageName.asDistInfoName wheel.name ++ "-" ++ wheel.version.display ++ "-" ++
    wheel.tags.display

def display : String := wheel.stem ++ ".whl"

/-- Versions are equal if neither is before the other; all else is compared as it is
stored. -/
structure Same (left right : WheelFilename PlatformTag) : Prop where
  name : left.name = right.name
  version : left.version.cmp right.version = .eq
  tags : left.tags = right.tags

end WheelFilename

/-! ## What has been read -/

variable {components : List String} {texts : TagTexts} {stem : String}

section

variable {P : Type} {readers : Readers P}

/-- The parts of a stem that is accepted.  The filename only occurs in errors. -/
structure Parsed (readers : Readers P) (stem : String) (wheel : WheelFilename P)
    (name version : String) (components : List String) (texts : TagTexts) : Prop where
  split : (stem.toList.splitOn '-').map String.ofList = name :: version :: components
  found : tagTexts components = some texts
  letter : startsWithDigit texts.pythonTag = false
  nameRead : readers.packageName name = some wheel.name
  versionRead : Version.fromStr version = .ok wheel.version
  tagsRead : ∀ filename, parseTags readers filename components texts found = .ok wheel.tags

lemma parseOptional_filename {τ : Type} {read : String -> Option τ}
    {error other : WheelFilenameError} {text : Option String} {value : Option τ}
    (accepted : parseOptional read error text = .ok value) :
    parseOptional read other text = .ok value := by
  cases text with
  | none => exact accepted
  | some text =>
    simp only [parseOptional] at accepted ⊢
    cases found : read text with
    | none => rw [found] at accepted; cases accepted
    | some value => rw [found] at accepted; exact accepted

variable {filename : String}

lemma parseLargeTagComponent_filename {τ : Type} {read : String -> Option τ}
    {component other : String} {tags : List τ}
    (accepted : parseLargeTagComponent read component filename = .ok tags) :
    parseLargeTagComponent read component other = .ok tags := by
  unfold parseLargeTagComponent at accepted ⊢
  dsimp only at accepted ⊢
  split at accepted
  next valid => rw [if_pos valid]; exact accepted
  next => cases accepted

variable {found : tagTexts components = some texts}

lemma parseTags_filename {tags : WheelTag P}
    (accepted : parseTags readers filename components texts found = .ok tags) (other : String) :
    parseTags readers other components texts found = .ok tags := by
  rcases of_bind_ok accepted with ⟨buildTag, build, accepted⟩
  rcases of_bind_ok accepted with ⟨variant, label, accepted⟩
  simp only [parseTags, parseOptional_filename build, parseOptional_filename label, bind,
    Except.bind]
  split at accepted
  next tag small => exact accepted
  next =>
    rcases of_bind_ok accepted with ⟨python, pythonRead, accepted⟩
    rcases of_bind_ok accepted with ⟨abi, abiRead, accepted⟩
    rcases of_bind_ok accepted with ⟨platform, platformRead, accepted⟩
    rw [parseLargeTagComponent_filename pythonRead, parseLargeTagComponent_filename abiRead,
      parseLargeTagComponent_filename platformRead]
    exact accepted

variable {wheel : WheelFilename P}

lemma exists_parsed (accepted : parse readers stem filename = .ok wheel) :
    ∃ name version, ∃ components texts,
      Parsed readers stem wheel name version components texts := by
  rw [parse] at accepted
  split at accepted
  next name version components split =>
    split at accepted
    next => cases accepted
    next texts found =>
      split at accepted
      next => cases accepted
      next letter =>
        split at accepted
        next => cases accepted
        next package nameRead =>
          split at accepted
          next => cases accepted
          next read versionRead =>
            split at accepted
            next => cases accepted
            next tags tagsRead =>
              cases accepted
              exact ⟨name, version, components, texts, split, found, Bool.eq_false_iff.mpr letter,
                nameRead, versionRead, parseTags_filename tagsRead⟩
  next => cases accepted

lemma Parsed.parse {name version : String}
    (parsed : Parsed readers stem wheel name version components texts) (filename : String) :
    parse readers stem filename = .ok wheel := by
  rw [Wheel.parse, parsed.split]
  dsimp only
  split
  next none => exact absurd (none.symm.trans parsed.found) (Option.some_ne_none _).symm
  next other found =>
    cases found.symm.trans parsed.found
    rw [if_neg (Bool.eq_false_iff.mp parsed.letter), parsed.nameRead]
    dsimp only
    split
    next error refused => cases refused.symm.trans parsed.versionRead
    next read versionRead =>
      cases versionRead.symm.trans parsed.versionRead
      rw [parsed.tagsRead filename]

/-- Either the tag has one supported part for each component, or its text is kept. -/
lemma parseTags_cases {tags : WheelTag P}
    (accepted : parseTags readers filename components texts found = .ok tags) :
    (∃ small, parseSmall readers texts = some small /\ tags = .small small) \/
      ∃ large, tags = .large large /\ large.repr = reprText components := by
  rcases of_bind_ok accepted with ⟨buildTag, _, accepted⟩
  rcases of_bind_ok accepted with ⟨variant, _, accepted⟩
  split at accepted
  next small read =>
    cases accepted
    exact .inl ⟨small, read, rfl⟩
  next =>
    rcases of_bind_ok accepted with ⟨python, _, accepted⟩
    rcases of_bind_ok accepted with ⟨abi, _, accepted⟩
    rcases of_bind_ok accepted with ⟨platform, _, accepted⟩
    cases accepted
    exact .inr ⟨_, rfl, rfl⟩

end

/-! ## Reading what is written -/

/-- The text of a version has no dash. -/
lemma dash_not_mem_version {version : Version} (spelled : version.Spelled) :
    '-' ∉ version.display.toList := by
  intro inside
  have byte : 45 ∈ asBytes version.display := mem_flatMap.mpr ⟨'-', inside, by decide⟩
  have printed := all_eq_true.mp (Version.display_printed spelled) 45 byte
  exact (Scan.isPrinted_ascii printed).2 rfl

/-- A stem is cut into its name, its version and the parts of its tag. -/
lemma splitOn_stem (wheel : WheelFilename PlatformTag)
    (tags : wheel.tags.display = reprText components) (nonempty : components ≠ [])
    (separate : ∀ component ∈ components, '-' ∉ component.toList) :
    (wheel.stem.toList.splitOn '-').map String.ofList =
      PackageName.asDistInfoName wheel.name :: wheel.version.display :: components := by
  have text : wheel.stem.toList = (PackageName.asDistInfoName wheel.name).toList ++ '-' ::
      (wheel.version.display.toList ++ '-' :: ['-'].intercalate (components.map String.toList)) := by
    simp only [WheelFilename.stem, String.toList_append, tags, reprText, String.toList_intercalate,
      List.append_assoc]
    rfl
  have pieces : ∀ piece ∈ components.map String.toList, '-' ∉ piece := by
    intro piece member
    rcases List.mem_map.mp member with ⟨component, mem, rfl⟩
    exact separate component mem
  rw [text, List.splitOn_append_cons_self_of_not_mem
      (PackageName.dash_not_mem_asDistInfoName wheel.name),
    List.splitOn_append_cons_self_of_not_mem (dash_not_mem_version wheel.spelled),
    List.splitOn_intercalate _ pieces (by simpa using nonempty)]
  simp only [List.map_cons, String.ofList_toList, List.map_map, Function.comp_def, List.map_id']

lemma dash_not_mem_of_all {text : List Char} (all : text.all isWordChar) :
    '-' ∉ text /\ '.' ∉ text :=
  ⟨fun inside => absurd (all_eq_true.mp all _ inside) (by decide),
    fun inside => absurd (all_eq_true.mp all _ inside) (by decide)⟩

/-- No language tag starts with a digit. -/
lemma startsWithDigit_display (tag : LanguageTag) : startsWithDigit tag.display = false := by
  cases tag with
  | none => rfl
  | python major minor =>
    cases minor <;> simp only [LanguageTag.display, startsWithDigit, toList_append] <;> rfl
  | cpython version | pypy version | graalpy version | pyston version | cpythonMajor major =>
    simp only [LanguageTag.display, startsWithDigit, toList_append]
    rfl

section

variable {wheel : WheelFilename PlatformTag}

/-- A supported tag is read back from its text. -/
lemma exists_tags_small {small : WheelTagSmall PlatformTag}
    (read : parseSmall wheelReaders texts = some small) :
    ∃ components texts, ∃ found : tagTexts components = some texts,
        (WheelTag.small small).display = reprText components /\ components ≠ [] /\
          (∀ component ∈ components, '-' ∉ component.toList) /\
          startsWithDigit texts.pythonTag = false /\
          ∀ filename, parseTags wheelReaders filename components texts found =
            .ok (.small small) := by
  rw [parseSmall] at read
  split at read
  next =>
    rcases Option.bind_eq_some_iff.mp read with ⟨python, pythonRead, read⟩
    rcases Option.bind_eq_some_iff.mp read with ⟨abi, abiRead, read⟩
    rcases Option.bind_eq_some_iff.mp read with ⟨platform, platformRead, read⟩
    cases read
    have pythonWord := dash_not_mem_of_all python.display_all_isWordChar
    have abiWord := dash_not_mem_of_all abi.display_all_isWordChar
    have platformWord := dash_not_mem_of_all platform.display_all_isWordChar
    refine ⟨[python.display, abi.display, platform.display],
      ⟨none, python.display, abi.display, platform.display, none, true⟩, ?_, ?_,
      List.cons_ne_nil _ _, ?_, startsWithDigit_display python, fun filename => ?_⟩
    · have single : (python.display.toList ++ abi.display.toList ++
          platform.display.toList).contains '.' = false := by
        rw [Bool.eq_false_iff, ne_eq, List.contains_iff_mem, List.mem_append, List.mem_append]
        exact fun inside => inside.elim (fun first => first.elim pythonWord.2 abiWord.2)
          platformWord.2
      rw [tagTexts, single]
      rfl
    · simp only [WheelTag.display, reprText, String.intercalate_cons_cons,
        String.intercalate_singleton, String.append_assoc]
      rfl
    · simp only [List.forall_mem_cons]
      exact ⟨pythonWord.1, abiWord.1, platformWord.1, List.forall_mem_nil _⟩
    · have python := LanguageTag.fromStr_display (LanguageTag.isRead_of_fromStr pythonRead)
      have abi := AbiTag.fromStr_display (AbiTag.isRead_of_fromStr abiRead)
      have platform := PlatformTag.fromStr_display (PlatformTag.isRead_of_fromStr platformRead)
      simp only [parseTags, parseOptional, parseSmall, wheelReaders, python, abi, platform]
      rfl
  next => cases read

variable {name version : String}

/-- The text of any other tag is cut into the components that it was made of. -/
lemma Parsed.dash_not_mem {P : Type} {readers : Readers P} {wheel : WheelFilename P}
    (parsed : Parsed readers stem wheel name version components texts) {component : String}
    (mem : component ∈ components) : '-' ∉ component.toList := by
  have member : component ∈ (stem.toList.splitOn '-').map ofList := by
    rw [parsed.split]
    exact mem_cons_of_mem _ (mem_cons_of_mem _ mem)
  rcases mem_map.mp member with ⟨piece, inside, rfl⟩
  rw [toList_ofList]
  exact not_mem_of_mem_splitOn inside

lemma exists_tags (parsed : Parsed wheelReaders stem wheel name version components texts) :
    ∃ components texts, ∃ found : tagTexts components = some texts,
        wheel.tags.display = reprText components /\ components ≠ [] /\
          (∀ component ∈ components, '-' ∉ component.toList) /\
          startsWithDigit texts.pythonTag = false /\
          ∀ filename, parseTags wheelReaders filename components texts found =
            .ok wheel.tags := by
  rcases parseTags_cases (parsed.tagsRead "") with ⟨small, read, isSmall⟩ | ⟨large, isLarge, repr⟩
  · rw [isSmall]
    exact exists_tags_small read
  · refine ⟨components, texts, parsed.found, ?_, ?_, fun _ => parsed.dash_not_mem, parsed.letter,
      parsed.tagsRead⟩
    · rw [isLarge, <- repr]
      rfl
    · rintro rfl
      cases parsed.found

/-- Versions with the same parts are equal. -/
lemma cmp_of_record {left right : Version} (same : left.record = right.record) :
    left.cmp right = .eq := by
  rw [Version.cmp_orderedBy, Version.key, Version.key, same]
  exact compare_eq_iff_eq.mpr rfl

/-- A filename that is accepted is written such that it is read as the same one. -/
theorem WheelFilename.fromStr_display_same {filename : String} (accepted : fromStr filename = .ok wheel) :
    ∃ again, fromStr wheel.display = .ok again /\ again.Same wheel := by
  rw [fromStr] at accepted
  split at accepted
  next => cases accepted
  rcases exists_parsed accepted with ⟨name, version, components, texts, parsed⟩
  rcases exists_tags parsed with ⟨parts, roles, found, text, nonempty, separate, letter, read⟩
  rcases Version.fromStr_display wheel.spelled with ⟨versionAgain, versionRead, record⟩
  let again : WheelFilename PlatformTag :=
    ⟨wheel.name, versionAgain, wheel.tags, Version.fromStr_spelled versionRead⟩
  have parsedAgain : Parsed wheelReaders wheel.stem again
      (PackageName.asDistInfoName wheel.name) wheel.version.display parts roles :=
    { split := splitOn_stem wheel text nonempty separate
      found := found
      letter := letter
      nameRead := PackageName.fromStr_asDistInfoName parsed.nameRead
      versionRead := versionRead
      tagsRead := read }
  refine ⟨again, ?_, rfl, cmp_of_record record, rfl⟩
  rw [fromStr, display, toList_append, dropSuffix?_append]
  dsimp only
  rw [ofList_toList]
  exact parsedAgain.parse _

/-- A simple tag, and one with a build tag, several parts and a variant. -/
theorem WheelFilename.fromStr_display_same_example :
    (∃ wheel, fromStr "Foo.Bar-1.0-py309-none-any.whl" = .ok wheel /\
      ∃ again, fromStr wheel.display = .ok again /\ again.Same wheel) /\
    ∃ wheel, fromStr "foo-1.0.0-1a-py2.py3.-none-any-x86.whl" = .ok wheel /\
      ∃ again, fromStr wheel.display = .ok again /\ again.Same wheel := by
  have accepted : ∀ filename, (fromStr filename).toBool = true ->
      ∃ wheel, fromStr filename = .ok wheel := by
    intro filename ok
    cases result : fromStr filename with
    | error error => rw [result] at ok; cases ok
    | ok wheel => exact ⟨wheel, rfl⟩
  constructor
  · rcases accepted "Foo.Bar-1.0-py309-none-any.whl" (by decide +kernel) with ⟨wheel, read⟩
    exact ⟨wheel, read, fromStr_display_same read⟩
  · rcases accepted "foo-1.0.0-1a-py2.py3.-none-any-x86.whl" (by decide +kernel) with ⟨wheel, read⟩
    exact ⟨wheel, read, fromStr_display_same read⟩

end

end Uv.Wheel
