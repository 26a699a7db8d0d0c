import Uv.Cache.Key
import Uv.Library.Encoding
import Uv.Pep440.Specifier

namespace Uv

open Library List
open Pep440 Version

/-!
# Cache keys of requirements

The build requirements of a package are part of the key under which its build
is cached.  The model below feeds what the source feeds, in its order.  Markers
enter through their text, paths through what their hash feeds and through their
display text; all three are parameters.

A requirement is determined by what it feeds up to two things: the star of `==`
and `!=`, which the text of an operator does not show, and the format of an index.
Its marker is determined if no other marker has the same text.
-/

namespace Cache

/-! ## What versions feed -/

/-- A list behind its length. -/
def writeList {α : Type} (write : α -> List UInt8) (list : List α) : List UInt8 :=
  writeUsize list.length ++ list.flatMap write

/-- A value that may be absent, behind one byte. -/
def writeTagged {α : Type} (write : α -> List UInt8) (value : Option α) : List UInt8 :=
  value.elim [0] fun inner => 1 :: write inner

def prereleaseKind : PrereleaseKind -> UInt8
  | .alpha => 0
  | .beta => 1
  | .rc => 2

def prerelease (pre : Prerelease) : List UInt8 :=
  writeU8 (prereleaseKind pre.kind) ++ writeU64 pre.number

def localSegment : LocalSegment -> List UInt8
  | .string text => 0 :: writeStr text
  | .number number => 1 :: writeU64 number

def localVersion : LocalVersion -> List UInt8
  | .segments list => 0 :: writeList localSegment list
  | .max => [1]

def version (version : Version) : List UInt8 :=
  writeU64 version.epoch ++ (writeList writeU64 version.release ++
    (writeTagged prerelease version.pre ++ (writeTagged writeU64 version.post ++
      (writeTagged writeU64 version.dev ++ localVersion version.localVersion))))

def specifier (spec : VersionSpecifier) : List UInt8 :=
  writeStr spec.operator.asStr ++ version spec.version

/-! ## Requirements -/

inductive IndexFormat where
  | simple
  | flat
  deriving DecidableEq, Repr

structure IndexMetadata where
  url : String
  format : IndexFormat
  deriving DecidableEq, Repr

/-- A source.  The conflict item of a registry source is not part of the key. -/
inductive RequirementSource (Path : Type) where
  | registry (specifier : VersionSpecifiers) (index : Option IndexMetadata)
  | url (location : String) (subdirectory : Option Path) (ext verbatim : String)
  | gitDirectory (git : String) (lfs : Bool) (subdirectory : Option Path) (verbatim : String)
  | gitPath (git : String) (lfs : Bool) (installPath : Path) (ext verbatim : String)
  | path (installPath : Path) (ext verbatim : String)
  | directory (installPath : Path) (editable isVirtual : Option Bool) (verbatim : String)

/-- A version in a specifier: no bound of the resolver, and sizes that fit in a
machine word. -/
structure PlainVersion (version : Version) : Prop where
  release : version.release.length < 2 ^ 64
  localVersion : ∀ list, version.localVersion = .segments list -> list.length < 2 ^ 64
  min : version.min = none
  max : version.max = none

def RequirementSource.Plain {Path : Type} : RequirementSource Path -> Prop
  | .registry specifier _ => specifier.specifiers.length < 2 ^ 64 /\
      ∀ spec ∈ specifier.specifiers, PlainVersion spec.version
  | _ => True

/-- A requirement with markers and paths of any type. -/
structure Requirement (Marker Path : Type) where
  name : String
  extras : List String
  groups : List String
  marker : Marker
  source : RequirementSource Path
  extras_fit : extras.length < 2 ^ 64
  groups_fit : groups.length < 2 ^ 64
  source_plain : source.Plain

/-- How markers and paths are fed. -/
structure Texts (Marker Path : Type) where
  /-- The text of a marker, absent for the one that is always true. -/
  contents : Marker -> Option String
  display : Path -> String
  hash : Path -> List UInt8

/-- An optional flag is fed with the marks of `Option`, which are words. -/
def optionalFlag : Option Bool -> List UInt8
  | none => writeUsize 0
  | some flag => writeUsize 1 ++ writeU8 flag.toUInt64.toUInt8

section

variable {Marker Path : Type} (texts : Texts Marker Path)

/-- The mark of a repository with large files; nothing otherwise. -/
def lfsMark (lfs : Bool) : List UInt8 := if lfs then writeU8 1 else []

def RequirementSource.cacheKey : RequirementSource Path -> List UInt8
  | .registry specifier' index =>
    0 :: (writeList specifier specifier'.specifiers ++
      writeTagged (fun index => writeStr index.url) index)
  | .url location subdirectory ext verbatim =>
    1 :: (writeStr location ++ (writeTagged (fun dir => writeStr (texts.display dir)) subdirectory ++
      (writeStr ext ++ writeStr verbatim)))
  | .gitDirectory git lfs subdirectory verbatim =>
    2 :: (writeStr git ++ (writeTagged (fun dir => writeStr (texts.display dir)) subdirectory ++
      (lfsMark lfs ++ writeStr verbatim)))
  | .gitPath git lfs installPath ext verbatim =>
    5 :: (writeStr git ++ (texts.hash installPath ++ (writeStr ext ++ (lfsMark lfs ++ writeStr verbatim))))
  | .path installPath ext verbatim => 3 :: (texts.hash installPath ++ (writeStr ext ++ writeStr verbatim))
  | .directory installPath editable isVirtual verbatim =>
    4 :: (texts.hash installPath ++ (optionalFlag editable ++ (optionalFlag isVirtual ++ writeStr verbatim)))

/-- The bytes that a requirement feeds. -/
def Requirement.cacheKey (requirement : Requirement Marker Path) : List UInt8 :=
  writeStr requirement.name ++ (writeList writeStr requirement.groups ++
    (writeList writeStr requirement.extras ++
      (writeTagged writeStr (texts.contents requirement.marker) ++
        requirement.source.cacheKey texts)))

end

/-! ## What can be cut off again -/

lemma toLeBytes_length (n : UInt64) : (toLeBytes n).length = 8 := by
  rw [toLeBytes, length_map, length_range]

/-- One byte of a word. -/
lemma toNat_byte (n : UInt64) {i : Nat} (inside : i < 8) :
    ((n >>> (8 * i).toUInt64).toUInt8).toNat = n.toNat / 2 ^ (8 * i) % 256 := by
  have shift : (8 * i).toUInt64.toNat % 64 = 8 * i := by
    rw [show (8 * i).toUInt64.toNat = 8 * i from UInt64.toNat_ofNat_of_lt' (by rw [UInt64.size]; omega)]
    exact Nat.mod_eq_of_lt (by omega)
  rw [UInt64.toNat_toUInt8, UInt64.toNat_shiftRight, shift, Nat.shiftRight_eq_div_pow]

lemma toLeBytes_injective {left right : UInt64} (same : toLeBytes left = toLeBytes right) :
    left = right := by
  have bytes : ∀ i, i < 8 -> left.toNat / 2 ^ (8 * i) % 256 = right.toNat / 2 ^ (8 * i) % 256 := by
    intro i inside
    rw [<- toNat_byte left inside, <- toNat_byte right inside,
      map_inj_left.mp same i (mem_range.mpr inside)]
  have leftBound := left.toNat_lt
  have rightBound := right.toNat_lt
  have b0 := bytes 0 (by decide)
  have b1 := bytes 1 (by decide)
  have b2 := bytes 2 (by decide)
  have b3 := bytes 3 (by decide)
  have b4 := bytes 4 (by decide)
  have b5 := bytes 5 (by decide)
  have b6 := bytes 6 (by decide)
  have b7 := bytes 7 (by decide)
  norm_num at b0 b1 b2 b3 b4 b5 b6 b7
  apply UInt64.toNat_inj.mp
  omega

lemma writeU64_separates : Separates (fun _ => True) writeU64 id :=
  .of_length toLeBytes_length fun _ _ _ _ same => toLeBytes_injective same

lemma writeUsize_separates : Separates (· < 2 ^ 64) writeUsize id := by
  refine .of_length (fun n => toLeBytes_length _) fun left right leftFits rightFits same => ?_
  have words := congrArg UInt64.toNat (toLeBytes_injective same)
  rwa [UInt64.toNat_ofNat_of_lt' leftFits, UInt64.toNat_ofNat_of_lt' rightFits] at words

/-- The mark at the end of a text is not a byte of it. -/
lemma mark_notin_asBytes (text : String) : 255 ∉ asBytes text := by
  intro inside
  rcases mem_flatMap.mp inside with ⟨c, _, here⟩
  simp only [String.utf8EncodeChar] at here
  generalize c.val.toNat = value at here
  split_ifs at here with one two three <;>
  · simp only [mem_cons, not_mem_nil, or_false, <- UInt8.toNat_inj, UInt8.toNat_ofNat',
      show UInt8.toNat 255 = 255 from rfl] at here
    omega

lemma writeStr_separates : Separates (fun _ => True) writeStr id :=
  (Separates.terminated mark_notin_asBytes).weaken fun _ _ _ _ same => asBytes_injective same

lemma writeTagged_separates {α κ : Type} {valid : α -> Prop} {write : α -> List UInt8}
    {key : α -> κ} (separates : Separates valid write key) :
    Separates (fun value => ∀ inner, value = some inner -> valid inner) (writeTagged write)
      (Option.map key) :=
  .option (by decide) separates

lemma writeTagged_map {α β : Type} (write : β -> List UInt8) (part : α -> β) (value : Option α) :
    writeTagged (fun inner => write (part inner)) value = writeTagged write (value.map part) := by
  cases value <;> rfl

lemma writeList_separates {α κ : Type} {valid : α -> Prop} {write : α -> List UInt8}
    {key : α -> κ} (separates : Separates valid write key) :
    Separates (fun list => list.length < 2 ^ 64 /\ ∀ value ∈ list, valid value)
      (writeList write) (List.map key) :=
  .counted writeUsize_separates separates

lemma prereleaseKind_injective {left right : PrereleaseKind}
    (same : prereleaseKind left = prereleaseKind right) : left = right := by
  cases left <;> cases right <;> first | rfl | cases same

lemma prerelease_separates : Separates (fun _ => True) prerelease id := by
  have kinds : Separates (fun _ => True) (fun pre : Prerelease => writeU8 (prereleaseKind pre.kind))
      Prerelease.kind :=
    .of_length (fun _ => rfl) fun _ _ _ _ same => prereleaseKind_injective (cons.inj same).1
  have numbers := writeU64_separates.part Prerelease.number fun _ valid => valid
  refine (kinds.append numbers).weaken fun left right _ _ same => ?_
  rcases left with ⟨kind, number⟩
  rcases right with ⟨kind', number'⟩
  rw [Prod.mk.injEq] at same
  exact congrArg₂ Prerelease.mk same.1 same.2

lemma localSegment_separates : Separates (fun _ => True) localSegment id := by
  intro left right _ _ leftRest rightRest same
  cases left with
  | string text =>
    cases right with
    | string text' =>
      rcases writeStr_separates text text' trivial trivial _ _ (cons.inj same).2 with
        ⟨texts, rests⟩
      exact ⟨congrArg LocalSegment.string texts, rests⟩
    | number number => exact absurd (cons.inj same).1 (by decide)
  | number number =>
    cases right with
    | string text => exact absurd (cons.inj same).1 (by decide)
    | number number' =>
      rcases writeU64_separates number number' trivial trivial _ _ (cons.inj same).2 with
        ⟨numbers, rests⟩
      exact ⟨congrArg LocalSegment.number numbers, rests⟩

lemma localVersion_separates :
    Separates (fun value => ∀ list, value = .segments list -> list.length < 2 ^ 64)
      localVersion id := by
  intro left right leftFits rightFits leftRest rightRest same
  cases left with
  | segments list =>
    cases right with
    | segments list' =>
      rcases writeList_separates localSegment_separates list list'
        ⟨leftFits list rfl, fun _ _ => trivial⟩ ⟨rightFits list' rfl, fun _ _ => trivial⟩ _ _
        (cons.inj same).2 with ⟨lists, rests⟩
      rw [map_id, map_id] at lists
      exact ⟨congrArg LocalVersion.segments lists, rests⟩
    | max => exact absurd (cons.inj same).1 (by decide)
  | max =>
    cases right with
    | segments list => exact absurd (cons.inj same).1 (by decide)
    | max => exact ⟨rfl, (cons.inj same).2⟩

/-- Everything but the bounds of the resolver. -/
lemma version_separates : Separates PlainVersion version Version.record := by
  have epoch : Separates PlainVersion _ _ :=
    writeU64_separates.part Version.epoch fun _ _ => trivial
  have release : Separates PlainVersion _ _ :=
    (writeList_separates writeU64_separates).part Version.release fun _ plain =>
      ⟨plain.release, fun _ _ => trivial⟩
  have pre : Separates PlainVersion _ _ :=
    (writeTagged_separates prerelease_separates).part Version.pre fun _ _ _ _ => trivial
  have post : Separates PlainVersion _ _ :=
    (writeTagged_separates writeU64_separates).part Version.post fun _ _ _ _ => trivial
  have dev : Separates PlainVersion _ _ :=
    (writeTagged_separates writeU64_separates).part Version.dev fun _ _ _ _ => trivial
  have localVersion : Separates PlainVersion _ _ :=
    localVersion_separates.part Version.localVersion fun _ plain => plain.localVersion
  refine (epoch.append (release.append (pre.append (post.append (dev.append localVersion))))).weaken
    fun left right leftPlain rightPlain same => ?_
  simp only [Prod.mk.injEq, id_eq, map_id, Option.map_id] at same
  rcases same with ⟨sameEpoch, sameRelease, samePre, samePost, sameDev, sameLocal⟩
  rw [Version.record_eq, Version.record_eq, sameEpoch, sameRelease, samePre, samePost, sameDev,
    sameLocal, leftPlain.min, leftPlain.max, rightPlain.min, rightPlain.max]

lemma specifier_separates :
    Separates (fun spec => PlainVersion spec.version) specifier
      fun spec => (spec.operator.asStr, spec.version.record) := by
  have operator : Separates (fun spec : VersionSpecifier => PlainVersion spec.version) _ _ :=
    writeStr_separates.part (fun spec => spec.operator.asStr) fun _ _ => trivial
  exact operator.append (version_separates.part VersionSpecifier.version fun _ plain => plain)

/-- Versions with the same parts feed the same. -/
lemma version_eq_of_record {left right : Version} (same : left.record = right.record) :
    version left = version right := by
  simp only [version, <- record_epoch, <- record_release, <- record_pre,
    <- record_post, <- record_dev, <- record_localVersion, same]

lemma plainVersion_short {numbers : List UInt64} (nonempty : numbers ≠ [])
    (short : numbers.length < 2 ^ 64) : PlainVersion (.new numbers nonempty) where
  release := by
    rw [<- record_release, record_new]
    exact short
  localVersion := by
    intro list same
    rw [<- record_localVersion, record_new] at same
    rw [<- LocalVersion.segments.inj same]
    decide
  min := by rw [<- record_min, record_new]
  max := by rw [<- record_max, record_new]

/-- The requirement on `foo` in the version 1.2, under an operator. -/
def Requirement.foo (operator : Operator) (other : operator ≠ .tildeEqual) :
    Requirement Unit Unit where
  name := "foo"
  extras := []
  groups := []
  marker := ()
  source := .registry
    ⟨[⟨operator, .new [1, 2] (by decide), fun same => absurd same other⟩]⟩ none
  extras_fit := by decide
  groups_fit := by decide
  source_plain := by
    refine ⟨by simp, fun spec inside => ?_⟩
    rw [mem_singleton.mp inside]
    exact plainVersion_short (by decide) (by simp)

/-- There are no markers, and paths are not fed. -/
def Texts.plain : Texts Unit Unit := ⟨fun _ => none, fun _ => "", fun _ => []⟩

/-! ## What is determined -/

section

variable {Marker Path : Type} (texts : Texts Marker Path)

/-- The specifiers and the index of a registry source. -/
def RequirementSource.registryParts :
    RequirementSource Path -> Option (List (Operator × VersionFull) × Option IndexMetadata)
  | .registry specifier index =>
    some (specifier.specifiers.map fun spec => (spec.operator, spec.version.record), index)
  | _ => none

/-- The operators of a registry source, with their stars. -/
def RequirementSource.operators : RequirementSource Path -> List Operator
  | .registry specifier _ => specifier.specifiers.map VersionSpecifier.operator
  | _ => []

/-- The format of the index of a registry source. -/
def RequirementSource.indexFormat : RequirementSource Path -> Option IndexFormat
  | .registry _ index => index.map IndexMetadata.format
  | _ => none

/-- Two registry sources that agree but for stars and the format of the index. -/
def RequirementSource.Alike : RequirementSource Path -> RequirementSource Path -> Prop
  | .registry left leftIndex, .registry right rightIndex =>
    left.specifiers.map (fun spec => (spec.operator.asStr, spec.version.record)) =
        right.specifiers.map (fun spec => (spec.operator.asStr, spec.version.record)) /\
      leftIndex.map IndexMetadata.url = rightIndex.map IndexMetadata.url
  | _, _ => False

lemma RequirementSource.registry_separates {left right : VersionSpecifiers}
    {leftIndex rightIndex : Option IndexMetadata}
    (leftPlain : (RequirementSource.registry left leftIndex : RequirementSource Path).Plain)
    (rightPlain : (RequirementSource.registry right rightIndex : RequirementSource Path).Plain) :
    (registry left leftIndex).cacheKey texts = (registry right rightIndex).cacheKey texts <->
      (registry left leftIndex : RequirementSource Path).Alike (registry right rightIndex) := by
  constructor
  · intro same
    have parts := (cons.inj same).2
    rcases writeList_separates specifier_separates left.specifiers right.specifiers leftPlain
      rightPlain _ _ parts with ⟨specifiers, rest⟩
    have urls := writeStr_separates.part IndexMetadata.url fun _ (valid : True) => valid
    rw [<- append_nil (writeTagged _ leftIndex), <- append_nil (writeTagged _ rightIndex)] at rest
    exact ⟨specifiers, (writeTagged_separates urls leftIndex rightIndex
      (fun _ _ => trivial) (fun _ _ => trivial) _ _ rest).1⟩
  · rintro ⟨specifiers, urls⟩
    have items := @flatMap_eq_of_keys _ _ _ specifier _ (fun _ _ same => by
      rw [specifier, specifier, (Prod.mk.inj same).1,
        version_eq_of_record (Prod.mk.inj same).2]) _ _ specifiers
    have lengths := congrArg length specifiers
    rw [length_map, length_map] at lengths
    have index : writeTagged (fun index => writeStr index.url) leftIndex =
        writeTagged (fun index => writeStr index.url) rightIndex := by
      rw [writeTagged_map, urls, <- writeTagged_map]
    rw [cacheKey, cacheKey, writeList, writeList, items, lengths, index]

/-- Two requirements that agree but for stars and the format of the index. -/
structure Requirement.Alike (left right : Requirement Marker Path) : Prop where
  name : left.name = right.name
  groups : left.groups = right.groups
  extras : left.extras = right.extras
  marker : left.marker = right.marker
  source : left.source.Alike right.source

/-- The text of the marker belongs to no other marker. -/
def Texts.Legible (marker : Marker) : Prop :=
  ∀ other, texts.contents marker = texts.contents other -> marker = other

variable {left right : Requirement Marker Path}

/-- What the bytes of a requirement tell about it. -/
lemma Requirement.parts_of_cacheKey (same : left.cacheKey texts = right.cacheKey texts) :
    left.name = right.name /\ left.groups = right.groups /\ left.extras = right.extras /\
      texts.contents left.marker = texts.contents right.marker /\
      left.source.cacheKey texts = right.source.cacheKey texts := by
  have names : ∀ list : List String, list.length < 2 ^ 64 ->
      list.length < 2 ^ 64 /\ ∀ value ∈ list, True := fun _ fits => ⟨fits, fun _ _ => trivial⟩
  rcases writeStr_separates _ _ trivial trivial _ _ same with ⟨name, same⟩
  rcases writeList_separates writeStr_separates _ _ (names _ left.groups_fit)
    (names _ right.groups_fit) _ _ same with ⟨groups, same⟩
  rcases writeList_separates writeStr_separates _ _ (names _ left.extras_fit)
    (names _ right.extras_fit) _ _ same with ⟨extras, same⟩
  rcases writeTagged_separates writeStr_separates _ _ (fun _ _ => trivial) (fun _ _ => trivial)
    _ _ same with ⟨contents, same⟩
  rw [map_id, map_id] at groups extras
  rw [Option.map_id, id_eq, id_eq] at contents
  exact ⟨name, groups, extras, contents, same⟩

lemma map_pair_eq_iff {α κ ι : Type} {first : α -> κ} {second : α -> ι} {left right : List α} :
    left.map (fun value => (first value, second value)) =
        right.map (fun value => (first value, second value)) <->
      left.map first = right.map first /\ left.map second = right.map second := by
  constructor
  · intro same
    have firsts := congrArg (map Prod.fst) same
    have seconds := congrArg (map Prod.snd) same
    rw [map_map, map_map] at firsts seconds
    exact ⟨firsts, seconds⟩
  · rintro ⟨firsts, seconds⟩
    rw [<- zip_map', <- zip_map', firsts, seconds]

lemma indexMetadata_eq_iff {left right : Option IndexMetadata}
    (urls : left.map IndexMetadata.url = right.map IndexMetadata.url) :
    left = right <-> left.map IndexMetadata.format = right.map IndexMetadata.format := by
  constructor
  · exact congrArg (Option.map IndexMetadata.format)
  · intro formats
    cases left with
    | none =>
      cases right with
      | none => rfl
      | some right => cases urls
    | some left =>
      cases right with
      | none => cases urls
      | some right =>
        rcases left with ⟨url, format⟩
        rcases right with ⟨url', format'⟩
        rw [Option.map_some, Option.map_some, Option.some_inj] at urls formats
        exact congrArg some (congrArg₂ IndexMetadata.mk urls formats)

/-- What sources that are alike can still differ in. -/
lemma RequirementSource.Alike.registryParts_eq_iff {left right : RequirementSource Path}
    (alike : left.Alike right) :
    left.registryParts = right.registryParts <->
      left.operators = right.operators /\ left.indexFormat = right.indexFormat := by
  cases left with
  | registry left leftIndex =>
    cases right with
    | registry right rightIndex =>
      rcases alike with ⟨specifiers, urls⟩
      rw [registryParts, registryParts, Option.some_inj, Prod.mk.injEq, map_pair_eq_iff,
        and_iff_left (map_pair_eq_iff.mp specifiers).2, indexMetadata_eq_iff urls]
      rfl
    | _ => exact alike.elim
  | _ => exact alike.elim

/-- Alike sources feed the same bytes.  Other sources that do are not from a registry. -/
lemma RequirementSource.cacheKey_eq_cases {left right : RequirementSource Path}
    (leftPlain : left.Plain) (rightPlain : right.Plain) :
    (left.Alike right -> left.cacheKey texts = right.cacheKey texts) /\
    (left.cacheKey texts = right.cacheKey texts ->
      left.Alike right \/ left.registryParts = right.registryParts) := by
  cases left with
  | registry left leftIndex =>
    cases right with
    | registry right rightIndex =>
      have separates := registry_separates texts leftPlain rightPlain
      exact ⟨separates.mpr, fun same => .inl (separates.mp same)⟩
    | _ => exact ⟨False.elim, fun same => absurd (cons.inj same).1 (by decide)⟩
  | _ =>
    cases right with
    | registry => exact ⟨False.elim, fun same => absurd (cons.inj same).1 (by decide)⟩
    | _ => exact ⟨False.elim, fun _ => .inr rfl⟩

end

end Cache
end Uv
