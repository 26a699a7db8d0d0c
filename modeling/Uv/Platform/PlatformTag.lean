import Uv.Platform.TagParser

namespace Uv.Platform

open Library Library.Text List

/-!
# Platform tags

The third component of a wheel's compatibility tag.  A tag starts with the name of a
system and an underscore, and what follows depends on the system: a version and an
architecture, an architecture alone, or an opaque text.
-/

/-! ## Architectures -/

inductive Arch where
  | aarch64
  | armv5TEL
  | armv6L
  | armv7L
  | powerpc64Le
  | powerpc64
  | powerpc
  | x86
  | x86_64
  | s390X
  | loongArch64
  | riscv64
  | wasm32
  deriving DecidableEq, Repr

variable {arch : Arch}

namespace Arch

def name : Arch -> String
  | .aarch64 => "aarch64"
  | .armv5TEL => "armv5tel"
  | .armv6L => "armv6l"
  | .armv7L => "armv7l"
  | .powerpc64Le => "ppc64le"
  | .powerpc64 => "ppc64"
  | .powerpc => "ppc"
  | .x86 => "i686"
  | .x86_64 => "x86_64"
  | .s390X => "s390x"
  | .loongArch64 => "loongarch64"
  | .riscv64 => "riscv64"
  | .wasm32 => "wasm32"

/-- The architecture `wasm32` has a name, but is not read. -/
def fromStr (s : String) : Option Arch :=
  match s with
  | "aarch64" => some .aarch64
  | "armv5tel" => some .armv5TEL
  | "armv6l" => some .armv6L
  | "armv7l" | "armv8l" => some .armv7L
  | "ppc64le" => some .powerpc64Le
  | "ppc64" => some .powerpc64
  | "ppc" => some .powerpc
  | "i686" => some .x86
  | "x86_64" => some .x86_64
  | "s390x" => some .s390X
  | "loongarch64" => some .loongArch64
  | "riscv64" => some .riscv64
  | _ => none

lemma ne_wasm32_of_fromStr {s : String} (read : fromStr s = some arch) :
    arch ≠ .wasm32 := by
  rintro rfl
  rw [fromStr.eq_def] at read
  split at read <;> cases read

lemma fromStr_name (known : arch ≠ .wasm32) : fromStr arch.name = some arch := by
  cases arch <;> first | rfl | exact absurd rfl known

end Arch

inductive BinaryFormat where
  | arm64
  | fat
  | fat32
  | fat64
  | i386
  | intel
  | ppc
  | ppc64
  | universal
  | universal2
  | x86_64
  deriving DecidableEq, Repr

namespace BinaryFormat

def name : BinaryFormat -> String
  | .arm64 => "arm64"
  | .fat => "fat"
  | .fat32 => "fat32"
  | .fat64 => "fat64"
  | .i386 => "i386"
  | .intel => "intel"
  | .ppc => "ppc"
  | .ppc64 => "ppc64"
  | .universal => "universal"
  | .universal2 => "universal2"
  | .x86_64 => "x86_64"

def fromStr (s : String) : Option BinaryFormat :=
  match s with
  | "arm64" => some .arm64
  | "fat" => some .fat
  | "fat32" => some .fat32
  | "fat64" => some .fat64
  | "i386" => some .i386
  | "intel" => some .intel
  | "ppc" => some .ppc
  | "ppc64" => some .ppc64
  | "universal" => some .universal
  | "universal2" => some .universal2
  | "x86_64" => some .x86_64
  | _ => none

lemma fromStr_name (format : BinaryFormat) : fromStr format.name = some format := by
  cases format <;> rfl

end BinaryFormat

inductive AndroidAbi where
  | armeabiV7a
  | arm64V8a
  | x86
  | x86_64
  deriving DecidableEq, Repr

namespace AndroidAbi

def name : AndroidAbi -> String
  | .armeabiV7a => "armeabi_v7a"
  | .arm64V8a => "arm64_v8a"
  | .x86 => "x86"
  | .x86_64 => "x86_64"

def fromStr (s : String) : Option AndroidAbi :=
  match s with
  | "armeabi_v7a" => some .armeabiV7a
  | "arm64_v8a" => some .arm64V8a
  | "x86" => some .x86
  | "x86_64" => some .x86_64
  | _ => none

lemma fromStr_name (abi : AndroidAbi) : fromStr abi.name = some abi := by
  cases abi <;> rfl

end AndroidAbi

inductive IosMultiarch where
  | arm64Device
  | arm64Simulator
  | x86_64Simulator
  deriving DecidableEq, Repr

namespace IosMultiarch

def name : IosMultiarch -> String
  | .arm64Device => "arm64_iphoneos"
  | .arm64Simulator => "arm64_iphonesimulator"
  | .x86_64Simulator => "x86_64_iphonesimulator"

def fromStr (s : String) : Option IosMultiarch :=
  match s with
  | "arm64_iphoneos" => some .arm64Device
  | "arm64_iphonesimulator" => some .arm64Simulator
  | "x86_64_iphonesimulator" => some .x86_64Simulator
  | _ => none

lemma fromStr_name (multiarch : IosMultiarch) : fromStr multiarch.name = some multiarch := by
  cases multiarch <;> rfl

end IosMultiarch

/-! ## Opaque texts -/

lemma isWordChar_lt {c : Char} (word : isWordChar c) : c.toNat < 128 := by
  rw [isWordChar, Bool.or_eq_true, beq_iff_eq] at word
  rcases word with letter | rfl
  · simp only [Char.isAlphanum, Char.isAlpha, Char.isUpper, Char.isLower, Char.isDigit,
      Bool.or_eq_true, Bool.and_eq_true, decide_eq_true_eq, UInt32.le_iff_toNat_le,
      ge_iff_le] at letter
    have value : c.toNat = c.val.toNat := rfl
    have upper : 'Z'.val.toNat = 90 := rfl
    have lower : 'z'.val.toNat = 122 := rfl
    have digit : '9'.val.toNat = 57 := rfl
    omega
  · decide

/-- Lower case letters stay as they are. -/
lemma isWordChar_toLower {c : Char} (word : isWordChar c) :
    isWordChar c.toLower /\ c.toLower.toLower = c.toLower := by
  have all : ∀ n, n < 128 -> isWordChar (Char.ofNat n) ->
      isWordChar (Char.ofNat n).toLower /\
        (Char.ofNat n).toLower.toLower = (Char.ofNat n).toLower := by
    decide +kernel
  rw [<- Char.ofNat_toNat c] at word ⊢
  exact all c.toNat (isWordChar_lt (Char.ofNat_toNat c ▸ word)) word

/-- The release and architecture of a system in one text, with its letters in lower
case. -/
structure ReleaseArch where
  text : String
  valid : ∀ c ∈ text.toList, isWordChar c = true /\ c.toLower = c
  deriving DecidableEq

namespace ReleaseArch

def fromStr (s : List Char) : Option ReleaseArch :=
  if words : s.all isWordChar = true then
    some ⟨String.ofList (s.map Char.toLower), fun c inside => by
      rw [String.toList_ofList] at inside
      rcases List.mem_map.mp inside with ⟨original, mem, rfl⟩
      exact isWordChar_toLower (List.all_eq_true.mp words original mem)⟩
  else none

lemma all_isWordChar (arch : ReleaseArch) : arch.text.toList.all isWordChar :=
  all_eq_true.mpr fun c inside => (arch.valid c inside).1

lemma fromStr_text (arch : ReleaseArch) : fromStr arch.text.toList = some arch := by
  have lower : arch.text.toList.map Char.toLower = arch.text.toList :=
    (map_congr_left fun c inside => (arch.valid c inside).2).trans (map_id _)
  rw [fromStr, dif_pos arch.all_isWordChar]
  simp only [lower, String.ofList_toList]

lemma text_ne_empty {s : List Char} {arch : ReleaseArch} (read : fromStr s = some arch)
    (nonempty : s ≠ []) : arch.text.toList ≠ [] := by
  rw [fromStr] at read
  split at read
  next =>
    cases read
    rw [String.toList_ofList]
    exact fun empty => nonempty (map_eq_nil_iff.mp empty)
  next => cases read

end ReleaseArch

/-! ## Tags -/

inductive PlatformTag where
  | any
  | manylinux (major minor : UInt16) (arch : Arch)
  | manylinux1 (arch : Arch)
  | manylinux2010 (arch : Arch)
  | manylinux2014 (arch : Arch)
  | linux (arch : Arch)
  | musllinux (major minor : UInt16) (arch : Arch)
  | macos (major minor : UInt16) (binaryFormat : BinaryFormat)
  | win32
  | winAmd64
  | winArm64
  | winIa64
  | android (apiLevel : UInt16) (abi : AndroidAbi)
  | freeBsd (releaseArch : ReleaseArch)
  | netBsd (releaseArch : ReleaseArch)
  | openBsd (releaseArch : ReleaseArch)
  | dragonfly (releaseArch : ReleaseArch)
  | haiku (releaseArch : ReleaseArch)
  | illumos (releaseArch : ReleaseArch)
  | solaris (releaseArch : ReleaseArch)
  | pyodide (major minor : UInt16)
  | pyEmscripten (major minor : UInt16)
  | ios (major minor : UInt16) (multiarch : IosMultiarch)
  deriving DecidableEq

/-- Two numbers and a name with underscores between them. -/
def displayVersioned (major minor : UInt16) (name : String) : String :=
  toString major.toNat ++ "_" ++ toString minor.toNat ++ "_" ++ name

namespace PlatformTag

def display : PlatformTag -> String
  | .any => "any"
  | .manylinux major minor arch => "manylinux_" ++ displayVersioned major minor arch.name
  | .manylinux1 arch => "manylinux1_" ++ arch.name
  | .manylinux2010 arch => "manylinux2010_" ++ arch.name
  | .manylinux2014 arch => "manylinux2014_" ++ arch.name
  | .linux arch => "linux_" ++ arch.name
  | .musllinux major minor arch => "musllinux_" ++ displayVersioned major minor arch.name
  | .macos major minor format => "macosx_" ++ displayVersioned major minor format.name
  | .win32 => "win32"
  | .winAmd64 => "win_amd64"
  | .winArm64 => "win_arm64"
  | .winIa64 => "win_ia64"
  | .android apiLevel abi => "android_" ++ (toString apiLevel.toNat ++ "_" ++ abi.name)
  | .freeBsd releaseArch => "freebsd_" ++ releaseArch.text
  | .netBsd releaseArch => "netbsd_" ++ releaseArch.text
  | .openBsd releaseArch => "openbsd_" ++ releaseArch.text
  | .dragonfly releaseArch => "dragonfly_" ++ releaseArch.text
  | .haiku releaseArch => "haiku_" ++ releaseArch.text
  | .illumos releaseArch => "illumos_" ++ releaseArch.text
  | .solaris releaseArch => "solaris_" ++ (releaseArch.text ++ "_64bit")
  | .pyodide major minor => "pyodide_" ++ displayVersioned major minor "wasm32"
  | .pyEmscripten major minor => "pyemscripten_" ++ displayVersioned major minor "wasm32"
  | .ios major minor multiarch => "ios_" ++ displayVersioned major minor multiarch.name

/-! ### Reading -/

def parseU16 (text : List Char) : Option UInt16 :=
  (parseUnsigned 65536 text).map UInt16.ofNat

/-- A major and a minor version, and what the reader makes of the rest. -/
def fromVersioned {Value : Type} (read : String -> Option Value)
    (tag : UInt16 -> UInt16 -> Value -> PlatformTag) (rest : List Char) : Option PlatformTag := do
  let (major, rest) <- splitOnce '_' rest
  let (minor, rest) <- splitOnce '_' rest
  let major <- parseU16 major
  let minor <- parseU16 minor
  if rest = [] then none
  else do
    let value <- read (String.ofList rest)
    some (tag major minor value)

def fromArch (tag : Arch -> PlatformTag) (rest : List Char) : Option PlatformTag :=
  (Arch.fromStr (String.ofList rest)).map tag

def fromReleaseArch (tag : ReleaseArch -> PlatformTag) (rest : List Char) : Option PlatformTag :=
  if rest = [] then none else (ReleaseArch.fromStr rest).map tag

def fromAndroid (rest : List Char) : Option PlatformTag := do
  let (apiLevel, rest) <- splitOnce '_' rest
  let apiLevel <- parseU16 apiLevel
  if rest = [] then none
  else do
    let abi <- AndroidAbi.fromStr (String.ofList rest)
    some (.android apiLevel abi)

/-- The suffix stands for itself: there must be something before it. -/
def fromSolaris (rest : List Char) : Option PlatformTag := do
  let releaseArch <- rest.dropSuffix? "_64bit".toList
  if releaseArch = [] then none else (ReleaseArch.fromStr releaseArch).map .solaris

def fromWasm (tag : UInt16 -> UInt16 -> PlatformTag) (rest : List Char) : Option PlatformTag := do
  let version <- rest.dropSuffix? "_wasm32".toList
  let (major, minor) <- splitOnce '_' version
  let major <- parseU16 major
  let minor <- parseU16 minor
  some (tag major minor)

def staticTags : List (String × PlatformTag) :=
  [("any", .any), ("win32", .win32), ("win_amd64", .winAmd64), ("win_arm64", .winArm64),
    ("win_ia64", .winIa64)]

/-- The systems with the readers for what follows their names. -/
def systems : List (String × (List Char -> Option PlatformTag)) :=
  [("manylinux_", fromVersioned Arch.fromStr .manylinux),
    ("manylinux1_", fromArch .manylinux1),
    ("manylinux2010_", fromArch .manylinux2010),
    ("manylinux2014_", fromArch .manylinux2014),
    ("linux_", fromArch .linux),
    ("musllinux_", fromVersioned Arch.fromStr .musllinux),
    ("macosx_", fromVersioned BinaryFormat.fromStr .macos),
    ("android_", fromAndroid),
    ("freebsd_", fromReleaseArch .freeBsd),
    ("netbsd_", fromReleaseArch .netBsd),
    ("openbsd_", fromReleaseArch .openBsd),
    ("dragonfly_", fromReleaseArch .dragonfly),
    ("haiku_", fromReleaseArch .haiku),
    ("illumos_", fromReleaseArch .illumos),
    ("solaris_", fromSolaris),
    ("pyodide_", fromWasm .pyodide),
    ("pyemscripten_", fromWasm .pyEmscripten),
    ("ios_", fromVersioned IosMultiarch.fromStr .ios)]

/-- The first system that the text starts with decides. -/
def fromSystems (s : List Char) : List (String × (List Char -> Option PlatformTag)) ->
    Option PlatformTag
  | [] => none
  | (start, read) :: others =>
    match s.dropPrefix? start.toList with
    | some rest => read rest
    | none => fromSystems s others

def fromStr (s : String) : Option PlatformTag :=
  match staticTags.lookup s with
  | some tag => some tag
  | none => fromSystems s.toList systems

/-! ### Tags that have been read -/

/-- The tags that come from text. -/
def IsRead : PlatformTag -> Prop
  | .manylinux _ _ arch | .manylinux1 arch | .manylinux2010 arch | .manylinux2014 arch
  | .linux arch | .musllinux _ _ arch => arch ≠ .wasm32
  | .freeBsd arch | .netBsd arch | .openBsd arch | .dragonfly arch | .haiku arch
  | .illumos arch | .solaris arch => arch.text.toList ≠ []
  | _ => True

/-- A reader that gives only such tags. -/
def Reads (read : List Char -> Option PlatformTag) : Prop :=
  ∀ rest result, read rest = some result -> result.IsRead

lemma reads_fromVersioned {Value : Type} {read : String -> Option Value}
    {tag : UInt16 -> UInt16 -> Value -> PlatformTag}
    (isRead : ∀ text value, read text = some value ->
      ∀ major minor, (tag major minor value).IsRead) :
    Reads (fromVersioned read tag) := by
  intro rest result found
  rcases Option.bind_eq_some_iff.mp found with ⟨⟨_, rest⟩, _, found⟩
  rcases Option.bind_eq_some_iff.mp found with ⟨⟨_, rest⟩, _, found⟩
  rcases Option.bind_eq_some_iff.mp found with ⟨major, _, found⟩
  rcases Option.bind_eq_some_iff.mp found with ⟨minor, _, found⟩
  split at found
  next => cases found
  next =>
    rcases Option.bind_eq_some_iff.mp found with ⟨value, parsed, found⟩
    cases found
    exact isRead _ value parsed major minor

variable {tag : Arch -> PlatformTag}

lemma reads_fromArch
    (isRead : ∀ arch, arch ≠ .wasm32 -> (tag arch).IsRead) : Reads (fromArch tag) := by
  intro rest result found
  rcases Option.map_eq_some_iff.mp found with ⟨arch, parsed, rfl⟩
  exact isRead arch (Arch.ne_wasm32_of_fromStr parsed)

lemma reads_fromReleaseArch {tag : ReleaseArch -> PlatformTag}
    (isRead : ∀ arch, arch.text.toList ≠ [] -> (tag arch).IsRead) :
    Reads (fromReleaseArch tag) := by
  intro rest result found
  rw [fromReleaseArch] at found
  split at found
  next => cases found
  next nonempty =>
    rcases Option.map_eq_some_iff.mp found with ⟨arch, parsed, rfl⟩
    exact isRead arch (ReleaseArch.text_ne_empty parsed nonempty)

lemma reads_fromAndroid : Reads fromAndroid := by
  intro rest result found
  rcases Option.bind_eq_some_iff.mp found with ⟨⟨_, rest⟩, _, found⟩
  rcases Option.bind_eq_some_iff.mp found with ⟨apiLevel, _, found⟩
  split at found
  next => cases found
  next =>
    rcases Option.bind_eq_some_iff.mp found with ⟨abi, _, found⟩
    cases found
    trivial

lemma reads_fromSolaris : Reads fromSolaris := by
  intro rest result found
  rcases Option.bind_eq_some_iff.mp found with ⟨releaseArch, _, found⟩
  split at found
  next => cases found
  next nonempty =>
    rcases Option.map_eq_some_iff.mp found with ⟨arch, parsed, rfl⟩
    exact ReleaseArch.text_ne_empty parsed nonempty

lemma reads_fromWasm {tag : UInt16 -> UInt16 -> PlatformTag}
    (isRead : ∀ major minor, (tag major minor).IsRead) : Reads (fromWasm tag) := by
  intro rest result found
  rcases Option.bind_eq_some_iff.mp found with ⟨version, _, found⟩
  rcases Option.bind_eq_some_iff.mp found with ⟨⟨_, _⟩, _, found⟩
  rcases Option.bind_eq_some_iff.mp found with ⟨major, _, found⟩
  rcases Option.bind_eq_some_iff.mp found with ⟨minor, _, found⟩
  cases found
  exact isRead major minor

lemma reads_systems : ∀ entry ∈ systems, Reads entry.2 := by
  have arch : ∀ text arch, Arch.fromStr text = some arch -> arch ≠ .wasm32 :=
    fun _ _ => Arch.ne_wasm32_of_fromStr
  simp only [systems, forall_mem_cons]
  exact ⟨reads_fromVersioned fun text value parsed _ _ => arch text value parsed,
    reads_fromArch fun _ => id, reads_fromArch fun _ => id, reads_fromArch fun _ => id,
    reads_fromArch fun _ => id,
    reads_fromVersioned fun text value parsed _ _ => arch text value parsed,
    reads_fromVersioned fun _ _ _ _ _ => trivial, reads_fromAndroid,
    reads_fromReleaseArch fun _ => id, reads_fromReleaseArch fun _ => id,
    reads_fromReleaseArch fun _ => id, reads_fromReleaseArch fun _ => id,
    reads_fromReleaseArch fun _ => id, reads_fromReleaseArch fun _ => id, reads_fromSolaris,
    reads_fromWasm fun _ _ => trivial, reads_fromWasm fun _ _ => trivial,
    reads_fromVersioned fun _ _ _ _ _ => trivial, forall_mem_nil _⟩

variable {table : List (String × (List Char -> Option PlatformTag))}

lemma isRead_of_fromSystems {s : List Char} {result : PlatformTag}
    (reads : ∀ entry ∈ table, Reads entry.2)
    (found : fromSystems s table = some result) : result.IsRead := by
  induction table with
  | nil => cases found
  | cons entry table ih =>
    rw [forall_mem_cons] at reads
    rw [fromSystems] at found
    split at found
    next rest _ => exact reads.1 rest result found
    next => exact ih reads.2 found

lemma isRead_of_fromStr {s : String} {tag : PlatformTag} (read : fromStr s = some tag) :
    tag.IsRead := by
  rw [fromStr] at read
  split at read
  next found =>
    cases read
    have statics : ∀ entry ∈ staticTags, entry.2.IsRead := by
      simp only [staticTags, forall_mem_cons]
      exact ⟨trivial, trivial, trivial, trivial, trivial,
        forall_mem_nil _⟩
    rcases lookup_eq_some_iff.mp found with ⟨before, after, split, _⟩
    exact statics (_, _) (split ▸ mem_append_right before mem_cons_self)
  next => exact isRead_of_fromSystems reads_systems read

/-! ### Reading what is written -/

/-- The name of a system ends at its only underscore. -/
def Marked (start : String) : Prop :=
  (splitOnce '_' start.toList).map Prod.snd = some []

instance (start : String) : Decidable (Marked start) :=
  inferInstanceAs (Decidable (_ = _))

variable {start : String}

lemma Marked.eq (marked : Marked start) :
    ∃ word, start.toList = word ++ ['_'] /\ '_' ∉ word := by
  rcases Option.map_eq_some_iff.mp marked with ⟨⟨word, rest⟩, cut, empty⟩
  cases empty
  exact ⟨word, eq_append_of_splitOnce cut⟩

/-- A text starts with the name of one system only. -/
lemma Marked.unique {other : String} (marked : Marked start) (otherMarked : Marked other)
    {rest otherRest : List Char} (same : start.toList ++ rest = other.toList ++ otherRest) :
    start = other := by
  rcases marked.eq with ⟨word, text, absent⟩
  rcases otherMarked.eq with ⟨otherWord, otherText, otherAbsent⟩
  rw [text, otherText, append_assoc, append_assoc] at same
  have cut := splitOnce_append rest absent
  rw [show word ++ '_' :: rest = otherWord ++ '_' :: otherRest from same,
    splitOnce_append otherRest otherAbsent, Option.some_inj, Prod.mk.injEq] at cut
  exact String.toList_injective (by rw [text, otherText, cut.1])

variable {read : List Char -> Option PlatformTag}

lemma fromSystems_of_mem
    (marked : ∀ entry ∈ table, Marked entry.1) (distinct : (table.map Prod.fst).Nodup)
    (mem : (start, read) ∈ table)
    (rest : List Char) : fromSystems (start.toList ++ rest) table = read rest := by
  induction table with
  | nil => cases mem
  | cons entry table ih =>
    rw [map_cons, nodup_cons] at distinct
    rcases mem_cons.mp mem with rfl | later
    · rw [fromSystems, dropPrefix?_append]
    · have other : (start.toList ++ rest).dropPrefix? entry.1.toList = none := by
        cases found : (start.toList ++ rest).dropPrefix? entry.1.toList with
        | none => rfl
        | some others =>
          have same := Marked.unique (marked _ mem) (marked entry mem_cons_self)
            (eq_append_of_dropPrefix? found)
          exact absurd (mem_map.mpr ⟨_, later, same⟩) distinct.1
      rw [fromSystems, other]
      exact ih (forall_mem_cons.mp marked).2
        distinct.2 later

lemma marked_systems : ∀ entry ∈ systems, Marked entry.1 := by
  have all : (systems.map Prod.fst).all (fun start => decide (Marked start)) := by
    decide +kernel
  intro entry mem
  exact of_decide_eq_true (all_eq_true.mp all entry.1 (mem_map.mpr ⟨entry, mem, rfl⟩))

/-- Words without a system are not the beginning of the text of one. -/
lemma lookup_staticTags (mem : (start, read) ∈ systems) (rest : String) :
    staticTags.lookup (start ++ rest) = none := by
  have all : (systems.map Prod.fst).all (fun start => staticTags.all fun entry =>
      (entry.1.toList.dropPrefix? start.toList).isNone) := by
    decide +kernel
  rw [lookup_eq_none_iff]
  intro entry isStatic
  refine bne_iff_ne.mpr fun same => ?_
  have apart := all_eq_true.mp (all_eq_true.mp all start (mem_map.mpr ⟨_, mem, rfl⟩)) entry isStatic
  rw [<- same, String.toList_append, dropPrefix?_append] at apart
  cases apart

lemma fromStr_system (mem : (start, read) ∈ systems) (rest : String) :
    fromStr (start ++ rest) = read rest.toList := by
  have distinct : (systems.map Prod.fst).Nodup := by decide +kernel
  rw [fromStr, lookup_staticTags mem, String.toList_append]
  exact fromSystems_of_mem marked_systems distinct mem rest.toList

lemma parseU16_toString (n : UInt16) : parseU16 (toString n.toNat).toList = some n := by
  rw [parseU16, <- decimal, parseUnsigned_decimal n.toNat_lt, Option.map_some, UInt16.ofNat_toNat]

lemma underscore_not_mem_toString (n : Nat) : '_' ∉ (toString n).toList :=
  not_mem_decimal (by decide)

lemma fromVersioned_display {Value : Type} {read : String -> Option Value}
    {tag : UInt16 -> UInt16 -> Value -> PlatformTag} {major minor : UInt16} {value : Value}
    {name : String} (readBack : read name = some value) (nonempty : name.toList ≠ []) :
    fromVersioned read tag (displayVersioned major minor name).toList =
      some (tag major minor value) := by
  have text : (displayVersioned major minor name).toList =
      (toString major.toNat).toList ++ '_' :: ((toString minor.toNat).toList ++ '_' ::
        name.toList) := by
    simp only [displayVersioned, String.toList_append, append_assoc]
    rfl
  simp only [fromVersioned, text, splitOnce_append _ (underscore_not_mem_toString _),
    Option.bind_eq_bind, Option.bind_some, parseU16_toString, nonempty, if_false,
    String.ofList_toList, readBack]

lemma fromArch_name (known : arch ≠ .wasm32) :
    fromArch tag arch.name.toList = some (tag arch) := by
  rw [fromArch, String.ofList_toList, Arch.fromStr_name known, Option.map_some]

lemma fromReleaseArch_text {tag : ReleaseArch -> PlatformTag} {arch : ReleaseArch}
    (nonempty : arch.text.toList ≠ []) :
    fromReleaseArch tag arch.text.toList = some (tag arch) := by
  rw [fromReleaseArch, if_neg nonempty, ReleaseArch.fromStr_text, Option.map_some]

lemma fromAndroid_display (apiLevel : UInt16) (abi : AndroidAbi) :
    fromAndroid (toString apiLevel.toNat ++ "_" ++ abi.name).toList =
      some (.android apiLevel abi) := by
  have text : (toString apiLevel.toNat ++ "_" ++ abi.name).toList =
      (toString apiLevel.toNat).toList ++ '_' :: abi.name.toList := by
    simp only [String.toList_append, append_assoc]
    rfl
  have nonempty : abi.name.toList ≠ [] := by cases abi <;> decide
  simp only [fromAndroid, text, splitOnce_append _ (underscore_not_mem_toString _),
    Option.bind_eq_bind, Option.bind_some, parseU16_toString, nonempty, if_false,
    String.ofList_toList, AndroidAbi.fromStr_name]

lemma fromSolaris_display {arch : ReleaseArch} (nonempty : arch.text.toList ≠ []) :
    fromSolaris (arch.text ++ "_64bit").toList = some (.solaris arch) := by
  simp only [fromSolaris, String.toList_append, dropSuffix?_append, Option.bind_eq_bind,
    Option.bind_some, nonempty, if_false, ReleaseArch.fromStr_text, Option.map_some]

lemma fromWasm_display {tag : UInt16 -> UInt16 -> PlatformTag} (major minor : UInt16) :
    fromWasm tag (displayVersioned major minor "wasm32").toList = some (tag major minor) := by
  have text : (displayVersioned major minor "wasm32").toList =
      (toString major.toNat).toList ++ '_' :: (toString minor.toNat).toList ++
        "_wasm32".toList := by
    simp only [displayVersioned, String.toList_append, append_assoc]
    rfl
  simp only [fromWasm, text, dropSuffix?_append, Option.bind_eq_bind, Option.bind_some,
    splitOnce_append _ (underscore_not_mem_toString _), parseU16_toString]

/-- A tag that has been read is read back. -/
lemma fromStr_display {tag : PlatformTag} (read : tag.IsRead) : fromStr tag.display = some tag := by
  have archName : ∀ arch : Arch, arch.name.toList ≠ [] := by
    intro arch
    cases arch <;> decide
  cases tag with
  | any | win32 | winAmd64 | winArm64 | winIa64 => rfl
  | manylinux major minor arch | musllinux major minor arch =>
    exact (fromStr_system (by simp [systems]) _).trans
      (fromVersioned_display (Arch.fromStr_name read) (archName arch))
  | macos major minor format =>
    exact (fromStr_system (by simp [systems]) _).trans
      (fromVersioned_display format.fromStr_name (by cases format <;> decide))
  | ios major minor multiarch =>
    exact (fromStr_system (by simp [systems]) _).trans
      (fromVersioned_display multiarch.fromStr_name (by cases multiarch <;> decide))
  | manylinux1 arch | manylinux2010 arch | manylinux2014 arch | linux arch =>
    exact (fromStr_system (by simp [systems]) _).trans (fromArch_name read)
  | freeBsd arch | netBsd arch | openBsd arch | dragonfly arch | haiku arch | illumos arch =>
    exact (fromStr_system (by simp [systems]) _).trans (fromReleaseArch_text read)
  | android apiLevel abi =>
    exact (fromStr_system (by simp [systems]) _).trans (fromAndroid_display apiLevel abi)
  | solaris arch =>
    exact (fromStr_system (by simp [systems]) _).trans (fromSolaris_display read)
  | pyodide major minor | pyEmscripten major minor =>
    exact (fromStr_system (by simp [systems]) _).trans (fromWasm_display major minor)

/-- There are only letters, digits and underscores in the text. -/
lemma display_all_isWordChar (tag : PlatformTag) : tag.display.toList.all isWordChar := by
  have archName : ∀ arch : Arch, arch.name.toList.all isWordChar := by
    intro arch
    cases arch <;> decide
  have versioned : ∀ (major minor : UInt16) (name : String),
      name.toList.all isWordChar ->
        (displayVersioned major minor name).toList.all isWordChar := by
    intro major minor name all
    simp only [displayVersioned, String.toList_append, all_append, toString_all_isWordChar, all]
    decide
  cases tag with
  | any | win32 | winAmd64 | winArm64 | winIa64 => decide
  | manylinux major minor arch | musllinux major minor arch =>
    rw [display, String.toList_append, all_append, versioned _ _ _ (archName arch)]
    decide
  | macos major minor format =>
    rw [display, String.toList_append, all_append, versioned _ _ _ (by cases format <;> decide)]
    decide
  | ios major minor multiarch =>
    rw [display, String.toList_append, all_append, versioned _ _ _ (by cases multiarch <;> decide)]
    decide
  | pyodide major minor | pyEmscripten major minor =>
    rw [display, String.toList_append, all_append, versioned _ _ _ (by decide)]
    decide
  | manylinux1 arch | manylinux2010 arch | manylinux2014 arch | linux arch =>
    rw [display, String.toList_append, all_append, archName arch]
    decide
  | freeBsd arch | netBsd arch | openBsd arch | dragonfly arch | haiku arch | illumos arch =>
    rw [display, String.toList_append, all_append, arch.all_isWordChar]
    decide
  | solaris arch =>
    simp only [display, String.toList_append, all_append, arch.all_isWordChar]
    decide
  | android apiLevel abi =>
    have name : abi.name.toList.all isWordChar := by cases abi <;> decide
    simp only [display, String.toList_append, all_append, toString_all_isWordChar, name]
    decide

end PlatformTag

end Uv.Platform
