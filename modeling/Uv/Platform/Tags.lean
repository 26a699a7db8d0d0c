import Uv.Library.Result
import Uv.Platform.Tag

namespace Uv.Platform

open List

/-!
# The tags of an interpreter

An interpreter accepts a wheel if one of the combinations of the wheel's tags is
among the interpreter's own.  The list of these is built from the interpreter's
version, its implementation and the tags of its platform.  Platforms and their
tags are parameters: any type of platforms, and any type of tags with the one
that every platform accepts.
-/

inductive TagsError where
  | unsupportedImplementation (name : String)
  | unknownImplementation (name : String)
  | gilIsACPythonProblem (name : String)
  | debugIsACPythonProblem (name : String)
  | platformError
  deriving DecidableEq, Repr

inductive Implementation where
  | cpython (variant : CPythonAbiVariants)
  | pypy
  | graalpy
  | pyston
  deriving DecidableEq, Repr

namespace Implementation

def languageTag (pythonVersion : UInt8 × UInt8) : Implementation -> LanguageTag
  | .cpython _ => .cpython pythonVersion
  | .pypy => .pypy pythonVersion
  | .graalpy => .graalpy pythonVersion
  | .pyston => .pyston pythonVersion

def abiTag (pythonVersion implementationVersion : UInt8 × UInt8) : Implementation -> AbiTag
  | .cpython variant => .cpython pythonVersion variant
  | .pypy => .pypy (some pythonVersion) implementationVersion
  | .graalpy => .graalpy pythonVersion implementationVersion
  | .pyston => .pyston implementationVersion

def parse (name : String) (variant : CPythonAbiVariants) : Except TagsError Implementation :=
  match name with
  | "cpython" => .ok (.cpython variant)
  | "pypy" => .ok .pypy
  | "graalpy" => .ok .graalpy
  | "pyston" => .ok .pyston
  | "python" => .error (.unsupportedImplementation name)
  | "ironpython" => .error (.unsupportedImplementation name)
  | "jython" => .error (.unsupportedImplementation name)
  | _ => .error (.unknownImplementation name)

end Implementation

structure TagsOptions where
  manylinuxCompatible : Bool
  gilDisabled : Bool
  debugEnabled : Bool

/-- What is known about platforms and their tags. -/
structure Platforms (Platform Tag : Type) where
  compatibleTags : Platform -> Except TagsError (List Tag)
  isManylinuxOs : Platform -> Bool
  isManylinux : Tag -> Bool
  any : Tag

/-- The combinations of tags of an interpreter.  The priorities, which follow the
order, are left out. -/
structure Tags (Tag : Type) where
  tags : List (LanguageTag × AbiTag × Tag)

/-- The pairs of numbers are compared one after the other. -/
def versionLE (left right : UInt8 × UInt8) : Bool :=
  left.1 < right.1 || left.1 == right.1 && left.2 <= right.2

/-- The numbers from the largest down to the smallest. -/
def countDown (smallest largest : UInt8) : List UInt8 :=
  ((List.range (largest.toNat + 1 - smallest.toNat)).map fun i => (smallest.toNat + i).toUInt8).reverse

namespace Tags

variable {Platform Tag : Type}

/-- One combination for each platform tag. -/
def spread (language : LanguageTag) (abi : AbiTag) (platformTags : List Tag) :
    List (LanguageTag × AbiTag × Tag) :=
  platformTags.map fun platformTag => (language, abi, platformTag)

/-- The stable ABI of this and all earlier versions, and no ABI for this one. -/
def stableAbi (variant : CPythonAbiVariants) (pythonVersion : UInt8 × UInt8)
    (platformTags : List Tag) : List (LanguageTag × AbiTag × Tag) :=
  (countDown 2 pythonVersion.2).flatMap fun minor =>
    spread (.cpython (pythonVersion.1, minor)) (if variant.freethreading then .abi3t else .abi3)
      platformTags ++
    if minor = pythonVersion.2 then spread (.cpython (pythonVersion.1, minor)) .none platformTags
    else []

variable (pythonVersion : UInt8 × UInt8)

/-- No ABI, for this and all earlier versions, and for the major version. -/
def pureTags (platformTags : List Tag) :
    List (LanguageTag × AbiTag × Tag) :=
  (countDown 0 pythonVersion.2).flatMap fun minor =>
    spread (.python pythonVersion.1 (some minor)) .none platformTags ++
    if minor = pythonVersion.2 then spread (.python pythonVersion.1 none) .none platformTags
    else []

/-- The combinations for an implementation and its platform tags. -/
def combinations (implementation : Implementation)
    (pythonVersion implementationVersion : UInt8 × UInt8) (platformTags : List Tag) (any : Tag) :
    List (LanguageTag × AbiTag × Tag) :=
  -- This exact C API version.
  spread (implementation.languageTag pythonVersion)
    (implementation.abiTag pythonVersion implementationVersion) platformTags ++
  -- A debug build of CPython 3.8 or later also accepts release builds.
  (match implementation with
    | .cpython variant =>
      if versionLE (3, 8) pythonVersion && variant.debug then
        spread (.cpython pythonVersion) (.cpython pythonVersion { variant with debug := false })
          platformTags
      else []
    | _ => []) ++
  (match implementation with
    | .cpython variant => stableAbi variant pythonVersion platformTags
    | _ => []) ++
  pureTags pythonVersion platformTags ++
  -- No binary.
  (match implementation with
    | .cpython _ => [(implementation.languageTag pythonVersion, .none, any)]
    | _ => []) ++
  pureTags pythonVersion [any]

/-- The flags of the interpreter. -/
def variantOf (implementationName : String) (options : TagsOptions) :
    Except TagsError CPythonAbiVariants := do
  if options.gilDisabled && implementationName != "cpython" then
    throw (.gilIsACPythonProblem implementationName)
  if options.debugEnabled && implementationName != "cpython" then
    throw (.debugIsACPythonProblem implementationName)
  pure {
    freethreading := options.gilDisabled
    debug := options.debugEnabled
    pymalloc := versionLE pythonVersion (3, 7) && implementationName == "cpython" }

def fromEnv (platforms : Platforms Platform Tag) (platform : Platform)
    (pythonVersion : UInt8 × UInt8) (implementationName : String)
    (implementationVersion : UInt8 × UInt8) (options : TagsOptions) :
    Except TagsError (Tags Tag) := do
  let variant <- variantOf pythonVersion implementationName options
  let implementation <- Implementation.parse implementationName variant
  let compatible <- platforms.compatibleTags platform
  let platformTags :=
    if platforms.isManylinuxOs platform && !options.manylinuxCompatible then
      compatible.filter fun tag => !platforms.isManylinux tag
    else compatible
  pure ⟨combinations implementation pythonVersion implementationVersion platformTags platforms.any⟩

/-- Some combination of the tags is accepted. -/
def isCompatible [DecidableEq Tag] (tags : Tags Tag) (pythonTags : List LanguageTag)
    (abiTags : List AbiTag) (platformTags : List Tag) : Bool :=
  pythonTags.any fun python => abiTags.any fun abi => platformTags.any fun platform =>
    decide ((python, abi, platform) ∈ tags.tags)

/-! ## What is accepted -/

lemma mem_countDown {smallest largest minor : UInt8} (inside : minor ∈ countDown smallest largest) :
    minor <= largest := by
  rw [countDown, mem_reverse] at inside
  rcases mem_map.mp inside with ⟨offset, within, rfl⟩
  rw [mem_range] at within
  have bound := largest.toNat_lt
  rw [UInt8.le_iff_toNat_le, UInt8.toNat_ofNat_of_lt' (by rw [UInt8.size]; omega)]
  omega

variable {platformTags : List Tag}

lemma mem_spread {language language' : LanguageTag} {abi abi' : AbiTag}
    {platform : Tag} (inside : (language, abi, platform) ∈ spread language' abi' platformTags) :
    language = language' /\ abi = abi' := by
  rcases mem_map.mp inside with ⟨_, _, same⟩
  cases same
  exact ⟨rfl, rfl⟩

/-- The languages and ABIs that an interpreter of a version accepts. -/
inductive Accepted (implementation : Implementation)
    (pythonVersion implementationVersion : UInt8 × UInt8) : LanguageTag -> AbiTag -> Prop where
  | exact (language : LanguageTag) : Accepted implementation pythonVersion implementationVersion
      language (implementation.abiTag pythonVersion implementationVersion)
  | release (language : LanguageTag) (variant : CPythonAbiVariants) :
      Accepted implementation pythonVersion implementationVersion language
        (.cpython pythonVersion variant)
  | stable (language : LanguageTag) (abi : AbiTag) (stable : abi.isStableAbi = true) :
      Accepted implementation pythonVersion implementationVersion language abi
  | cpython : Accepted implementation pythonVersion implementationVersion (.cpython pythonVersion) .none
  | python (minor : UInt8) (earlier : minor <= pythonVersion.2) :
      Accepted implementation pythonVersion implementationVersion
        (.python pythonVersion.1 (some minor)) .none
  | major : Accepted implementation pythonVersion implementationVersion
      (.python pythonVersion.1 Option.none) .none

section

variable {implementation : Implementation} {pythonVersion implementationVersion : UInt8 × UInt8}
  {platformTags : List Tag} {any platform : Tag} {language : LanguageTag} {abi : AbiTag}

lemma pureTags_accepted (inside : (language, abi, platform) ∈ pureTags pythonVersion platformTags) :
    Accepted implementation pythonVersion implementationVersion language abi := by
  rcases mem_flatMap.mp inside with ⟨minor, mem, inside⟩
  rcases mem_append.mp inside with inside | inside
  · rcases mem_spread inside with ⟨rfl, rfl⟩
    exact .python minor (mem_countDown mem)
  · split at inside
    · rcases mem_spread inside with ⟨rfl, rfl⟩
      exact .major
    · cases inside

variable {variant : CPythonAbiVariants}

lemma stableAbi_accepted
    (inside : (language, abi, platform) ∈ stableAbi variant pythonVersion platformTags) :
    Accepted implementation pythonVersion implementationVersion language abi := by
  rcases mem_flatMap.mp inside with ⟨minor, _, inside⟩
  rcases mem_append.mp inside with inside | inside
  · rcases mem_spread inside with ⟨rfl, rfl⟩
    refine .stable _ _ ?_
    split <;> rfl
  · split at inside
    next same =>
      subst same
      rcases mem_spread inside with ⟨rfl, rfl⟩
      exact .cpython
    · cases inside

/-- Every combination is one of the above. -/
lemma combinations_accepted (inside : (language, abi, platform) ∈
      combinations implementation pythonVersion implementationVersion platformTags any) :
    Accepted implementation pythonVersion implementationVersion language abi := by
  simp only [combinations, mem_append] at inside
  rcases inside with ((((inside | inside) | inside) | inside) | inside) | inside
  · rcases mem_spread inside with ⟨rfl, rfl⟩
    exact .exact _
  · cases implementation with
    | cpython variant =>
      simp only at inside
      split at inside
      · rcases mem_spread inside with ⟨rfl, rfl⟩
        exact .release _ _
      · cases inside
    | _ => cases inside
  · cases implementation with
    | cpython variant => exact stableAbi_accepted inside
    | _ => cases inside
  · exact pureTags_accepted inside
  · cases implementation with
    | cpython variant =>
      cases mem_singleton.mp inside
      exact .cpython
    | _ => cases inside
  · exact pureTags_accepted inside

/-- A CPython accepts wheels for its version without ABI and platform. -/
lemma cpython_none_mem :
    (.cpython pythonVersion, .none, any) ∈
      combinations (.cpython variant) pythonVersion implementationVersion platformTags any := by
  simp only [combinations, mem_append]
  exact .inl (.inr (mem_singleton.mpr rfl))

end

section

variable {platforms : Platforms Platform Tag} {environment : Platform}
  {pythonVersion implementationVersion : UInt8 × UInt8} {name : String} {options : TagsOptions}
  {tags : Tags Tag}

lemma fromEnv_combinations
    (built : fromEnv platforms environment pythonVersion name implementationVersion options = .ok tags) :
    ∃ implementation platformTags, tags.tags =
      combinations implementation pythonVersion implementationVersion platformTags platforms.any := by
  rcases Library.of_bind_ok built with ⟨variant, _, built⟩
  rcases Library.of_bind_ok built with ⟨implementation, _, built⟩
  rcases Library.of_bind_ok built with ⟨compatible, _, built⟩
  cases built
  exact ⟨implementation, _, rfl⟩

/-- A plain CPython is supported wherever the platform is. -/
lemma fromEnv_cpython {compatible : List Tag}
    (supported : platforms.compatibleTags environment = .ok compatible) :
    ∃ platformTags variant,
      fromEnv platforms environment pythonVersion "cpython" implementationVersion
        ⟨true, false, false⟩ = .ok ⟨combinations (.cpython variant) pythonVersion
          implementationVersion platformTags platforms.any⟩ := by
  refine ⟨compatible,
    ⟨false, false, false, versionLE pythonVersion (3, 7) && "cpython" == "cpython"⟩, ?_⟩
  simp only [fromEnv, supported, Bool.not_true, Bool.and_false]
  rfl

end

lemma isCompatible_iff [DecidableEq Tag] {tags : Tags Tag} {pythonTags : List LanguageTag}
    {abiTags : List AbiTag} :
    tags.isCompatible pythonTags abiTags platformTags <->
      ∃ python ∈ pythonTags, ∃ abi ∈ abiTags,
        ∃ platform ∈ platformTags, (python, abi, platform) ∈ tags.tags := by
  simp only [isCompatible, any_eq_true, decide_eq_true_eq]

end Tags

end Uv.Platform
