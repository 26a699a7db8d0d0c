import Uv.Pep440.ReleaseRanges
import Uv.Wheel.Filename

namespace Uv.Python

open Library
open Pep440 Version
open Platform
open Wheel

/-!
# Wheels for a range of Python versions

A lock file keeps the wheels that can be used by some Python version that the
project supports.  The supported versions are given by specifiers; what is kept
of them is a lower and an upper bound, cut to two numbers.  A wheel is dropped
if its tags name a version outside these bounds.

A wheel that an interpreter accepts is kept if the cut bounds reach the
interpreter's version, or if another of its tags asks for no version or for one that
they reach.  They reach every version 3.m.p between the bounds, except where the upper
bound excludes a release whose third number is zero but that is still above 3.m.0.
-/

structure RequiresPythonRange where
  lower : LowerBound
  upper : UpperBound

structure RequiresPython where
  specifiers : VersionSpecifiers
  range : RequiresPythonRange

/-- The bounds of the specifiers, as far as their releases go. -/
def RequiresPython.fromSpecifiers (alg : RangeAlgebra Version Version.cmp)
    (specifiers : VersionSpecifiers) : RequiresPython :=
  let bounds := (alg.boundingRange (specifiers.releaseSpecifiersToRanges alg)).getD
    ⟨.unbounded, .unbounded⟩
  ⟨specifiers, .new bounds.lower, .new bounds.upper⟩

/-! ## Matching a wheel -/

/-- The version that a tag names. -/
def tagVersion (minor : UInt8) : Version := .new [3, minor.toUInt64] (List.cons_ne_nil _ _)

namespace RequiresPythonRange

variable (range : RequiresPythonRange)

/-- The version of the tag is not below the lower bound. -/
def aboveLower (minor : UInt8) : Bool :=
  LowerBound.cmp ⟨.included (tagVersion minor)⟩ range.lower.majorMinor != .lt

/-- The version of the tag is not above the upper bound. -/
def belowUpper (minor : UInt8) : Bool :=
  UpperBound.cmp ⟨.included (tagVersion minor)⟩ range.upper.majorMinor != .gt

/-- The test of a language tag, for wheels without an ABI. -/
def matchesLanguage : LanguageTag -> Bool
  -- Python 2 is never allowed.
  | .python 2 _ => false
  | .cpython (2, _) => false
  | .pypy (2, _) => false
  | .graalpy (2, _) => false
  | .pyston (2, _) => false
  -- The version is a lower bound.
  | .python 3 (some minor) => range.belowUpper minor
  -- The version has to match.
  | .cpython (3, minor) => range.aboveLower minor && range.belowUpper minor
  | .pypy (3, minor) => range.aboveLower minor && range.belowUpper minor
  | .graalpy (3, minor) => range.aboveLower minor && range.belowUpper minor
  | .pyston (3, minor) => range.aboveLower minor && range.belowUpper minor
  -- Unknown tags are allowed.
  | _ => true

/-- The test of an ABI tag, next to the language tags of the wheel. -/
def matchesAbi (pythonTags : List LanguageTag) : AbiTag -> Bool
  | .abi3 => true
  | .abi3t => true
  | .none => pythonTags.any range.matchesLanguage
  -- Python 2 is never allowed.
  | .cpython (2, _) _ => false
  | .pypy none _ => false
  | .pypy (some (2, _)) _ => false
  | .graalpy (2, _) _ => false
  | .cpython (3, minor) _ => range.aboveLower minor && range.belowUpper minor
  | .pypy (some (3, minor)) _ => range.aboveLower minor && range.belowUpper minor
  | .graalpy (3, minor) _ => range.aboveLower minor && range.belowUpper minor
  -- Unknown tags are allowed.
  | _ => true

end RequiresPythonRange

variable {P : Type}

/-- Some combination of the wheel's tags may be used in the range. -/
def RequiresPython.matchesWheelTag (requires : RequiresPython) (wheel : WheelFilename P) : Bool :=
  wheel.tags.abiTags.any (requires.range.matchesAbi wheel.tags.pythonTags)

/-! ## Bounds that reach a version -/

/-- A number of a release, with zeros after its end. -/
def releaseNumber (version : Version) (index : Nat) : Nat := (version.release.getD index 0).toNat

/-- The first two numbers of the lower bound are at most those of the version. -/
def LowerReaches (minor : Nat) : Bound Version -> Prop
  | .unbounded => True
  | .included version | .excluded version =>
    releaseNumber version 0 < 3 \/ releaseNumber version 0 = 3 /\ releaseNumber version 1 <= minor

/-- The first two numbers of the upper bound are at least those of the version.  If
they are the same, then the bound is inclusive or has a third number that is not
zero. -/
def UpperReaches (minor : Nat) : Bound Version -> Prop
  | .unbounded => True
  | .included version =>
    3 < releaseNumber version 0 \/ 3 = releaseNumber version 0 /\ minor <= releaseNumber version 1
  | .excluded version =>
    3 < releaseNumber version 0 \/ 3 = releaseNumber version 0 /\
      (minor < releaseNumber version 1 \/
        minor = releaseNumber version 1 /\ 0 < releaseNumber version 2)

structure RequiresPythonRange.Reaches (range : RequiresPythonRange) (minor : Nat) : Prop where
  lower : LowerReaches minor range.lower.bound
  upper : UpperReaches minor range.upper.bound

lemma releaseKey_take_two (release : List UInt64) :
    releaseKey (release.take 2) = releaseKey [release.getD 0 0, release.getD 1 0] := by
  unfold releaseKey
  congr 1
  funext index
  rcases release with _ | ⟨first, _ | ⟨second, rest⟩⟩
  all_goals rcases index with _ | _ | index <;> rfl

lemma tagVersion_le_majorMinor (minor : UInt8) (version : Version) :
    (tagVersion minor).key <= (majorMinor version).key <->
      3 < releaseNumber version 0 \/
        3 = releaseNumber version 0 /\ minor.toNat <= releaseNumber version 1 := by
  rw [tagVersion, majorMinor, (new_releaseOnly _ _).key_le_iff (new_releaseOnly _ _),
    release_new, release_new, releaseKey_take_two, releaseKey_cons_le_iff, releaseKey_cons_le_iff]
  simp [releaseNumber, le_iff_lt_or_eq]

lemma majorMinor_le_tagVersion (minor : UInt8) (version : Version) :
    (majorMinor version).key <= (tagVersion minor).key <->
      releaseNumber version 0 < 3 \/
        releaseNumber version 0 = 3 /\ releaseNumber version 1 <= minor.toNat := by
  rw [tagVersion, majorMinor, (new_releaseOnly _ _).key_le_iff (new_releaseOnly _ _),
    release_new, release_new, releaseKey_take_two, releaseKey_cons_le_iff, releaseKey_cons_le_iff]
  simp [releaseNumber, le_iff_lt_or_eq]

namespace RequiresPythonRange

variable (range : RequiresPythonRange) (minor : UInt8)

lemma aboveLower_iff :
    range.aboveLower minor <-> LowerReaches minor.toNat range.lower.bound := by
  have below : ∀ version, (cmp (tagVersion minor) (majorMinor version) != .lt) <->
      releaseNumber version 0 < 3 \/
        releaseNumber version 0 = 3 /\ releaseNumber version 1 <= minor.toNat := by
    intro version
    rw [<- majorMinor_le_tagVersion, bne_iff_ne, Ne, cmp_orderedBy.lt_iff, not_lt]
  rw [aboveLower]
  rcases range with ⟨⟨lower⟩, upper⟩
  cases lower with
  | included version | excluded version => exact below version
  | unbounded => exact iff_of_true rfl trivial

lemma belowUpper_iff :
    range.belowUpper minor <-> UpperReaches minor.toNat range.upper.bound := by
  have atMost : ∀ version, (cmp (tagVersion minor) (majorMinor version) != .gt) <->
      3 < releaseNumber version 0 \/
        3 = releaseNumber version 0 /\ minor.toNat <= releaseNumber version 1 := by
    intro version
    rw [<- tagVersion_le_majorMinor, bne_iff_ne, Ne, cmp_orderedBy.gt_iff, not_lt]
  rw [belowUpper]
  rcases range with ⟨lower, ⟨upper⟩⟩
  cases upper with
  | included version => exact atMost version
  | unbounded => exact iff_of_true rfl trivial
  | excluded version =>
    have patch : version.release[2]?.any (· > 0) <-> 0 < releaseNumber version 2 := by
      rw [releaseNumber, List.getD_eq_getElem?_getD]
      cases version.release[2]? with
      | none => simp
      | some number => simp [UInt64.lt_iff_toNat_lt]
    rw [UpperBound.majorMinor, UpperReaches]
    by_cases positive : version.release[2]?.any (· > 0)
    · rw [if_pos positive]
      refine (atMost version).trans ?_
      have := patch.mp positive
      grind
    · rw [if_neg positive]
      have zero : ¬ 0 < releaseNumber version 2 := fun more => positive (patch.mpr more)
      have less : (UpperBound.cmp ⟨.included (tagVersion minor)⟩
          ⟨.excluded (majorMinor version)⟩ != .gt) <->
          (tagVersion minor).key < (majorMinor version).key := by
        rw [<- cmp_orderedBy.lt_iff, UpperBound.cmp]
        cases (tagVersion minor).cmp (majorMinor version) <;> decide
      rw [less, <- not_le, majorMinor_le_tagVersion]
      grind

lemma reaches_iff :
    range.Reaches minor.toNat <-> range.aboveLower minor /\ range.belowUpper minor := by
  rw [aboveLower_iff, belowUpper_iff]
  exact ⟨fun reaches => ⟨reaches.lower, reaches.upper⟩, fun both => ⟨both.1, both.2⟩⟩

/-- A version of an interpreter that is not ruled out.  Python 2 always is, and the bounds
are compared with versions of Python 3 only. -/
def Admits (version : UInt8 × UInt8) : Prop :=
  version.1 ≠ 2 /\ (version.1 = 3 -> range.Reaches version.2.toNat)

/-- The version of a generic tag is only a lower bound. -/
def AdmitsLanguage : LanguageTag -> Prop
  | .none | .cpythonMajor _ => True
  | .python major minor => major ≠ 2 /\ (major = 3 ->
      ∀ number, minor = some number -> UpperReaches number.toNat range.upper.bound)
  | .cpython version | .pypy version | .graalpy version | .pyston version => range.Admits version

/-- The ABI serves several versions, or a version that is not ruled out; without an ABI a
language tag has to do so. -/
def AdmitsAbi (pythonTags : List LanguageTag) : AbiTag -> Prop
  | .abi3 | .abi3t | .pyston _ => True
  | .none => ∃ language ∈ pythonTags, range.AdmitsLanguage language
  | .pypy none _ => False
  | .cpython version _ | .pypy (some version) _ | .graalpy version _ => range.Admits version

lemma admits_iff (major minor : UInt8) :
    range.Admits (major, minor) <->
      major ≠ 2 /\ (major = 3 ->
        range.aboveLower minor = true /\ range.belowUpper minor = true) := by
  rw [Admits, reaches_iff]

lemma matchesLanguage_iff (language : LanguageTag) :
    range.matchesLanguage language = true <-> range.AdmitsLanguage language := by
  cases language with
  | none | cpythonMajor => exact iff_of_true rfl trivial
  | python major minor =>
    unfold matchesLanguage AdmitsLanguage
    split <;> simp_all [belowUpper_iff]
  | cpython version | pypy version | graalpy version | pyston version =>
    rcases version with ⟨major, minor⟩
    change _ <-> range.Admits (major, minor)
    rw [admits_iff, matchesLanguage.eq_def]
    split <;> simp_all

lemma matchesAbi_iff (pythonTags : List LanguageTag) (abi : AbiTag) :
    range.matchesAbi pythonTags abi = true <-> range.AdmitsAbi pythonTags abi := by
  cases abi with
  | abi3 | abi3t | pyston => exact iff_of_true rfl trivial
  | none => simp [matchesAbi, AdmitsAbi, matchesLanguage_iff]
  | cpython version | graalpy version =>
    rcases version with ⟨major, minor⟩
    change _ <-> range.Admits (major, minor)
    rw [admits_iff, matchesAbi.eq_def]
    split <;> simp_all
  | pypy version =>
    rcases version with _ | ⟨major, minor⟩
    · exact iff_of_false nofun id
    change _ <-> range.Admits (major, minor)
    rw [admits_iff, matchesAbi.eq_def]
    split <;> simp_all

end RequiresPythonRange

/-! ### Versions between the bounds -/

/-- The bound consists of a release. -/
def PlainBound : Bound Version -> Prop
  | .included version | .excluded version => version.ReleaseOnly
  | .unbounded => True

lemma trimBound_plain (bound : Bound Version) : PlainBound (trimBound bound) := by
  cases bound with
  | included version | excluded version => exact version.onlyReleaseTrimmed_spec.1
  | unbounded => trivial

/-- The version 3.m.p. -/
def patchVersion (minor : UInt8) (patch : UInt64) : Version :=
  .new [3, minor.toUInt64, patch] (List.cons_ne_nil _ _)

lemma releaseNumber_patchVersion (minor : UInt8) (patch : UInt64) :
    releaseNumber (patchVersion minor patch) 0 = 3 /\
      releaseNumber (patchVersion minor patch) 1 = minor.toNat := by
  simp [releaseNumber, patchVersion, release_new]

lemma releaseNumber_of_le {left right : Version} (only : left.ReleaseOnly)
    (only' : right.ReleaseOnly) (le : left.key <= right.key) :
    releaseNumber left 0 < releaseNumber right 0 \/ releaseNumber left 0 = releaseNumber right 0 /\
      releaseNumber left 1 <= releaseNumber right 1 := by
  rw [only.key_le_iff only', releaseKey_eq_cons_cons left.release,
    releaseKey_eq_cons_cons right.release, releaseKey_cons_le_iff, releaseKey_cons_le_iff] at le
  simp only [releaseNumber]
  omega

/-- The upper bound excludes a release whose first two numbers are those of the version and
whose third is zero. -/
def DropsZero (minor : Nat) : Bound Version -> Prop
  | .excluded version => releaseNumber version 0 = 3 /\ releaseNumber version 1 = minor /\
      releaseNumber version 2 = 0
  | _ => False

/-- The lower bound of a version is at most the version. -/
lemma lower_le {lower : LowerBound} {version : Version} (above : lower.contains version) :
    ∀ bound, lower.bound = .included bound \/ lower.bound = .excluded bound ->
      bound.key <= version.key := by
  rw [LowerBound.contains] at above
  rintro bound (same | same)
  · rw [same] at above
    exact (cmp_orderedBy.isLE_iff _ _).mp above
  · rw [same] at above
    exact ((cmp_orderedBy.lt_iff _ _).mp (Ordering.isLT_iff_eq_lt.mp above)).le

lemma le_upper {upper : UpperBound} {version : Version} (below : upper.contains version) :
    ∀ bound, upper.bound = .included bound \/ upper.bound = .excluded bound ->
      version.key <= bound.key := by
  rw [UpperBound.contains] at below
  rintro bound (same | same)
  · rw [same] at below
    change (bound.cmp version).isGE = true at below
    rw [<- Ordering.isLE_swap, cmp_orderedBy.swap] at below
    exact (cmp_orderedBy.isLE_iff _ _).mp below
  · rw [same] at below
    exact ((cmp_orderedBy.gt_iff _ _).mp (Ordering.isGT_iff_eq_gt.mp below)).le

variable {range : RequiresPythonRange} {minor : UInt8}

/-- Bounds around a version 3.m.p accept the tag of 3.m, unless the third number of the upper
one is lost. -/
theorem RequiresPythonRange.matchesLanguage_iff_of_between {patch : UInt64}
    (lower upper : Bound Version)
    (above : (LowerBound.new lower).contains (patchVersion minor patch) = true)
    (below : (UpperBound.new upper).contains (patchVersion minor patch) = true) :
    matchesLanguage ⟨.new lower, .new upper⟩ (.cpython (3, minor)) = true <->
      ¬ DropsZero minor.toNat (trimBound upper) := by
  have numbers := releaseNumber_patchVersion minor patch
  have only : (patchVersion minor patch).ReleaseOnly := new_releaseOnly _ _
  have lowerReaches : LowerReaches minor.toNat (trimBound lower) := by
    have plain := trimBound_plain lower
    have le := lower_le above
    rw [LowerBound.new] at le
    cases bound : trimBound lower with
    | unbounded => trivial
    | included version | excluded version =>
      rw [bound] at plain le
      have order := releaseNumber_of_le plain only (le version (by simp))
      rwa [numbers.1, numbers.2] at order
  have upperReaches : UpperReaches minor.toNat (trimBound upper) <->
      ¬ DropsZero minor.toNat (trimBound upper) := by
    have plain := trimBound_plain upper
    have le := le_upper below
    rw [UpperBound.new] at le
    cases bound : trimBound upper with
    | unbounded => exact iff_of_true trivial id
    | included version | excluded version =>
      rw [bound] at plain le
      have order := releaseNumber_of_le only plain (le version (by simp))
      rw [numbers.1, numbers.2] at order
      simp only [UpperReaches, DropsZero, not_false_eq_true, iff_true]
      omega
  rw [matchesLanguage, Bool.and_eq_true, aboveLower_iff, belowUpper_iff]
  exact (and_iff_right lowerReaches).trans upperReaches

theorem RequiresPythonRange.matchesLanguage_between_minor :
    matchesLanguage ⟨.new (.included (tagVersion 8)), .new (.excluded (tagVersion 11))⟩
      (.cpython (3, 10)) = true :=
  (@matchesLanguage_iff_of_between 10 4 _ _ (by decide +kernel) (by decide +kernel)).mpr
    fun drops => absurd drops.2.1 (by decide +kernel)

/-! ## Usable wheels -/

section

variable {Platform : Type} [DecidableEq P] (platforms : Platforms Platform P)

/-- Some interpreter of version 3.m accepts the wheel. -/
def AcceptedBy (wheel : WheelFilename P) (minor : UInt8) : Prop :=
  ∃ environment name, ∃ implementationVersion options tags,
      Tags.fromEnv platforms environment (3, minor) name implementationVersion options = .ok tags /\
        wheel.isCompatible tags = true

variable {platforms}

/-- Earlier versions are reached by the upper bound, too. -/
lemma RequiresPythonRange.Reaches.earlier {earlier : UInt8}
    (reaches : range.Reaches minor.toNat) (below : earlier <= minor) :
    range.belowUpper earlier := by
  rw [belowUpper_iff]
  have upper := reaches.upper
  have le := UInt8.le_iff_toNat_le.mp below
  cases bound : range.upper.bound with
  | unbounded => trivial
  | included version | excluded version =>
    rw [bound, UpperReaches] at upper
    rw [UpperReaches]
    omega

/-- Every combination that an interpreter accepts passes the test. -/
lemma RequiresPythonRange.Reaches.matchesAbi
    (reaches : range.Reaches minor.toNat) {implementation : Implementation}
    {implementationVersion : UInt8 × UInt8} {language : LanguageTag} {abi : AbiTag}
    {pythonTags : List LanguageTag} (mem : language ∈ pythonTags)
    (accepted : Tags.Accepted implementation (3, minor) implementationVersion language abi) :
    range.matchesAbi pythonTags abi := by
  have both : (range.aboveLower minor && range.belowUpper minor) :=
    Bool.and_eq_true_iff.mpr ((range.reaches_iff minor).mp reaches)
  cases accepted with
  | exact =>
    cases implementation with
    | pyston => rfl
    | _ => exact both
  | release _ variant => exact both
  | stable _ _ stable =>
    cases abi with
    | abi3 => rfl
    | abi3t => rfl
    | _ => cases stable
  | cpython => exact List.any_eq_true.mpr ⟨_, mem, both⟩
  | python earlier below => exact List.any_eq_true.mpr ⟨_, mem, reaches.earlier below⟩
  | major => exact List.any_eq_true.mpr ⟨_, mem, rfl⟩

lemma RequiresPython.matchesWheelTag_of_reaches {requires : RequiresPython}
    (reaches : requires.range.Reaches minor.toNat) {wheel : WheelFilename P}
    (accepted : AcceptedBy platforms wheel minor) : requires.matchesWheelTag wheel := by
  rcases accepted with ⟨_, _, _, _, tags, built, compatible⟩
  rw [WheelFilename.isCompatible, Bool.and_eq_true, Tags.isCompatible_iff] at compatible
  rcases compatible.2 with ⟨language, mem, abi, abiListed, platform, _, inside⟩
  rcases Tags.fromEnv_combinations built with ⟨implementation, platformTags, same⟩
  rw [same] at inside
  exact List.any_eq_true.mpr
    ⟨abi, abiListed, reaches.matchesAbi mem (Tags.combinations_accepted inside)⟩

/-- A wheel for one version of CPython, without ABI and platform. -/
def plainWheel (any : P) (minor : UInt8) : WheelFilename P :=
  .new "example" (.new [1] (by decide))
    (Version.fromStr_spelled (show Version.fromStr "1" = .ok _ from rfl)) (.cpython (3, minor)) .none any

lemma plainWheel_accepted {environment : Platform} {compatible : List P}
    (supported : platforms.compatibleTags environment = .ok compatible) (minor : UInt8) :
    AcceptedBy platforms (plainWheel platforms.any minor) minor := by
  rcases @Tags.fromEnv_cpython _ _ platforms environment (3, minor) (3, minor) compatible supported
    with ⟨platformTags, variant, built⟩
  refine ⟨environment, _, _, _, _, built, ?_⟩
  rw [WheelFilename.isCompatible, Bool.and_eq_true, Tags.isCompatible_iff]
  exact ⟨rfl, _, List.mem_singleton.mpr rfl, _, List.mem_singleton.mpr rfl, _,
    List.mem_singleton.mpr rfl, Tags.cpython_none_mem⟩

end

end Uv.Python
