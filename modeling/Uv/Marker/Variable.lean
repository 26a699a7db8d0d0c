import Uv.Pep440.ReleaseRanges

namespace Uv.Marker

open Pep440 Library

/-!
# Marker variables and environments

A marker tests the values of an environment: strings such as `os_name`, versions
such as `python_full_version`, and the extras and dependency groups that are
active.  Each test of a decision diagram belongs to one `Variable`, and the order
of the variables is the order in which they are tested.
-/

abbrev ExtraName := String
abbrev GroupName := String

inductive CanonicalMarkerValueVersion where
  | implementationVersion
  | pythonFullVersion
  deriving DecidableEq, Repr

/-- In the order of the tests. -/
inductive CanonicalMarkerValueString where
  | osName
  | sysPlatform
  | platformSystem
  | platformMachine
  | platformPythonImplementation
  | platformRelease
  | platformVersion
  | implementationName
  deriving DecidableEq, Repr

inductive MarkerValueList where
  | extras
  | dependencyGroups
  deriving DecidableEq, Repr

/-- The two sides of `'...' in extras`, with invalid values preserved. -/
inductive CanonicalMarkerListPair where
  | extras (name : ExtraName)
  | dependencyGroup (name : GroupName)
  | arbitrary (key : MarkerValueList) (value : String)
  deriving DecidableEq, Repr

inductive Variable where
  | string (key : CanonicalMarkerValueString)
  | versionString (key : CanonicalMarkerValueString)
  | version (key : CanonicalMarkerValueVersion)
  | isIn (key : CanonicalMarkerValueString) (value : String)
  | contains (key : CanonicalMarkerValueString) (value : String)
  | extra (name : ExtraName)
  | list (pair : CanonicalMarkerListPair)
  deriving DecidableEq, Repr

namespace CanonicalMarkerValueVersion

def rank : CanonicalMarkerValueVersion -> Nat
  | .implementationVersion => 0
  | .pythonFullVersion => 1

lemma rank_injective : Function.Injective rank := by
  intro left right same
  cases left <;> cases right <;> first | rfl | cases same

end CanonicalMarkerValueVersion

namespace CanonicalMarkerValueString

def rank : CanonicalMarkerValueString -> Nat
  | .osName => 0
  | .sysPlatform => 1
  | .platformSystem => 2
  | .platformMachine => 3
  | .platformPythonImplementation => 4
  | .platformRelease => 5
  | .platformVersion => 6
  | .implementationName => 7

lemma rank_injective : Function.Injective rank := by
  intro left right same
  cases left <;> cases right <;> first | rfl | cases same

/-- The key occurs in a pair of values that is known to be impossible. -/
def isConflicting (key : CanonicalMarkerValueString) : Bool :=
  key.rank <= platformSystem.rank

end CanonicalMarkerValueString

def CanonicalMarkerListPair.key : CanonicalMarkerListPair -> Nat ×ₗ String
  | .extras name => toLex (0, name)
  | .dependencyGroup name => toLex (1, name)
  | .arbitrary .extras value => toLex (2, value)
  | .arbitrary .dependencyGroups value => toLex (3, value)

lemma CanonicalMarkerListPair.key_injective : Function.Injective key := by
  intro left right same
  rcases left with _ | _ | ⟨_ | _, _⟩ <;> rcases right with _ | _ | ⟨_ | _, _⟩ <;>
    simp_all [key]

namespace Variable

/-- Variables are ordered by their kind, then by their key, then by their text. -/
def key : Variable -> Nat ×ₗ (Nat ×ₗ String)
  | .string key => toLex (0, toLex (key.rank, ""))
  | .versionString key => toLex (1, toLex (key.rank, ""))
  | .version key => toLex (2, toLex (key.rank, ""))
  | .isIn key value => toLex (3, toLex (key.rank, value))
  | .contains key value => toLex (4, toLex (key.rank, value))
  | .extra name => toLex (5, toLex (0, name))
  | .list pair => toLex (6, pair.key)

lemma key_injective : Function.Injective key := by
  intro left right same
  cases left <;> cases right <;>
    simp_all [key, CanonicalMarkerValueString.rank_injective.eq_iff,
      CanonicalMarkerValueVersion.rank_injective.eq_iff,
      CanonicalMarkerListPair.key_injective.eq_iff]

instance : LinearOrder Variable := LinearOrder.lift' key key_injective

/-- The variable occurs in a pair of values that is known to be impossible. -/
def isConflictingVariable : Variable -> Bool
  | .string key => key.isConflicting
  | _ => false

lemma osName_le (var : Variable) : .string .osName <= var := by
  change (Variable.string .osName).key <= var.key
  cases var with
  | string name => cases name <;> decide
  | _ => simp [key, Prod.Lex.toLex_le_toLex]

lemma eq_osName_of_lt {var : Variable} (before : var < .string .sysPlatform) :
    var = .string .osName := by
  change var.key < (Variable.string .sysPlatform).key at before
  cases var with
  | string name => cases name <;> first | rfl | exact absurd before (by decide)
  | _ => simp [key, Prod.Lex.toLex_lt_toLex] at before

/-- Conflicting variables are tested first. -/
lemma isConflictingVariable_of_le {left right : Variable} (le : left <= right)
    (conflicting : right.isConflictingVariable) : left.isConflictingVariable := by
  cases right with
  | string second =>
    have conflicting : second.rank <= 2 := of_decide_eq_true conflicting
    have le : left.key <= toLex (0, toLex (second.rank, "")) := le
    cases left with
    | string first =>
      rw [key, Prod.Lex.toLex_le_toLex, Prod.Lex.toLex_le_toLex] at le
      exact decide_eq_true (show first.rank <= 2 by grind)
    | _ => simp [key, Prod.Lex.toLex_le_toLex] at le
  | _ => cases conflicting

end Variable

/-! ## Environments -/

/-- A version together with its text. -/
structure StringVersion where
  string : String
  version : Version

structure MarkerEnvironment where
  implementationName : String
  implementationVersion : StringVersion
  osName : String
  platformMachine : String
  platformPythonImplementation : String
  platformRelease : String
  platformSystem : String
  platformVersion : String
  pythonFullVersion : StringVersion
  pythonVersion : StringVersion
  sysPlatform : String

namespace MarkerEnvironment

variable (env : MarkerEnvironment)

def getVersion : CanonicalMarkerValueVersion -> Version
  | .implementationVersion => env.implementationVersion.version
  | .pythonFullVersion => env.pythonFullVersion.version

def getString : CanonicalMarkerValueString -> String
  | .implementationName => env.implementationName
  | .osName => env.osName
  | .platformMachine => env.platformMachine
  | .platformPythonImplementation => env.platformPythonImplementation
  | .platformRelease => env.platformRelease
  | .platformSystem => env.platformSystem
  | .platformVersion => env.platformVersion
  | .sysPlatform => env.sysPlatform

end MarkerEnvironment

/-- The names that are active, either as `extra` or, in a lock file of the
standard, as `extras` and `dependency_groups`. -/
inductive ExtrasEnvironment where
  | extras (names : List ExtraName)
  | pep751 (extras : List ExtraName) (groups : List GroupName)

namespace ExtrasEnvironment

def extra : ExtrasEnvironment -> List ExtraName
  | .extras names => names
  | .pep751 _ _ => []

def listExtras : ExtrasEnvironment -> List ExtraName
  | .extras _ => []
  | .pep751 names _ => names

def dependencyGroups : ExtrasEnvironment -> List GroupName
  | .extras _ => []
  | .pep751 _ groups => groups

end ExtrasEnvironment

end Uv.Marker
