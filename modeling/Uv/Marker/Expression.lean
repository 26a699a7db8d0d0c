import Uv.Marker.Exclusions

namespace Uv.Marker

open Pep440 Library Option

/-!
# Marker expressions and their evaluation

An expression compares one value of the environment with a constant.  It is read
from text, and it is interned as a tree.  `evaluate` walks a tree in a given
environment.  `python_version` has no variable of its own: a comparison of
`python_version` becomes one of `python_full_version`.
-/

inductive MarkerValueVersion where
  | implementationVersion
  | pythonFullVersion
  | pythonVersion
  deriving DecidableEq, Repr

inductive MarkerValueString where
  | implementationName
  | osName
  | osNameDeprecated
  | platformMachine
  | platformMachineDeprecated
  | platformPythonImplementation
  | platformPythonImplementationDeprecated
  | pythonImplementationDeprecated
  | platformRelease
  | platformSystem
  | platformVersion
  | platformVersionDeprecated
  | sysPlatform
  | sysPlatformDeprecated
  deriving DecidableEq, Repr

/-- Deprecated names stand for the proper ones. -/
def CanonicalMarkerValueString.from : MarkerValueString -> CanonicalMarkerValueString
  | .implementationName => .implementationName
  | .osName | .osNameDeprecated => .osName
  | .platformMachine | .platformMachineDeprecated => .platformMachine
  | .platformPythonImplementation | .platformPythonImplementationDeprecated
  | .pythonImplementationDeprecated => .platformPythonImplementation
  | .platformRelease => .platformRelease
  | .platformSystem => .platformSystem
  | .platformVersion | .platformVersionDeprecated => .platformVersion
  | .sysPlatform | .sysPlatformDeprecated => .sysPlatform

/-- The name of an extra, with an invalid one preserved. -/
inductive MarkerValueExtra where
  | extra (name : ExtraName)
  | arbitrary (value : String)
  deriving DecidableEq, Repr

inductive ExtraOperator where
  | equal
  | notEqual
  deriving DecidableEq, Repr

inductive MarkerExpression where
  | version (key : MarkerValueVersion) (spec : VersionSpecifier)
  | versionIn (key : MarkerValueVersion) (versions : List Version) (operator : ContainerOperator)
  | string (key : MarkerValueString) (operator : MarkerOperator) (value : String)
  | list (pair : CanonicalMarkerListPair) (operator : ContainerOperator)
  | extra (name : MarkerValueExtra) (operator : ExtraOperator)

/-! ## Version expressions as text -/

variable (key : MarkerValueVersion)

/-- The comparison of a version with a constant.  What cannot be read is ignored. -/
def parseVersionExpr (markerOperator : MarkerOperator) (value : String) :
    Option MarkerExpression :=
  match VersionPattern.fromStr value with
  | .error _ => none
  | .ok pattern =>
    match markerOperator.toPep440Operator with
    | none => none
    | some operator =>
      match VersionSpecifier.fromPattern operator pattern with
      | .error _ => none
      | .ok spec => some (.version key spec)

/-- A list of versions between white space.  One that is not a version makes the
whole expression ignored. -/
def parseVersionInExpr (operator : MarkerOperator) (value : String) :
    Option MarkerExpression := do
  let operator <- ContainerOperator.fromMarkerOperator operator
  let words := (value.toList.splitOnP isWhitespace).filter fun word => !word.isEmpty
  let versions <- words.mapM fun word => (Version.fromStr (String.ofList word)).toOption
  return .versionIn key versions operator

/-! ## From `python_version` to `python_full_version` -/

lemma pair_ne_nil (major minor : UInt64) : [major, minor] ≠ [] :=
  List.cons_ne_nil major [minor]

variable (spec : VersionSpecifier) (major minor : UInt64)

/-- A comparison with a release of two numbers.  `python_version` is the release
`major.minor` of every `major.minor.patch`. -/
def majorMinorToFullVersion :
    Except Bool VersionSpecifier :=
  let version : Version := .new [major, minor] (pair_ne_nil major minor)
  let next : Version := .new [major, minor + 1] (List.cons_ne_nil _ _)
  match spec.operator with
  | .equal | .exactEqual => .ok (.equalsStarVersion version)
  | .notEqual => .ok (.notEqualsStarVersion version)
  | .greaterThan => .ok (.greaterThanEqualVersion next)
  -- No version is below `0.0`.
  | .lessThan => if major = 0 /\ minor = 0 then .error false else .ok spec
  | .greaterThanEqual => if major = 0 /\ minor = 0 then .error true else .ok spec
  | .lessThanEqual => .ok (.lessThanVersion next)
  | .equalStar | .notEqualStar | .tildeEqual => .error false

/-- A comparison with a release that has more than two numbers. -/
def longReleaseToFullVersion :
    Except Bool VersionSpecifier :=
  let next : Version := .new [major, minor + 1] (List.cons_ne_nil _ _)
  match spec.operator with
  | .equal | .exactEqual => .error false
  | .notEqual => .error true
  | .lessThan | .lessThanEqual => .ok (.lessThanVersion next)
  | .greaterThan | .greaterThanEqual => .ok (.greaterThanEqualVersion next)
  | .equalStar | .notEqualStar | .tildeEqual => .error false

/-- `==3.9.*`, `==3.9.0.*` and so on are all `==3.9.*`. -/
def starToFullVersion : Except Bool VersionSpecifier :=
  match spec.version.release with
  | [_] => .ok spec
  | major :: minor :: rest =>
    if rest.all (· == 0) then
      .ok ⟨spec.operator, .new [major, minor] (List.cons_ne_nil _ _),
        fun _ => (Version.release_new _ _).symm ▸ Nat.le_refl 2⟩
    else .error false
  | [] => .error false

/-- `~=3.9` is kept, and `~=3.9.0` is `==3.9.*`. -/
def tildeToFullVersion : Except Bool VersionSpecifier :=
  match spec.version.release with
  | [_, _] => .ok spec
  | major :: minor :: rest =>
    if rest.all (· == 0) then
      .ok (.equalsStarVersion (.new [major, minor] (List.cons_ne_nil _ _)))
    else .error false
  | _ => .error false

/-- For the other operators the zeros at the end do not matter. -/
def plainToFullVersion : Except Bool VersionSpecifier :=
  match spec.version.onlyReleaseTrimmed.release with
  | [major] => majorMinorToFullVersion spec major 0
  | [major, minor] => majorMinorToFullVersion spec major minor
  | _ =>
    match spec.version.release with
    | major :: minor :: _ => longReleaseToFullVersion spec major minor
    | _ => .error false

/-- The specifier for `python_full_version` that a specifier for `python_version` is
equivalent to, or the constant that it always is. -/
def pythonVersionToFullVersion : Except Bool VersionSpecifier :=
  match spec.operator with
  | .equalStar | .notEqualStar => starToFullVersion spec
  | .tildeEqual => tildeToFullVersion spec
  | _ => plainToFullVersion spec

section

variable (sets : IntervalSets)

/-- The versions that a specifier accepts, compared by their release. -/
def specifierRange (spec : VersionSpecifier) : sets.versions.Ranges :=
  spec.onlyRelease.releaseSpecifierToRange sets.versions true

variable (versions : List Version) (operator : ContainerOperator)

/-- The values of `python_full_version` for which `python_version` is one of the
versions.  The first version with a constant for a range ends the loop. -/
def pythonVersionsRange :
    Except Bool sets.versions.Ranges := do
  let ranges <- versions.mapM fun version => do
    let spec <- pythonVersionToFullVersion (.equalsVersion version.onlyRelease)
    return spec.releaseSpecifierToRange sets.versions true
  let range := sets.versions.fromIter (ranges.flatMap sets.versions.segments)
  return if operator = .notIn then sets.versions.complement range else range

/-- The versions whose release is listed. -/
def versionsRange :
    sets.versions.Ranges :=
  let range := sets.versions.fromIter (versions.map fun version =>
    ⟨.included version.onlyRelease, .included version.onlyRelease⟩)
  if operator = .notIn then sets.versions.complement range else range

end

/-! ## Expressions as trees -/

/-- Where the two values are exactly equivalent, `platform_system` becomes
`sys_platform`. -/
def normalizePlatformSystem (key : MarkerValueString) (value : String) : PlatformValue :=
  match key, value with
  | .platformSystem, "Windows" => (.sysPlatform, "win32")
  | .platformSystem, "Darwin" => (.sysPlatform, "darwin")
  | .platformSystem, "Linux" => (.sysPlatform, "linux")
  | .platformSystem, "AIX" => (.sysPlatform, "aix")
  | .platformSystem, "Emscripten" => (.sysPlatform, "emscripten")
  | .platformSystem, "Android" => (.sysPlatform, "android")
  | key, value => (.from key, value)

namespace Tree

variable {sets : IntervalSets}

/-- A comparison of strings.  The kernel releases of Darwin are dotted versions and
are compared as such; on other platforms a release may be any text. -/
def stringExpression (key : CanonicalMarkerValueString) (operator : MarkerOperator)
    (value : String) : Tree sets :=
  let string := stringNode (.string key) (stringRange sets key operator value)
  if key = .platformRelease then
    match operator.toPep440Operator, VersionPattern.fromStr value with
    | some operator, .ok pattern =>
      match VersionSpecifier.fromPattern operator pattern with
      | .ok spec =>
        let version := versionNode (.versionString key) (specifierRange sets spec)
        let darwin := stringEqual (.sysPlatform, "darwin")
        or (and darwin version) (and darwin.not string)
      | .error _ => string
    | _, _ => string
  else string

def expression : MarkerExpression -> Tree sets
  | .version .implementationVersion spec =>
    versionNode (.version .implementationVersion) (specifierRange sets spec)
  | .version .pythonFullVersion spec =>
    versionNode (.version .pythonFullVersion) (specifierRange sets spec)
  | .version .pythonVersion spec =>
    match pythonVersionToFullVersion spec.onlyRelease with
    | .ok spec => versionNode (.version .pythonFullVersion) (specifierRange sets spec)
    | .error constant => .leaf constant
  | .versionIn .implementationVersion versions operator =>
    versionNode (.version .implementationVersion) (versionsRange sets versions operator)
  | .versionIn .pythonFullVersion versions operator =>
    versionNode (.version .pythonFullVersion) (versionsRange sets versions operator)
  | .versionIn .pythonVersion versions operator =>
    match pythonVersionsRange sets versions operator with
    | .ok range => versionNode (.version .pythonFullVersion) range
    | .error constant => .leaf constant
  | .string key .isIn value => booleanNode (.isIn (.from key) value) true
  | .string key .notIn value => booleanNode (.isIn (.from key) value) false
  | .string key .contains value => booleanNode (.contains (.from key) value) true
  | .string key .notContains value => booleanNode (.contains (.from key) value) false
  | .string key operator value =>
    stringExpression (normalizePlatformSystem key value).1 operator
      (normalizePlatformSystem key value).2
  | .list pair operator => booleanNode (.list pair) (operator == .isIn)
  | .extra (.extra name) .equal => booleanNode (.extra name) true
  | .extra (.extra name) .notEqual => booleanNode (.extra name) false
  -- Invalid names of extras are always `false`.
  | .extra (.arbitrary _) _ => .leaf false

end Tree

/-! ## Evaluation -/

namespace Point

def ofVersion (version : Version) : Point := ⟨⟨version, .exact⟩, ⟨"", .exact⟩, false⟩
def ofString (value : String) : Point := ⟨⟨.new [0] zeroRelease_ne_nil, .exact⟩, ⟨value, .exact⟩, false⟩
def ofBool (value : Bool) : Point := ⟨⟨.new [0] zeroRelease_ne_nil, .exact⟩, ⟨"", .exact⟩, value⟩

end Point

/-- The second string occurs in the first one. -/
def containsString (haystack needle : String) : Bool :=
  decide (needle.toList <:+: haystack.toList)

section

variable (env : MarkerEnvironment) (extras : ExtrasEnvironment)

/-- The value of a variable.  The release of a platform need not be a version, and
an invalid name has no value. -/
def observe : Variable -> Option Point
  | .version key => some (.ofVersion (env.getVersion key))
  | .string key => some (.ofString (env.getString key))
  | .versionString key => (Version.fromStr (env.getString key)).toOption.map .ofVersion
  | .isIn key value => some (.ofBool (containsString value (env.getString key)))
  | .contains key value => some (.ofBool (containsString (env.getString key) value))
  | .extra name => some (.ofBool (extras.extra.contains name))
  | .list (.extras name) => some (.ofBool (extras.listExtras.contains name))
  | .list (.dependencyGroup name) => some (.ofBool (extras.dependencyGroups.contains name))
  | .list (.arbitrary _ _) => none

/-- The environment as an assignment. -/
def valuation : Assignment := fun var => (observe env extras var).getD (.ofBool false)

/-- Two platform values of the environment are incompatible. -/
def MarkerEnvironment.Excluded : Prop :=
  ∃ pair ∈ incompatiblePairs, env.getString pair.1.1 = pair.1.2 /\ env.getString pair.2.1 = pair.2.2

lemma hasValue_valuation (value : PlatformValue) :
    hasValue (valuation env extras) value <-> env.getString value.1 = value.2 :=
  hasValue_iff rfl

lemma excluded_valuation_iff : Excluded (valuation env extras) <-> env.Excluded := by
  simp only [Excluded, hasValue_valuation, MarkerEnvironment.Excluded]

end

namespace Tree

variable {sets : IntervalSets} (env : MarkerEnvironment) (extras : ExtrasEnvironment)

/-- Follow the edges that the environment selects.  A variable without a value ends
the walk, and then the marker does not apply. -/
def evaluate : Tree sets -> Bool :=
  fold id fun var children => ((observe env extras var).bind children.read).getD false

/-- Every variable of the tree has a value. -/
def Decided (tree : Tree sets) : Prop :=
  ∀ var ∈ tree.vars, (observe env extras var).isSome = true

/-- Evaluation meets no test without a value. -/
def Settled (tree : Tree sets) : Prop :=
  ∀ var ∈ tree.met (valuation env extras), (observe env extras var).isSome = true

variable {env extras}

lemma evaluate_node (var : Variable) (children : Edges sets (Tree sets)) :
    (node var children).evaluate env extras =
      (((observe env extras var).bind children.read).map (evaluate env extras)).getD false := by
  rw [evaluate, fold_node]
  cases observe env extras var with
  | none => rfl
  | some point => exact congrArg (getD · false) (Edges.read_mapNodes _ children point)

variable {tree : Tree sets}

/-- A marker that applies denotes `true`. -/
lemma denote_of_evaluate (applies : tree.evaluate env extras) :
    tree.denote (valuation env extras) := by
  induction tree using induct with
  | leaf value => exact applies
  | node var children ih =>
    rw [evaluate_node] at applies
    rw [denote, eval_node, valuation]
    cases seen : observe env extras var with
    | none => rw [seen] at applies; cases applies
    | some point =>
      rw [seen, bind_some] at applies
      rw [getD_some]
      cases found : children.read point with
      | none => rw [found] at applies; cases applies
      | some child =>
        rw [found] at applies
        exact ih child (Edges.mem_nodes_of_read found) applies

/-- Follow the edges that the given values select. -/
def evaluateBy (observe : Variable -> Option Point) : Tree sets -> Bool :=
  fold id fun var children => ((observe var).bind children.read).getD false

/-- Only the values of the variables of a tree matter to it. -/
lemma evaluateBy_congr {observe observe' : Variable -> Option Point}
    (agree : ∀ var ∈ tree.vars, observe var = observe' var) :
    tree.evaluateBy observe = tree.evaluateBy observe' := by
  induction tree using induct with
  | leaf value => rfl
  | node var children ih =>
    rw [evaluateBy, evaluateBy, fold_node, fold_node,
      agree var (mem_vars_self _ _)]
    cases observe' var with
    | none => rfl
    | some point =>
      rw [bind_some, bind_some, Edges.read_mapNodes, Edges.read_mapNodes]
      cases found : children.read point with
      | none => rfl
      | some child =>
        have mem := Edges.mem_nodes_of_read found
        exact ih child mem fun other occurs =>
          agree other (mem_vars_child mem occurs)

/-- Evaluation is the function that the tree denotes, where the tests that it meets have a value. -/
lemma evaluateBy_eq_denote {observe : Variable -> Option Point} {world : Assignment}
    (reduced : tree.Reduced) (seen : ∀ var ∈ tree.met world, observe var = some (world var)) :
    tree.evaluateBy observe = tree.denote world := by
  induction tree using induct with
  | leaf value => rfl
  | node var children ih =>
    rcases reduced.exists_child world with ⟨child, found, mem⟩
    have tests := mem_met_node found
    rw [evaluateBy, fold_node, seen var ((tests var).mpr (.inl rfl)), bind_some, Edges.read_mapNodes,
      found, denote_node, found]
    exact ih child mem (reduced.child mem) fun other met => seen other ((tests other).mpr (.inr met))

/-- Evaluation is the function that the tree denotes, at the values of the environment. -/
lemma evaluate_eq_denote (reduced : tree.Reduced) (settled : tree.Settled env extras) :
    tree.evaluate env extras = tree.denote (valuation env extras) := by
  refine evaluateBy_eq_denote reduced fun var met => ?_
  rcases isSome_iff_exists.mp (settled var met) with ⟨point, seen⟩
  rw [valuation, seen, getD_some]

lemma Decided.settled (decided : tree.Decided env extras) : tree.Settled env extras :=
  fun var met => decided var (mem_vars_of_met met)

lemma Decides.evaluate_eq {var : Variable} {holds : Point -> Bool}
    (decides : tree.Decides var holds) {point : Point} (seen : observe env extras var = some point) :
    tree.evaluate env extras = holds point := by
  rw [evaluate_eq_denote decides.reduced, decides.denotes, valuation, seen, getD_some]
  intro other met
  rw [decides.vars other (mem_vars_of_met met), seen]
  rfl

end Tree

/-- CPython on Linux, with the given version of Python. -/
def linuxEnvironment (fullVersion : Version) : MarkerEnvironment where
  implementationName := "cpython"
  implementationVersion := ⟨"3.9.1", fullVersion⟩
  osName := "posix"
  platformMachine := "x86_64"
  platformPythonImplementation := "CPython"
  platformRelease := "6.1.0"
  platformSystem := "Linux"
  platformVersion := "#1 SMP"
  pythonFullVersion := ⟨"3.9.1", fullVersion⟩
  pythonVersion := ⟨"3.9", .new [3, 9] (by decide)⟩
  sysPlatform := "linux"

end Uv.Marker
