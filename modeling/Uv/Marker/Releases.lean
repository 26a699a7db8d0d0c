import Uv.Marker.MarkerTree
import Uv.Marker.PythonVersion
import Uv.Python.RequiresPython

namespace Uv.Marker

open Pep440 Library Python Version List

/-!
# Trees that test releases of Python

Every version that a test of `python_full_version` is made of is a release: the
source drops the rest of a version before it enters a tree.  The bounds of a range
are not visible from outside, but what they can tell apart is.  Two positions are
undivided if every bound at a release treats them alike.  The ranges of a tree for
releases never tell undivided positions apart, and all operations keep this.
-/

/-- No bound at a release tells the positions apart. -/
structure Undivided (spot spot' : Position Version) : Prop where
  above : ∀ bound, PlainBound bound ->
    bound.admitsAbove Version.cmp spot = bound.admitsAbove Version.cmp spot'
  below : ∀ bound, PlainBound bound ->
    bound.admitsBelow Version.cmp spot = bound.admitsBelow Version.cmp spot'

namespace Undivided

variable {spot spot' between : Position Version}

section

variable (undivided : Undivided spot spot')

include undivided

lemma symm : Undivided spot' spot :=
  ⟨fun bound plain => (undivided.above bound plain).symm,
    fun bound plain => (undivided.below bound plain).symm⟩

lemma trans {spot'' : Position Version} (next : Undivided spot' spot'') : Undivided spot spot'' :=
  ⟨fun bound plain => (undivided.above bound plain).trans (next.above bound plain),
    fun bound plain => (undivided.below bound plain).trans (next.below bound plain)⟩

/-- What lies between undivided positions is undivided from them. -/
lemma of_between (first : spot.place Version.key <= between.place Version.key)
    (last : between.place Version.key <= spot'.place Version.key) :
    Undivided spot between := by
  constructor
  · intro bound plain
    have same := undivided.above bound plain
    rw [Bool.eq_iff_iff, Bound.admitsAbove_iff cmp_orderedBy,
      Bound.admitsAbove_iff cmp_orderedBy] at same ⊢
    exact ⟨fun admitted => admitted.trans (WithBot.coe_le_coe.mpr first),
      fun admitted => same.mpr (admitted.trans (WithBot.coe_le_coe.mpr last))⟩
  · intro bound plain
    have same := undivided.below bound plain
    rw [Bool.eq_iff_iff, Bound.admitsBelow_iff cmp_orderedBy,
      Bound.admitsBelow_iff cmp_orderedBy] at same ⊢
    exact ⟨fun admitted => (WithTop.coe_le_coe.mpr last).trans (same.mp admitted),
      fun admitted => (WithTop.coe_le_coe.mpr first).trans admitted⟩

lemma admits {segment : Segment Version}
    (lower : PlainBound segment.lower) (upper : PlainBound segment.upper) :
    segment.admits Version.cmp spot = segment.admits Version.cmp spot' := by
  rw [Segment.admits, Segment.admits, undivided.above _ lower, undivided.below _ upper]

end

end Undivided

/-! ## Ranges with bounds at releases -/

/-- The range does not tell undivided positions apart. -/
def OfReleases (alg : RangeAlgebra Version Version.cmp) (range : alg.Ranges) : Prop :=
  ∀ spot spot', Undivided spot spot' ->
    alg.mem range spot = alg.mem range spot'

namespace OfReleases

variable {alg : RangeAlgebra Version Version.cmp} {range : alg.Ranges}

lemma of_admits {segment : Segment Version}
    (same : ∀ spot, alg.mem range spot = segment.admits Version.cmp spot)
    (lower : PlainBound segment.lower) (upper : PlainBound segment.upper) :
    OfReleases alg range := by
  intro spot spot' undivided
  rw [same, same, undivided.admits lower upper]

lemma complement (releases : OfReleases alg range) :
    OfReleases alg (alg.complement range) := by
  intro spot spot' undivided
  have denotes := alg.mem_complement range
  exact (denotes _).trans ((congrArg _ (releases _ _ undivided)).trans (denotes _).symm)

lemma fromIter {segments : List (Segment Version)} (plain : ∀ spot spot', Undivided spot spot' ->
      covers Version.cmp segments spot = covers Version.cmp segments spot') :
    OfReleases alg (alg.fromIter segments) := by
  intro spot spot' undivided
  have denotes := alg.mem_fromIter segments
  exact (denotes _).trans ((plain _ _ undivided).trans (denotes _).symm)

lemma full : OfReleases alg alg.full :=
  fun spot spot' _ => (alg.mem_full spot).trans (alg.mem_full spot').symm

/-- Each segment of such a range has bounds at releases as well: a gap between two
segments would lie between undivided positions. -/
lemma segment (releases : OfReleases alg range) {segment : Segment Version}
    (mem : segment ∈ alg.segments range) :
    OfReleases alg (alg.fromRangeBounds segment) := by
  have ordered := cmp_orderedBy
  have step : ∀ spot spot', Undivided spot spot' ->
      segment.admits cmp spot -> segment.admits cmp spot' := by
    intro spot spot' undivided inside
    have covered : alg.mem range spot' := by
      rw [<- releases _ _ undivided]
      exact any_eq_true.mpr ⟨segment, mem, inside⟩
    rcases any_eq_true.mp covered with ⟨segment', mem', inside'⟩
    -- The gap is outside the range, although it is undivided from a position inside.
    have noGap : ∀ gap, Undivided spot gap -> alg.mem range gap := by
      intro gap same
      rw [<- releases _ _ same]
      exact any_eq_true.mpr ⟨segment, mem, inside⟩
    rcases alg.eq_or_exists_gap ordered mem mem' inside inside'
      with rfl | ⟨gap, missing, ⟨below, above⟩ | ⟨below, above⟩⟩
    · exact inside'
    · have same := undivided.of_between below.le above.le
      exact absurd (noGap gap same) (Bool.eq_false_iff.mp missing)
    · have same := undivided.symm.of_between below.le above.le
      exact absurd (noGap gap (undivided.trans same)) (Bool.eq_false_iff.mp missing)
  intro spot spot' undivided
  rw [RangeAlgebra.mem, RangeAlgebra.mem, alg.mem_fromRangeBounds, alg.mem_fromRangeBounds,
    Bool.eq_iff_iff]
  exact ⟨step _ _ undivided, step _ _ undivided.symm⟩

lemma fromRange {N : Type} {leaf : Bool -> N} (releases : OfReleases alg range)
    {edge : alg.Ranges × N} (mem : edge ∈ Marker.fromRange alg leaf range) :
    OfReleases alg edge.1 := by
  rcases (mem_fromRange_iff alg leaf range).mp mem with ⟨segment, inside, mem', rfl⟩
  cases inside with
  | true => exact releases.segment mem'
  | false => exact releases.complement.segment mem'

/-- The range of a specifier whose version is a release. -/
lemma releaseSpecifierToRange {spec : VersionSpecifier}
    (only : spec.version.ReleaseOnly) (trim : Bool) :
    OfReleases alg (spec.releaseSpecifierToRange alg trim) := by
  have trimmed : (if trim then spec.version.onlyReleaseTrimmed
      else spec.version.onlyRelease).ReleaseOnly := by
    cases trim with
    | true => exact spec.version.onlyReleaseTrimmed_spec.1
    | false => exact spec.version.onlyRelease_spec.1
  have star : OfReleases alg (alg.fromRangeBounds
      (VersionSpecifier.releaseStarSegment spec.version)) :=
    of_admits (alg.mem_fromRangeBounds _) only (new_releaseOnly _ _)
  unfold VersionSpecifier.releaseSpecifierToRange
  dsimp only
  split
  · exact of_admits (alg.mem_singleton _) trimmed trimmed
  · exact of_admits (alg.mem_singleton _) trimmed trimmed
  · exact (of_admits (alg.mem_singleton _) trimmed trimmed).complement
  · exact of_admits (alg.mem_strictlyLowerThan _) trivial trimmed
  · exact of_admits (alg.mem_lowerThan _) trivial trimmed
  · exact of_admits (alg.mem_strictlyHigherThan _) trimmed trivial
  · exact of_admits (alg.mem_higherThan _) trimmed trivial
  · exact of_admits (alg.mem_fromRangeBounds _) trimmed (new_releaseOnly _ _)
  · exact star
  · exact star.complement

variable {sets : IntervalSets}

lemma specifierRange (spec : VersionSpecifier) :
    OfReleases sets.versions (Marker.specifierRange sets spec) :=
  releaseSpecifierToRange spec.version.onlyRelease_spec.1 true

lemma versionsRange (versions : List Version) (operator : ContainerOperator) :
    OfReleases sets.versions (Marker.versionsRange sets versions operator) := by
  have mem : OfReleases sets.versions (sets.versions.fromIter (versions.map fun version =>
      ⟨.included version.onlyRelease, .included version.onlyRelease⟩)) := by
    refine fromIter fun spot spot' undivided => ?_
    rw [covers, covers, any_map, any_map]
    refine congrArg (any versions) (funext fun version => ?_)
    exact undivided.admits version.onlyRelease_spec.1 version.onlyRelease_spec.1
  unfold Marker.versionsRange
  dsimp only
  split
  · exact mem.complement
  · exact mem

lemma pythonVersionsRange {versions : List Version} {operator : ContainerOperator}
    {result : sets.versions.Ranges}
    (built : Marker.pythonVersionsRange sets versions operator = .ok result) :
    OfReleases sets.versions result := by
  rw [pythonVersionsRange_eq] at built
  split at built
  next =>
    have mem : OfReleases sets.versions (sets.versions.fromIter
        ((versions.map (listedRange sets)).flatMap sets.versions.segments)) := by
      refine fromIter fun spot spot' undivided => ?_
      rw [covers, covers, any_flatMap, any_flatMap, any_map, any_map]
      refine congrArg (any versions) (funext fun version => ?_)
      exact releaseSpecifierToRange (new_releaseOnly _ (pair_ne_nil _ _)) true _ _ undivided
    cases built
    split
    · exact mem.complement
    · exact mem
  next => cases built

end OfReleases

/-! ## Trees -/

open Classical in
/-- Move one position of `python_full_version`. -/
noncomputable def movePython (spot spot' : Position Version) (var : Variable)
    (point : Point) : Point :=
  if var = .version .pythonFullVersion /\ point.version = spot then
    { point with version := spot' }
  else point

namespace Tree

variable {sets : IntervalSets}

/-- The tests of `python_full_version` have bounds at releases. -/
def OfReleases (tree : Tree sets) : Prop :=
  ∀ spot spot', Undivided spot spot' ->
    tree.Respects (movePython spot spot')

variable {var : Variable}

lemma versionNode_ofReleases {range : sets.versions.Ranges}
    (releases : Marker.OfReleases sets.versions range) :
    (versionNode var range : Tree sets).OfReleases := by
  intro spot spot' undivided
  refine .createNode (fun edge mem point => ?_) fun child mem => ?_
  · rw [movePython]
    split
    next moved =>
      rw [moved.2]
      exact (releases.fromRange mem _ _ undivided).symm
    · rfl
  · rcases fromRange_leaves _ range mem with ⟨value, rfl⟩
    exact .leaf value

lemma stringNode_ofReleases {range : sets.strings.Ranges} :
    (stringNode var range : Tree sets).OfReleases := by
  intro spot spot' undivided
  refine .createNode (fun edge mem point => ?_) fun child mem => ?_
  · rw [movePython]
    split <;> rfl
  · rcases fromRange_leaves _ range mem with ⟨value, rfl⟩
    exact .leaf value

lemma booleanNode_ofReleases {complemented : Bool} :
    (booleanNode var complemented : Tree sets).OfReleases := by
  intro spot spot' undivided
  have boolean : ∀ point, (movePython spot spot' var point).boolean = point.boolean := by
    intro point
    rw [movePython]
    split <;> rfl
  cases complemented with
  | true =>
    refine .createNode boolean fun child mem => ?_
    simp only [Edges.fromBool, Edges.nodes, if_true, mem_cons, not_mem_nil,
      or_false] at mem
    rcases mem with rfl | rfl <;> exact .leaf _
  | false =>
    refine .createNode boolean fun child mem => ?_
    simp only [Edges.fromBool, Edges.nodes, Bool.false_eq_true, if_false, mem_cons,
      not_mem_nil, or_false] at mem
    rcases mem with rfl | rfl <;> exact .leaf _

namespace OfReleases

variable {x y : Tree sets}

lemma leaf (value : Bool) : (Tree.leaf value : Tree sets).OfReleases :=
  fun _ _ _ => .leaf value

lemma not (releases : x.OfReleases) : x.not.OfReleases :=
  fun spot spot' undivided => (releases spot spot' undivided).not

lemma and (reduced : x.Reduced) (reduced' : y.Reduced) (releases : x.OfReleases)
    (releases' : y.OfReleases) : (Tree.and x y).OfReleases :=
  fun spot spot' undivided => (and_isConjunction reduced reduced').respects _
    (releases spot spot' undivided) (releases' spot spot' undivided)

lemma or (reduced : x.Reduced) (reduced' : y.Reduced) (releases : x.OfReleases)
    (releases' : y.OfReleases) : (Tree.or x y).OfReleases :=
  (and reduced.not reduced'.not releases.not releases'.not).not

lemma stringExpression (key : CanonicalMarkerValueString) (operator : MarkerOperator)
    (value : String) : (Tree.stringExpression key operator value : Tree sets).OfReleases := by
  have string := (@stringNode_decides sets (.string key) rfl (stringRange sets key operator value)).reduced
  have darwin := (@stringEqual_decides sets (.sysPlatform, "darwin")).reduced
  unfold Tree.stringExpression
  dsimp only
  split
  · split
    · split
      next spec _ =>
        have version := (@versionNode_decides sets (.versionString key) rfl
          (specifierRange sets spec)).reduced
        refine or (and_isConjunction darwin version).reduced
          (and_isConjunction darwin.not string).reduced ?_ ?_
        · exact and darwin version stringNode_ofReleases
            (versionNode_ofReleases (.specifierRange spec))
        · exact and darwin.not string (not stringNode_ofReleases) stringNode_ofReleases
      · exact stringNode_ofReleases
    · exact stringNode_ofReleases
  · exact stringNode_ofReleases

lemma expression (expr : MarkerExpression) : (Tree.expression expr : Tree sets).OfReleases := by
  unfold Tree.expression
  split
  · exact versionNode_ofReleases (.specifierRange _)
  · exact versionNode_ofReleases (.specifierRange _)
  · split
    · exact versionNode_ofReleases (.specifierRange _)
    · exact leaf _
  · exact versionNode_ofReleases (.versionsRange _ _)
  · exact versionNode_ofReleases (.versionsRange _ _)
  · split
    next built => exact versionNode_ofReleases (.pythonVersionsRange built)
    · exact leaf _
  · exact booleanNode_ofReleases
  · exact booleanNode_ofReleases
  · exact booleanNode_ofReleases
  · exact booleanNode_ofReleases
  · exact stringExpression _ _ _
  · exact booleanNode_ofReleases
  · exact booleanNode_ofReleases
  · exact booleanNode_ofReleases
  · exact leaf _

end OfReleases

end Tree

/-- A marker as it can be written: its tests of `python_full_version` compare with
releases. -/
structure PythonMarker (sets : IntervalSets) extends MarkerTree sets where
  releases : tree.OfReleases

namespace PythonMarker

variable {sets : IntervalSets}

def TRUE : PythonMarker sets := ⟨.TRUE, .leaf true⟩

def FALSE : PythonMarker sets := ⟨.FALSE, .leaf false⟩

def expression (expr : MarkerExpression) : PythonMarker sets :=
  ⟨.expression expr, .expression expr⟩

def negate (marker : PythonMarker sets) : PythonMarker sets :=
  ⟨marker.toMarkerTree.negate, marker.releases.not⟩

def and (marker other : PythonMarker sets) : PythonMarker sets :=
  ⟨marker.toMarkerTree.and other.toMarkerTree,
    .and marker.reduced other.reduced marker.releases other.releases⟩

def or (marker other : PythonMarker sets) : PythonMarker sets :=
  ⟨marker.toMarkerTree.or other.toMarkerTree,
    .or marker.reduced other.reduced marker.releases other.releases⟩

end PythonMarker

end Uv.Marker
