import Uv.Marker.Disjointness
import Uv.Marker.Releases

namespace Uv.Resolver

open Library Pep440 Python Version List Function
open Uv.Marker Uv.Marker.Tree

/-!
# The Python versions of a marker

`requires_python` walks all paths of a marker to `true`, collects the range of
`python_full_version` on each path, and returns the ends of their union.  A path
without a test of `python_full_version` counts with all versions.

The ends enclose every Python version for which the marker can be true.  They are
the closest such ends if every edge of the marker can be taken by some value: the
walk does not see that no release is below `0`, or that no string is below the empty
one.
-/

variable {sets : IntervalSets}

/-- The variable whose tests are collected. -/
def python : Variable := .version .pythonFullVersion

/-- The ranges of `python_full_version` on the paths to `true`. -/
def collectPythonMarkers : Tree sets -> sets.versions.Ranges -> List sets.versions.Ranges :=
  Tree.fold (fun value range => if value then [range] else []) fun var children range =>
    match var, children with
    | .version .pythonFullVersion, .version edges => edges.flatMap fun edge => edge.2 edge.1
    | _, children => children.nodes.flatMap fun collect => collect range

/-- The range has no end on either side. -/
def isUnbounded (alg : RangeAlgebra Version Version.cmp) (range : alg.Ranges) : Bool :=
  match alg.boundingRange range with
  | none => true
  | some ⟨.unbounded, .unbounded⟩ => true
  | some _ => false

def requiresPython (marker : MarkerTree sets) : Option RequiresPythonRange :=
  if marker.isTrue || marker.isFalse then none
  else
    let markers := collectPythonMarkers marker.tree sets.versions.full
    if markers.all (isUnbounded sets.versions) then none
    else
      let range := markers.foldl sets.versions.union sets.versions.empty
      (sets.versions.boundingRange range).map fun bounds =>
        ⟨.new bounds.lower, .new bounds.upper⟩

/-! ## The walk -/

variable {var : Variable} {children : Edges sets (Tree sets)}
variable {edges : List (sets.versions.Ranges × Tree sets)} {world : Assignment}

section

lemma collect_python (edges : List (sets.versions.Ranges × Tree sets))
    (range : sets.versions.Ranges) :
    collectPythonMarkers (.node python (.version edges)) range =
      edges.flatMap fun edge => collectPythonMarkers edge.2 edge.1 := by
  rw [collectPythonMarkers, fold_node]
  simp only [python, Edges.mapNodes, flatMap_map]

lemma collect_other (other : var ≠ python) (range : sets.versions.Ranges) :
    collectPythonMarkers (.node var children) range =
      children.nodes.flatMap fun child => collectPythonMarkers child range := by
  rw [collectPythonMarkers, fold_node]
  split
  next => exact absurd rfl other
  next => rw [Edges.nodes_mapNodes, flatMap_map]

variable {range found : sets.versions.Ranges}

/-- Below the test of `python_full_version` the range stays as it is. -/
lemma mem_collect_of_after {tree : Tree sets} (reduced : tree.Reduced)
    (after : python ∉ tree.vars) :
    found ∈ collectPythonMarkers tree range <-> found = range /\ ¬ tree.isFalse := by
  induction tree using Tree.induct with
  | leaf value =>
    cases value with
    | true => simp [collectPythonMarkers, Tree.fold, Tree.isFalse]
    | false => simp [collectPythonMarkers, Tree.fold, Tree.isFalse]
  | node var children ih =>
    have other : var ≠ python := fun same =>
      after ((Tree.mem_vars_node _ _ _).mpr (.inl same.symm))
    have below : ∀ child ∈ children.nodes, python ∉ child.vars :=
      fun child mem occurs => after ((Tree.mem_vars_node _ _ _).mpr (.inr ⟨child, mem, occurs⟩))
    rw [collect_other other, mem_flatMap]
    constructor
    · rintro ⟨child, mem, inside⟩
      exact ⟨((ih child mem (reduced.child mem) (below child mem)).mp inside).1, Bool.false_ne_true⟩
    · rintro ⟨rfl, _⟩
      rcases reduced.satisfiable Bool.false_ne_true with ⟨world, holds⟩
      rcases reduced.exists_child world with ⟨child, found, mem⟩
      rw [Tree.denote_node, found] at holds
      exact ⟨child, mem, (ih child mem (reduced.child mem) (below child mem)).mpr
        ⟨rfl, Tree.not_isFalse_of_denote holds⟩⟩

lemma exists_edges (reduced : (Marker.Tree.node python children : Tree sets).Reduced) :
    ∃ edges, children = .version edges := by
  cases children with
  | version edges => exact ⟨edges, rfl⟩
  | string edges => cases reduced.kind
  | boolean high low => cases reduced.kind

lemma mem_collect_python (reduced : (Marker.Tree.node python (.version edges) : Tree sets).Reduced) :
    found ∈ collectPythonMarkers (.node python (.version edges)) range <->
      ∃ edge ∈ edges, found = edge.1 /\ ¬ edge.2.isFalse := by
  rw [collect_python, mem_flatMap]
  refine exists_congr fun edge => and_congr_right fun mem => ?_
  have child : edge.2 ∈ (Edges.version edges).nodes := mem_map_of_mem mem
  exact mem_collect_of_after (reduced.child child) fun occurs =>
    lt_irrefl _ (reduced.later child _ occurs)

/-- What is collected from a tree with all versions at its start: a path without a
test of `python_full_version` gives all versions, and the others give the range of
the edge that they take. -/
lemma collect_induct {motive : Tree sets -> sets.versions.Ranges -> Prop}
    (leaf : motive (.leaf true) sets.versions.full)
    (other : ∀ {var children child range}, (Marker.Tree.node var children : Tree sets).Reduced -> var ≠ python ->
      child ∈ children.nodes -> ¬ child.isFalse -> motive child range ->
      motive (.node var children) range)
    (edge : ∀ {edges edge}, (Marker.Tree.node python (.version edges) : Tree sets).Reduced -> edge ∈ edges ->
      ¬ edge.2.isFalse -> motive (.node python (.version edges)) edge.1)
    {tree : Tree sets} (reduced : tree.Reduced) {range : sets.versions.Ranges}
    (collected : range ∈ collectPythonMarkers tree sets.versions.full) : motive tree range := by
  induction tree using induct with
  | leaf value =>
    cases value with
    | true =>
      rw [mem_singleton.mp collected]
      exact leaf
    | false => cases collected
  | node var children ih =>
    by_cases same : var = python
    · subst same
      rcases exists_edges reduced with ⟨edges, rfl⟩
      rcases (mem_collect_python reduced).mp collected with ⟨chosen, mem, rfl, nonempty⟩
      exact edge reduced mem nonempty
    · rw [collect_other same, mem_flatMap] at collected
      rcases collected with ⟨child, mem, collected⟩
      refine other reduced same mem ?_ (ih child mem (reduced.child mem) collected)
      intro isFalse
      rw [(isFalse_iff child).mp isFalse] at collected
      exact not_mem_nil collected

/-- A version for which the tree can be true is on one of the collected paths. -/
lemma exists_collected {tree : Tree sets} (reduced : tree.Reduced) (holds : tree.denote world) :
    ∃ range ∈ collectPythonMarkers tree sets.versions.full,
      sets.versions.mem range (world python).version := by
  induction tree using induct with
  | leaf value =>
    cases value with
    | true => exact ⟨_, mem_singleton_self _, sets.versions.mem_full _⟩
    | false => cases holds
  | node var children ih =>
    rcases reduced.exists_child world with ⟨child, found, mem⟩
    rw [denote_node, found] at holds
    by_cases same : var = python
    · subst same
      rcases exists_edges reduced with ⟨edges, rfl⟩
      rcases mem_of_tileAt found with ⟨chosen, chosenListed, inside, rfl⟩
      exact ⟨chosen.1, (mem_collect_python reduced).mpr ⟨chosen, chosenListed, rfl,
        not_isFalse_of_denote holds⟩, inside⟩
    · rcases ih child mem (reduced.child mem) holds with ⟨range, collected, inside⟩
      refine ⟨range, ?_, inside⟩
      rw [collect_other same, mem_flatMap]
      exact ⟨child, mem, collected⟩

end

/-! ## The collected ranges -/

section

variable {tree : Tree sets} (reduced : tree.Reduced) {range : sets.versions.Ranges}
  (collected : range ∈ collectPythonMarkers tree sets.versions.full)

include reduced collected

lemma collected_convex {low spot high : Position Version} (lowInside : sets.versions.mem range low)
    (highInside : sets.versions.mem range high)
    (above : low.place Version.key <= spot.place Version.key)
    (below : spot.place Version.key <= high.place Version.key) :
    sets.versions.mem range spot := by
  revert lowInside highInside
  refine @collect_induct sets (fun _ range => sets.versions.mem range low ->
    sets.versions.mem range high -> sets.versions.mem range spot)
    (fun _ _ => sets.versions.mem_full spot) (fun _ _ _ _ ih => ih) ?_ tree reduced range collected
  intro edges edge reduced mem _ lowInside highInside
  exact Library.Tiled.convex reduced.tiled mem lowInside highInside above below

lemma collected_ofReleases (releases : tree.OfReleases) : OfReleases sets.versions range := by
  revert releases
  refine @collect_induct sets (fun tree range => tree.OfReleases -> OfReleases sets.versions range)
    (fun _ => OfReleases.full) ?_ ?_ tree reduced range collected
  · intro var children child range _ _ mem _ ih releases
    refine ih fun spot spot' undivided => ?_
    cases releases spot spot' undivided with
    | node respects all => exact all child mem
  · intro edges edge _ mem _ releases spot spot' undivided
    cases releases spot spot' undivided with
    | node respects all =>
      have same := respects edge mem ⟨spot, ⟨"", .exact⟩, false⟩
      rw [movePython, if_pos ⟨rfl, rfl⟩] at same
      exact same.symm

end

lemma mem_foldl_union (alg : RangeAlgebra Version Version.cmp)
    (spot : Position Version) : ∀ (ranges : List alg.Ranges) (start : alg.Ranges),
    alg.mem (ranges.foldl alg.union start) spot <->
      alg.mem start spot \/
        ∃ range ∈ ranges, alg.mem range spot
  | [], start => by simp
  | range :: ranges, start => by
    rw [List.foldl_cons, mem_foldl_union alg spot ranges, RangeAlgebra.mem,
      alg.mem_union, Bool.or_eq_true, or_assoc]
    simp [RangeAlgebra.mem]

/-! ## The ends of a range of releases -/

variable {version : Version}

section

variable {alg : RangeAlgebra Version Version.cmp} {range : alg.Ranges}

/-- Places around a version that is no release are undivided. -/
lemma undivided_of_not_release
    (noRelease : ∀ release : Version, release.ReleaseOnly -> release.key ≠ version.key)
    (side side' : Side) : Undivided ⟨version, side⟩ ⟨version, side'⟩ := by
  have ordered := cmp_orderedBy
  constructor
  · intro bound plain
    cases bound with
    | included release | excluded release =>
      have different := noRelease release plain
      rw [Bool.eq_iff_iff, Bound.admitsAbove, Bound.admitsAbove,
        Position.compare_isLE_iff ordered, Position.compare_isLE_iff ordered]
      simp [different]
    | unbounded => rfl
  · intro bound plain
    cases bound with
    | included release | excluded release =>
      have different := (noRelease release plain).symm
      rw [Bool.eq_iff_iff, Bound.admitsBelow, Bound.admitsBelow,
        Position.compare_isLE_iff ordered, Position.compare_isLE_iff ordered]
      simp [different]
    | unbounded => rfl

/-- Where a range of releases starts or stops, there is a release. -/
lemma exists_release_of_change (releases : OfReleases alg range)
    {side side' : Side} (inside : alg.mem range ⟨version, side⟩)
    (outside : ¬ alg.mem range ⟨version, side'⟩) :
    version.onlyReleaseTrimmed.key = version.key := by
  by_contra different
  refine outside ((releases _ _ (undivided_of_not_release ?_ side' side)).trans inside)
  intro release only same
  exact different (only.key_onlyReleaseTrimmed same)

lemma not_place_le (version : Version) {side side' : Side} (less : side.rank < side'.rank) :
    ¬ Position.place Version.key ⟨version, side'⟩ <= Position.place Version.key ⟨version, side⟩ :=
  not_le.mpr (Prod.Lex.toLex_lt_toLex.mpr (.inr ⟨rfl, less⟩))

variable {bounds : Segment Version}

lemma lower_contains_iff (releases : OfReleases alg range)
    (bounding : alg.boundingRange range = some bounds) (version : Version) :
    (LowerBound.new bounds.lower).contains version <->
      bounds.lower.admitsAbove Version.cmp ⟨version, .exact⟩ := by
  have ordered := cmp_orderedBy
  rcases alg.lower_spec ordered bounding with ⟨least, low, lowInside, reaches⟩
  cases lower : bounds.lower with
  | included bound =>
    rw [lower] at least reaches
    have inside : alg.mem range ⟨bound, .exact⟩ :=
      reaches _ le_rfl (WithBot.coe_le_coe.mp (least low lowInside))
    have outside : ¬ alg.mem range ⟨bound, .below⟩ := fun inside =>
      not_place_le bound (by decide) (WithBot.coe_le_coe.mp (least _ inside))
    rw [Bound.includedAbove_exact ordered, <- exists_release_of_change releases inside outside]
    exact ordered.isLE_iff _ _
  | excluded bound =>
    rw [lower] at least reaches
    have inside : alg.mem range ⟨bound, .above⟩ :=
      reaches _ le_rfl (WithBot.coe_le_coe.mp (least low lowInside))
    have outside : ¬ alg.mem range ⟨bound, .exact⟩ := fun inside =>
      not_place_le bound (by decide) (WithBot.coe_le_coe.mp (least _ inside))
    rw [Bound.excludedAbove_exact ordered, <- exists_release_of_change releases inside outside]
    exact Ordering.isLT_iff_eq_lt.trans (ordered.lt_iff _ _)
  | unbounded => exact Iff.rfl

lemma upper_contains_iff (releases : OfReleases alg range)
    (bounding : alg.boundingRange range = some bounds) (version : Version) :
    (UpperBound.new bounds.upper).contains version <->
      bounds.upper.admitsBelow Version.cmp ⟨version, .exact⟩ := by
  have ordered := cmp_orderedBy
  rcases alg.upper_spec ordered bounding with ⟨greatest, high, highInside, reaches⟩
  cases upper : bounds.upper with
  | included bound =>
    rw [upper] at greatest reaches
    have inside : alg.mem range ⟨bound, .exact⟩ :=
      reaches _ le_rfl (WithTop.coe_le_coe.mp (greatest high highInside))
    have outside : ¬ alg.mem range ⟨bound, .above⟩ := fun inside =>
      not_place_le bound (by decide) (WithTop.coe_le_coe.mp (greatest _ inside))
    rw [Bound.includedBelow_exact ordered, <- exists_release_of_change releases inside outside]
    change (bound.onlyReleaseTrimmed.cmp version).isGE <-> _
    rw [<- Ordering.isLE_swap, ordered.swap]
    exact ordered.isLE_iff _ _
  | excluded bound =>
    rw [upper] at greatest reaches
    have inside : alg.mem range ⟨bound, .below⟩ :=
      reaches _ le_rfl (WithTop.coe_le_coe.mp (greatest high highInside))
    have outside : ¬ alg.mem range ⟨bound, .exact⟩ := fun inside =>
      not_place_le bound (by decide) (WithTop.coe_le_coe.mp (greatest _ inside))
    rw [Bound.excludedBelow_exact ordered, <- exists_release_of_change releases inside outside]
    exact Ordering.isGT_iff_eq_gt.trans (ordered.gt_iff _ _)
  | unbounded => exact Iff.rfl

end

/-! ## The versions of a marker -/

/-- Every variable has a value, and not only a place between values. -/
def IsReal (world : Assignment) : Prop :=
  ∀ var, (world var).version.side = .exact /\ (world var).string.side = .exact

/-- Some values of the other variables make the tree true for the Python version. -/
def Supports (tree : Tree sets) (version : Version) : Prop :=
  ∃ world, IsReal world /\ (world python).version = ⟨version, .exact⟩ /\ tree.denote world = true

lemma IsReal.update (real : IsReal world)
    {point : Point} (version : point.version.side = .exact) (string : point.string.side = .exact) :
    IsReal (Function.update world var point) := by
  intro other
  by_cases same : other = var
  · subst same
    rw [update_self]
    exact ⟨version, string⟩
  · rw [update_of_ne same]
    exact real other

/-- Each edge to a child other than `false` is taken for some value. -/
def EdgesAttained (var : Variable) : Edges sets (Tree sets) -> Prop
  | .version edges => ∀ edge ∈ edges, ¬ edge.2.isFalse = true ->
      ∃ version : Version, (var = python -> version.ReleaseOnly) /\
        sets.versions.contains edge.1 version = true
  | .string edges => ∀ edge ∈ edges, ¬ edge.2.isFalse = true ->
      ∃ string, sets.strings.contains edge.1 string = true
  | .boolean _ _ => True

inductive Attained : Tree sets -> Prop
  | leaf (value : Bool) : Attained (.leaf value)
  | node {var : Variable} {children : Edges sets (Tree sets)}
      (edges : EdgesAttained var children)
      (all : ∀ child ∈ children.nodes, Attained child) :
      Attained (.node var children)

lemma Attained.createNode (edges : EdgesAttained var children)
    (all : ∀ child ∈ children.nodes, Attained child) :
    Attained (Tree.createNode var children) := by
  rw [Tree.createNode]
  split
  · exact .node edges all
  next first rest shape =>
    split
    · exact all first (by simp [shape])
    · exact .node edges all

lemma EdgesAttained.exists_read
    (attained : EdgesAttained var children) (tiled : children.Tiled) {child : Tree sets}
    (mem : child ∈ children.nodes) (nonempty : ¬ child.isFalse) :
    ∃ point : Point, point.version.side = .exact /\ point.string.side = .exact /\
      children.read point = some child := by
  cases children with
  | version edges =>
    rcases mem_map.mp mem with ⟨edge, edgeListed, rfl⟩
    rcases attained edge edgeListed nonempty with ⟨version, _, inside⟩
    rw [sets.versions.contains_eq] at inside
    exact ⟨.ofVersion version, rfl, rfl, Library.Tiled.tileAt_of_mem tiled edgeListed inside⟩
  | string edges =>
    rcases mem_map.mp mem with ⟨edge, edgeListed, rfl⟩
    rcases attained edge edgeListed nonempty with ⟨string, inside⟩
    rw [sets.strings.contains_eq] at inside
    exact ⟨.ofString string, rfl, rfl, Library.Tiled.tileAt_of_mem tiled edgeListed inside⟩
  | boolean high low =>
    rcases mem_cons.mp mem with rfl | mem
    · exact ⟨.ofBool true, rfl, rfl, rfl⟩
    · rw [mem_singleton.mp mem]
      exact ⟨.ofBool false, rfl, rfl, rfl⟩

section

variable {tree : Tree sets} (reduced : tree.Reduced) (attained : Attained tree)

include reduced attained

/-- A tree whose edges can be taken is true for some values. -/
lemma Attained.exists_real (nonempty : ¬ tree.isFalse) :
    ∃ world, IsReal world /\ tree.denote world := by
  induction tree using induct with
  | leaf value =>
    cases value with
    | true => exact ⟨fun _ => .ofBool false, fun _ => ⟨rfl, rfl⟩, rfl⟩
    | false => exact absurd rfl nonempty
  | node var children ih =>
    rcases reduced.satisfiable nonempty with ⟨world, holds⟩
    rcases reduced.exists_child world with ⟨child, found, mem⟩
    rw [denote_node, found] at holds
    have childNonempty := not_isFalse_of_denote holds
    cases attained with
    | node edges all =>
      rcases ih child mem (reduced.child mem) (all child mem) childNonempty
        with ⟨world', real, holds'⟩
      rcases edges.exists_read reduced.tiled mem childNonempty with ⟨point, version, string, read⟩
      exact ⟨_, real.update version string, (reduced.eval_child read world').symm.trans holds'⟩

/-- Each collected range has a release, and the tree supports all its versions. -/
lemma Attained.collected {range : sets.versions.Ranges}
    (collected : range ∈ collectPythonMarkers tree sets.versions.full) :
    (∃ version : Version, version.ReleaseOnly /\ sets.versions.contains range version) /\
      ∀ version, sets.versions.contains range version -> Supports tree version := by
  revert attained
  refine @collect_induct sets (fun tree range => Attained tree ->
    (∃ version : Version, version.ReleaseOnly /\ sets.versions.contains range version) /\
      ∀ version, sets.versions.contains range version -> Supports tree version)
    ?_ ?_ ?_ tree reduced range collected
  · refine fun _ => ⟨⟨.new [0] zeroRelease_ne_nil, new_releaseOnly _ _,
      sets.versions.contains_full _⟩, fun version _ => ?_⟩
    exact ⟨fun _ => .ofVersion version, fun _ => ⟨rfl, rfl⟩, rfl, rfl⟩
  · intro var children child range reduced other mem nonempty ih attained
    cases attained with
    | node edges all =>
      rcases ih (all child mem) with ⟨release, supports⟩
      refine ⟨release, fun version inside => ?_⟩
      rcases supports version inside with ⟨world, real, atPython, holds⟩
      rcases edges.exists_read reduced.tiled mem nonempty with ⟨point, exact_, exact_', read⟩
      refine ⟨_, real.update exact_ exact_', ?_, (reduced.eval_child read world).symm.trans holds⟩
      rw [update_of_ne (Ne.symm other)]
      exact atPython
  · intro edges edge reduced mem nonempty attained
    have child : edge.2 ∈ (Edges.version edges).nodes := mem_map_of_mem mem
    cases attained with
    | node taken all =>
      constructor
      · rcases taken edge mem nonempty with ⟨version, only, inside⟩
        exact ⟨version, only rfl, inside⟩
      · intro version inside
        rcases Attained.exists_real (reduced.child child) (all _ child) nonempty
          with ⟨world, real, holds⟩
        rw [sets.versions.contains_eq] at inside
        have read : (Edges.version edges).read (.ofVersion version) = some edge.2 :=
          Library.Tiled.tileAt_of_mem reduced.tiled mem inside
        refine ⟨_, real.update rfl rfl, ?_, (reduced.eval_child read world).symm.trans holds⟩
        rw [update_self]
        rfl

end

/-! ## Markers that do not constrain Python -/

lemma isUnbounded_full (alg : RangeAlgebra Version Version.cmp) :
    isUnbounded alg alg.full := by
  have ordered := cmp_orderedBy
  have everywhere := alg.mem_full
  rcases alg.boundingRange_isSome (everywhere ⟨.new [0] zeroRelease_ne_nil, .exact⟩)
    with ⟨⟨lower, upper⟩, bounding⟩
  have least := (alg.lower_spec ordered bounding).1
  have greatest := (alg.upper_spec ordered bounding).1
  have lowerFree : lower = .unbounded := by
    cases lower with
    | included bound =>
      exact absurd (WithBot.coe_le_coe.mp (least ⟨bound, .below⟩ (everywhere _)))
        (not_place_le bound (by decide))
    | excluded bound =>
      exact absurd (WithBot.coe_le_coe.mp (least ⟨bound, .exact⟩ (everywhere _)))
        (not_place_le bound (by decide))
    | unbounded => rfl
  have upperFree : upper = .unbounded := by
    cases upper with
    | included bound =>
      exact absurd (WithTop.coe_le_coe.mp (greatest ⟨bound, .above⟩ (everywhere _)))
        (not_place_le bound (by decide))
    | excluded bound =>
      exact absurd (WithTop.coe_le_coe.mp (greatest ⟨bound, .exact⟩ (everywhere _)))
        (not_place_le bound (by decide))
    | unbounded => rfl
  rw [isUnbounded, bounding, lowerFree, upperFree]

/-- An edge of a node that has other edges is bounded on one side. -/
lemma isUnbounded_edge (reduced : (Marker.Tree.node python (.version edges) : Tree sets).Reduced)
    {edge : sets.versions.Ranges × Tree sets} (mem : edge ∈ edges) :
    isUnbounded sets.versions edge.1 = false := by
  have ordered := cmp_orderedBy
  cases reduced with
  | node kind tiled distinct later _ differ =>
    have tiled : Library.Tiled (Position.place key) sets.versions.mem (fun _ => True)
      edges := tiled
    have another : ∃ other ∈ edges, edge ≠ other := by
      rcases differ with ⟨child, childListed, child', childListed', different⟩
      rcases mem_map.mp childListed with ⟨first, firstListed, rfl⟩
      rcases mem_map.mp childListed' with ⟨second, secondListed, rfl⟩
      by_cases same : edge = first
      · exact ⟨second, secondListed, fun equal => different (by rw [<- same, <- equal])⟩
      · exact ⟨first, firstListed, same⟩
    rcases another with ⟨other, otherListed, different⟩
    rcases tiled.inhabited edge mem with ⟨spot, inside⟩
    rcases tiled.inhabited other otherListed with ⟨elsewhere, otherInside⟩
    have apart : ¬ sets.versions.mem edge.1 elsewhere := fun inside =>
      different (Library.Tiled.apart tiled.sorted mem otherListed inside otherInside)
    rcases sets.versions.boundingRange_isSome inside with ⟨⟨lower, upper⟩, bounding⟩
    rcases sets.versions.lower_spec ordered bounding with ⟨_, low, lowInside, reachesDown⟩
    rcases sets.versions.upper_spec ordered bounding with ⟨_, high, highInside, reachesUp⟩
    rw [isUnbounded, bounding]
    rcases Library.Tiled.precedes_or_precedes tiled.sorted mem otherListed different
      with before | before
    · cases upper with
      | unbounded => exact absurd (reachesUp elsewhere le_top (before _ _ highInside otherInside).le) apart
      | included bound => cases lower <;> rfl
      | excluded bound => cases lower <;> rfl
    · cases lower with
      | unbounded => exact absurd (reachesDown elsewhere bot_le (before _ _ otherInside lowInside).le) apart
      | included bound => cases upper <;> rfl
      | excluded bound => cases upper <;> rfl

lemma exists_bounded {tree : Tree sets} (reduced : tree.Reduced) (occurs : python ∈ tree.vars) :
    ∃ range ∈ collectPythonMarkers tree sets.versions.full,
      isUnbounded sets.versions range = false := by
  induction tree using induct with
  | leaf value => cases occurs
  | node var children ih =>
    by_cases same : var = python
    · subst same
      rcases reduced.satisfiable Bool.false_ne_true with ⟨world, holds⟩
      rcases exists_edges reduced with ⟨edges, rfl⟩
      rcases reduced.exists_child world with ⟨child, found, mem⟩
      rw [denote_node, found] at holds
      rcases mem_of_tileAt found with ⟨edge, edgeListed, _, rfl⟩
      exact ⟨edge.1, (mem_collect_python reduced).mpr ⟨edge, edgeListed, rfl,
        not_isFalse_of_denote holds⟩, isUnbounded_edge reduced edgeListed⟩
    · rcases (mem_vars_node _ _ _).mp occurs with equal | ⟨child, mem, occurs⟩
      · exact absurd equal.symm same
      · rcases ih child mem (reduced.child mem) occurs with ⟨range, collected, bounded⟩
        refine ⟨range, ?_, bounded⟩
        rw [collect_other same, mem_flatMap]
        exact ⟨child, mem, collected⟩

/-! ## The result -/

/-- The versions between the ends of a range. -/
def Encloses (range : RequiresPythonRange) (version : Version) : Prop :=
  range.lower.contains version = true /\ range.upper.contains version = true

/-- What is computed unless the marker is constant or has no bounded path. -/
lemma requiresPython_eq (marker : MarkerTree sets) :
    requiresPython marker =
      if marker.isTrue || marker.isFalse then none
      else if python ∈ marker.tree.vars then
        (sets.versions.boundingRange ((collectPythonMarkers marker.tree sets.versions.full).foldl
          sets.versions.union sets.versions.empty)).map fun bounds =>
            ⟨.new bounds.lower, .new bounds.upper⟩
      else none := by
  rw [requiresPython]
  split
  · rfl
  · dsimp only
    by_cases occurs : python ∈ marker.tree.vars
    · rw [if_pos occurs, if_neg]
      intro all
      rcases exists_bounded marker.reduced occurs with ⟨range, collected, bounded⟩
      exact Bool.false_ne_true (bounded.symm.trans (all_eq_true.mp all range collected))
    · rw [if_neg occurs, if_pos]
      refine all_eq_true.mpr fun range collected => ?_
      rw [((mem_collect_of_after marker.reduced occurs).mp collected).1]
      exact isUnbounded_full sets.versions

section

variable (marker : MarkerTree sets)

/-- The union of what is collected. -/
def union : sets.versions.Ranges :=
  (collectPythonMarkers marker.tree sets.versions.full).foldl sets.versions.union sets.versions.empty

lemma mem_union_iff (spot : Position Version) :
    sets.versions.mem (union marker) spot <->
      ∃ range ∈ collectPythonMarkers marker.tree sets.versions.full,
        sets.versions.mem range spot := by
  rw [union, mem_foldl_union]
  exact or_iff_right fun inside =>
    Bool.false_ne_true ((sets.versions.mem_empty spot).symm.trans inside)

lemma union_ofReleases (releases : marker.tree.OfReleases) :
    OfReleases sets.versions (union marker) := by
  intro spot spot' undivided
  rw [Bool.eq_iff_iff, mem_union_iff, mem_union_iff]
  refine exists_congr fun range => and_congr_right fun collected => ?_
  rw [collected_ofReleases marker.reduced collected releases _ _ undivided]

end

lemma requiresPython_eq_none_iff (marker : MarkerTree sets) :
    requiresPython marker = none <->
      marker = .TRUE \/ marker = .FALSE \/ python ∉ marker.tree.vars := by
  rw [requiresPython_eq, <- marker.isTrue_iff, <- marker.isFalse_iff, <- or_assoc, <- Bool.or_eq_true]
  split
  next constant => simp [constant]
  next proper =>
    split
    next occurs =>
      refine iff_of_false (fun none => ?_) ?_
      · rw [Option.map_eq_none_iff] at none
        rcases exists_bounded marker.reduced occurs with ⟨range, collected, bounded⟩
        have inhabited : ∃ spot, sets.versions.mem range spot := by
          by_contra nowhere
          have empty := (sets.versions.isEmpty_iff_mem range).mpr fun spot =>
            Bool.eq_false_iff.mpr fun inside => nowhere ⟨spot, inside⟩
          rw [isUnbounded, sets.versions.boundingRange_eq, (sets.versions.isEmpty_iff range).mp empty]
            at bounded
          cases bounded
        rcases inhabited with ⟨spot, inside⟩
        rcases sets.versions.boundingRange_isSome ((mem_union_iff marker spot).mpr
          ⟨range, collected, inside⟩) with ⟨bounds, bounding⟩
        cases none.symm.trans bounding
      · rintro (constant | absent)
        · exact proper constant
        · exact absent occurs
    next absent => simp [absent]

section

variable {marker : PythonMarker sets} {range : RequiresPythonRange}
  (result : requiresPython marker.toMarkerTree = some range)

include result

lemma exists_bounds : ∃ bounds,
    sets.versions.boundingRange (union marker.toMarkerTree) = some bounds /\
      ∀ version, Encloses range version <->
        bounds.admits Version.cmp ⟨version, .exact⟩ := by
  rw [requiresPython_eq] at result
  split at result
  · cases result
  · split at result
    · rcases Option.map_eq_some_iff.mp result with ⟨bounds, bounding, rfl⟩
      have releases := union_ofReleases marker.toMarkerTree marker.releases
      refine ⟨bounds, bounding, fun version => ?_⟩
      rw [Segment.admits, Bool.and_eq_true, <- lower_contains_iff releases bounding,
        <- upper_contains_iff releases bounding]
      exact Iff.rfl
    · cases result

/-- No version for which the marker can be true is outside the range. -/
lemma encloses_of_supports (supports : Supports marker.tree version) :
    Encloses range version := by
  rcases exists_bounds result with ⟨bounds, bounding, encloses⟩
  rcases supports with ⟨world, _, atPython, holds⟩
  have inside := (mem_union_iff marker.toMarkerTree _).mpr (exists_collected marker.reduced holds)
  rw [atPython] at inside
  rw [encloses, RangeAlgebra.segment_admits_iff cmp_orderedBy]
  exact ⟨(sets.versions.lower_spec cmp_orderedBy bounding).1 _ inside,
    (sets.versions.upper_spec cmp_orderedBy bounding).1 _ inside⟩

/-- If all edges can be taken, every release in the range lies between releases for
which the marker can be true. -/
lemma exists_supported (attained : Attained marker.tree)
    (only : version.ReleaseOnly) (enclosed : Encloses range version) :
    (∃ low : Version, low.ReleaseOnly /\ Supports marker.tree low /\ low.key <= version.key) /\
      ∃ high : Version, high.ReleaseOnly /\ Supports marker.tree high /\
        version.key <= high.key := by
  have ordered := cmp_orderedBy
  rcases exists_bounds result with ⟨bounds, bounding, encloses⟩
  rcases (RangeAlgebra.segment_admits_iff ordered _ _).mp ((encloses version).mp enclosed)
    with ⟨above, below⟩
  have places : ∀ {left right : Version},
      Position.place key ⟨left, .exact⟩ <= Position.place key ⟨right, .exact⟩ <->
        left.key <= right.key := by
    intro left right
    rw [Position.place, Position.place, Prod.Lex.toLex_le_toLex]
    simp [le_iff_lt_or_eq]
  -- A path supports some release, and the versions between this and its other places.
  have toward : ∀ near : Version -> Prop, near version -> ∀ {spot : Position Version},
      sets.versions.mem (union marker.toMarkerTree) spot ->
      (∀ release : Version, ¬ near release ->
        spot.place key <= Position.place key ⟨version, .exact⟩ /\ version.key <= release.key \/
          release.key <= version.key /\ Position.place key ⟨version, .exact⟩ <= spot.place key) ->
      ∃ release : Version, release.ReleaseOnly /\ Supports marker.tree release /\ near release := by
    intro near own spot covered far
    rcases (mem_union_iff _ _).mp covered with ⟨path, collected, inside⟩
    have supports := attained.collected marker.reduced collected
    rcases supports.1 with ⟨release, releaseOnly, contained⟩
    by_cases isNear : near release
    · exact ⟨release, releaseOnly, supports.2 release contained, isNear⟩
    · refine ⟨version, only, supports.2 version ?_, own⟩
      rw [sets.versions.contains_eq] at contained ⊢
      rcases far release isNear with ⟨le, le'⟩ | ⟨le', le⟩
      · exact collected_convex marker.reduced collected inside contained le (places.mpr le')
      · exact collected_convex marker.reduced collected contained inside (places.mpr le') le
  constructor
  · rcases sets.versions.lower_spec ordered bounding with ⟨_, low, lowInside, reaches⟩
    rcases le_total (Position.place key ⟨version, .exact⟩) (low.place key) with before | after
    · exact toward (·.key <= version.key) le_rfl (reaches _ above before)
        fun release isFar => .inl ⟨le_rfl, le_of_not_ge isFar⟩
    · exact toward (·.key <= version.key) le_rfl lowInside
        fun release isFar => .inl ⟨after, le_of_not_ge isFar⟩
  · rcases sets.versions.upper_spec ordered bounding with ⟨_, high, highInside, reaches⟩
    rcases le_total (high.place key) (Position.place key ⟨version, .exact⟩) with before | after
    · exact toward (version.key <= ·.key) le_rfl (reaches _ below before)
        fun release isFar => .inr ⟨le_of_not_ge isFar, le_rfl⟩
    · exact toward (version.key <= ·.key) le_rfl highInside
        fun release isFar => .inr ⟨le_of_not_ge isFar, after⟩

end

lemma lower_contains_mono {lower : LowerBound} {low : Version}
    (contained : lower.contains low) (le : low.key <= version.key) :
    lower.contains version := by
  have ordered := cmp_orderedBy
  rcases lower with ⟨bound⟩
  cases bound with
  | included bound => exact (ordered.isLE_iff _ _).mpr (((ordered.isLE_iff _ _).mp contained).trans le)
  | excluded bound =>
    refine Ordering.isLT_iff_eq_lt.mpr ((ordered.lt_iff _ _).mpr ?_)
    exact ((ordered.lt_iff _ _).mp (Ordering.isLT_iff_eq_lt.mp contained)).trans_le le
  | unbounded => rfl

lemma upper_contains_mono {upper : UpperBound} {high : Version}
    (contained : upper.contains high) (le : version.key <= high.key) :
    upper.contains version := by
  have ordered := cmp_orderedBy
  rcases upper with ⟨bound⟩
  cases bound with
  | included bound =>
    have above := le_upper contained bound (.inl rfl)
    change (bound.cmp version).isGE
    rw [<- Ordering.isLE_swap, ordered.swap]
    exact (ordered.isLE_iff _ _).mpr (le.trans above)
  | excluded bound =>
    refine Ordering.isGT_iff_eq_gt.mpr ((ordered.gt_iff _ _).mpr ?_)
    exact lt_of_le_of_lt le ((ordered.gt_iff _ _).mp (Ordering.isGT_iff_eq_gt.mp contained))
  | unbounded => rfl

/-- The range encloses all versions for which the marker can be true, and any other
range that encloses the releases among them has all its releases. -/
structure IsSmallest (tree : Tree sets) (range : RequiresPythonRange) : Prop where
  encloses : ∀ version, Supports tree version -> Encloses range version
  least : ∀ other : RequiresPythonRange,
    (∀ version : Version, version.ReleaseOnly -> Supports tree version ->
      Encloses other version) ->
    ∀ version : Version, version.ReleaseOnly -> Encloses range version ->
      Encloses other version

/-- The bounds of a marker are missing just when it is constant or has no test of the
Python version.  They enclose all versions for which the marker can be true, and if
all edges of the marker can be taken, they are the smallest bounds that do. -/
theorem requiresPython_smallest (marker : PythonMarker sets) :
    (requiresPython marker.toMarkerTree = none <->
      marker.toMarkerTree = .TRUE \/ marker.toMarkerTree = .FALSE \/ python ∉ marker.tree.vars) /\
    ∀ range, requiresPython marker.toMarkerTree = some range ->
      (∀ version, Supports marker.tree version -> Encloses range version) /\
      (Attained marker.tree -> IsSmallest marker.tree range) := by
  refine ⟨requiresPython_eq_none_iff _, fun range result => ⟨fun version => encloses_of_supports result,
    fun attained => ⟨fun version => encloses_of_supports result, ?_⟩⟩⟩
  intro other covers version only enclosed
  rcases exists_supported result attained only enclosed
    with ⟨⟨low, lowOnly, lowSupported, lowLe⟩, high, highOnly, highSupported, highLe⟩
  exact ⟨lower_contains_mono (covers low lowOnly lowSupported).1 lowLe,
    upper_contains_mono (covers high highOnly highSupported).2 highLe⟩

/-! ## Single comparisons -/

section

variable (spec : VersionSpecifier)

/-- The marker `python_full_version <op> <version>`. -/
def comparison : PythonMarker sets :=
  .expression (.version .pythonFullVersion spec)

lemma denote_comparison (world : Assignment) :
    (comparison spec : PythonMarker sets).tree.denote world =
      sets.versions.mem (specifierRange sets spec) (world python).version :=
  (versionNode_decides rfl _).denotes world

/-- A comparison whose versions form one interval with a release can be taken. -/
lemma comparison_attained {segment : Segment Version} (only : version.ReleaseOnly)
    (pass : sets.versions.contains (specifierRange sets spec) version)
    (interval : ∀ spot, sets.versions.mem (specifierRange sets spec) spot =
      segment.admits Version.cmp spot) :
    Attained (comparison spec : PythonMarker sets).tree := by
  have ordered := cmp_orderedBy
  refine .createNode (fun edge mem nonempty => ⟨version, fun _ => only, ?_⟩) fun child mem => ?_
  · rcases (mem_fromRange_iff _ _ _).mp mem with ⟨part, inside, partListed, rfl⟩
    cases inside with
    | false => exact absurd rfl nonempty
    | true =>
      rw [sets.versions.contains_eq] at pass ⊢
      rw [sets.versions.mem_fromRangeBounds]
      refine sets.versions.segment_admits_of_convex ordered ?_ partListed pass
      intro low spot high lowInside highInside above below
      rw [if_pos rfl, interval, RangeAlgebra.segment_admits_iff ordered] at lowInside highInside ⊢
      exact ⟨lowInside.1.trans (WithBot.coe_le_coe.mpr above),
        (WithTop.coe_le_coe.mpr below).trans highInside.2⟩
  · rcases fromRange_leaves _ _ mem with ⟨value, rfl⟩
    exact .leaf value

end

theorem requiresPython_smallest_atLeast :
    let marker : PythonMarker .cutSets :=
      comparison (.greaterThanEqualVersion (.new [3, 8] (pair_ne_nil 3 8)))
    ∃ range, requiresPython marker.toMarkerTree = some range /\ IsSmallest marker.tree range := by
  refine ⟨⟨⟨.included (.new [3, 8] (pair_ne_nil 3 8))⟩, ⟨.unbounded⟩⟩, rfl, ?_⟩
  refine ((requiresPython_smallest _).2 _ rfl).2 ?_
  exact comparison_attained _ (new_releaseOnly [3, 8] (pair_ne_nil 3 8)) rfl
    (IntervalSets.cutSets.versions.mem_higherThan _)

/-- `python_full_version != '0'` allows all releases above `0`.  The bounds of the marker
include `0`, because of the versions below it. -/
theorem requiresPython_notZero :
    let marker : PythonMarker .cutSets :=
      comparison ⟨.notEqual, .new [0] zeroRelease_ne_nil, nofun⟩
    ∃ range, requiresPython marker.toMarkerTree = some range /\ ¬ IsSmallest marker.tree range := by
  refine ⟨⟨⟨.unbounded⟩, ⟨.unbounded⟩⟩, rfl, fun smallest => ?_⟩
  have zero := new_releaseOnly [0] zeroRelease_ne_nil
  have above := smallest.least ⟨⟨.excluded (.new [0] zeroRelease_ne_nil)⟩, ⟨.unbounded⟩⟩ ?_
    (.new [0] zeroRelease_ne_nil) zero ⟨rfl, rfl⟩
  · exact Bool.false_ne_true above.1
  · rintro version only ⟨world, _, atPython, holds⟩
    rw [denote_comparison, atPython, RangeAlgebra.mem, <- RangeAlgebra.contains_eq] at holds
    have different := (contains_range_iff _ only (onlyRelease_spec _).1 _).mp holds
    refine ⟨Ordering.isLT_iff_eq_lt.mpr ((cmp_orderedBy.lt_iff _ _).mpr ?_), rfl⟩
    rw [zero.key_lt_iff only, release_new]
    exact lt_of_le_of_ne (releaseKey_zero ▸ releaseKey_nil_le _) (Ne.symm different)

end Uv.Resolver
