import Uv.Marker.MarkerTree

namespace Uv.Marker

open Pep440 Library List Option

/-!
# Markers under an assumption

`restrict` simplifies a marker where another marker is assumed to hold.  A range of
values that the assumption rules out may be given any child, so it gets the first one
that can be reached, and the tests that only the assumption makes are removed from it.
The result agrees with the marker wherever the assumption holds, and it makes no new
tests.
-/

variable {sets : IntervalSets}

/-! ## Pairs of children -/

section

variable {V : Type} {cmp : V -> V -> Ordering} (alg : RangeAlgebra V cmp) {N M : Type}

/-- The children at ranges that intersect, in the order in which edges are combined. -/
def pairRanges (left : List (alg.Ranges × N)) (right : List (alg.Ranges × M)) :
    List (N × M) :=
  (refine alg.intersection alg.isEmpty Prod.mk left right).map Prod.snd

variable {left : List (alg.Ranges × N)} {right : List (alg.Ranges × M)}

lemma mem_pairRanges_iff {pair : N × M} :
    pair ∈ pairRanges alg left right <->
      ∃ edge ∈ left, ∃ edge' ∈ right, (∃ spot, alg.mem edge.1 spot /\
          alg.mem edge'.1 spot) /\ (edge.2, edge'.2) = pair := by
  have pieces := fun piece => @mem_refine_iff _ _ _ alg.mem left _ _ alg.intersection
    alg.isEmpty Prod.mk alg.mem_intersection alg.isEmpty_iff_mem right piece
  rw [pairRanges, List.mem_map]
  constructor
  · rintro ⟨piece, mem, rfl⟩
    rcases (pieces piece).mp mem with ⟨edge, edgeListed, edge', edgeListed', common, rfl⟩
    exact ⟨edge, edgeListed, edge', edgeListed', common, rfl⟩
  · rintro ⟨edge, mem, edge', mem', common, rfl⟩
    exact ⟨_, (pieces _).mpr ⟨edge, mem, edge', mem', common, rfl⟩, rfl⟩

lemma nodes_of_mem_pairRanges {pair : N × M} (mem : pair ∈ pairRanges alg left right) :
    pair.1 ∈ left.map Prod.snd /\ pair.2 ∈ right.map Prod.snd := by
  rcases (mem_pairRanges_iff alg).mp mem with ⟨edge, edgeListed, edge', edgeListed', _, rfl⟩
  exact ⟨mem_map_of_mem edgeListed, mem_map_of_mem edgeListed'⟩

end

namespace Edges

variable {N M : Type} {left : Edges sets N} {right : Edges sets M}

def pairs : Edges sets N -> Edges sets M -> List (N × M)
  | .version left, .version right => pairRanges sets.versions left right
  | .string left, .string right => pairRanges sets.strings left right
  | .boolean high low, .boolean high' low' => [(high, high'), (low, low')]
  | _, _ => []

lemma mem_pairs (sameKind : left.kind = right.kind) {point : Point} {node : N} {node' : M}
    (found : left.read point = some node) (found' : right.read point = some node') :
    (node, node') ∈ left.pairs right := by
  cases left <;> cases right <;> try cases sameKind
  · rcases mem_of_tileAt found with ⟨edge, mem, inside, rfl⟩
    rcases mem_of_tileAt found' with ⟨edge', mem', inside', rfl⟩
    exact (mem_pairRanges_iff sets.versions).mpr ⟨edge, mem, edge', mem', ⟨_, inside, inside'⟩, rfl⟩
  · rcases mem_of_tileAt found with ⟨edge, mem, inside, rfl⟩
    rcases mem_of_tileAt found' with ⟨edge', mem', inside', rfl⟩
    exact (mem_pairRanges_iff sets.strings).mpr ⟨edge, mem, edge', mem', ⟨_, inside, inside'⟩, rfl⟩
  · rw [<- some.inj found, <- some.inj found']
    cases point.boolean <;> simp [pairs]

theorem nodes_of_mem_pairs {pair : N × M} (mem : pair ∈ left.pairs right) :
    pair.1 ∈ left.nodes /\ pair.2 ∈ right.nodes := by
  cases left <;> cases right <;> try exact absurd mem not_mem_nil
  · exact nodes_of_mem_pairRanges sets.versions mem
  · exact nodes_of_mem_pairRanges sets.strings mem
  · simp only [pairs, mem_cons, not_mem_nil, or_false] at mem
    rcases mem with rfl | rfl <;> simp [nodes]

end Edges

namespace Tree

/-! ## The recursion -/

/-- One step, for trees that are not constant. -/
def restrictNodes (recurse : Tree sets -> Tree sets -> Tree sets) :
    Tree sets -> Tree sets -> Tree sets
  | .node var children, .node var' children' =>
    match compare var var' with
    | .lt => createNode var (children.map beq fun child => recurse child (.node var' children'))
    -- The value does not depend on the variable of the assumption.
    | .gt => recurse (.node var children) (disjoinAll children'.nodes)
    | .eq =>
      match (children.pairs children').findSome? fun pair =>
        if pair.2.isFalse then none else some (recurse pair.1 pair.2) with
      | none => .leaf false
      | some fallback => createNode var (children.apply beq (fun child child' =>
        if child'.isFalse then fallback else recurse child child') children')
  | value, _ => value

/-- The fuel bounds the tests of the value and of the assumption together. -/
def restrictWithin : Nat -> Tree sets -> Tree sets -> Tree sets
  | 0, value, _ => value
  | fuel + 1, value, assumption =>
    if assumption.isTrue || value.isTrue || value.isFalse then value
    else if assumption.isFalse then .leaf false
    else if value.beq assumption then .leaf true
    else if value.beq assumption.not then .leaf false
    else restrictNodes (restrictWithin fuel) value assumption

def restrict (value assumption : Tree sets) : Tree sets :=
  restrictWithin (value.size + assumption.vars.length + 1) value assumption

/-- The result agrees with the value under the assumption, meets no new tests there, and makes
no new tests elsewhere. -/
structure Agrees (value assumption result : Tree sets) : Prop where
  reduced : result.Reduced
  denotes : ∀ world, assumption.denote world = true ->
    result.denote world = value.denote world
  met : ∀ world, assumption.denote world = true -> result.met world ⊆ value.met world
  vars : ∀ var ∈ result.vars, var ∈ value.vars

variable {value assumption : Tree sets}

lemma Agrees.leaf (constant : Bool) (denotes : ∀ world, assumption.denote world ->
      constant = value.denote world) : Agrees value assumption (.leaf constant) :=
  ⟨.leaf constant, denotes, fun _ _ => nil_subset _, forall_mem_nil _⟩

variable {var : Variable} {children : Edges sets (Tree sets)}

/-- The first variable of the assumption is later. -/
lemma Agrees.left {recurse : Tree sets -> Tree sets} (reduced : (Tree.node var children).Reduced)
    (recursion : ∀ child ∈ children.nodes, Agrees child assumption (recurse child)) :
    Agrees (Tree.node var children) assumption (createNode var (children.map beq recurse)) := by
  have replaced : Replaces var children recurse (createNode var (children.map beq recurse)) := by
    refine createNode_map reduced.kind reduced.tiled
      (fun child mem => (recursion child mem).reduced) ?_
    exact fun child mem other occurs =>
      reduced.later mem other ((recursion child mem).vars other occurs)
  refine ⟨replaced.reduced, fun world holds => ?_, fun world holds other met => ?_,
    fun other occurs => ?_⟩
  · rcases reduced.exists_child world with ⟨child, found, mem⟩
    rw [replaced.denotes world child found, denote_node, found]
    exact (recursion child mem).denotes world holds
  · rcases reduced.exists_child world with ⟨child, found, mem⟩
    rw [mem_met_node found]
    exact (replaced.met world child found other met).imp id ((recursion child mem).met world holds ·)
  · rcases replaced.reduced.exists_met occurs with ⟨world, met⟩
    rcases reduced.exists_child world with ⟨child, found, mem⟩
    rcases replaced.met world child found other met with rfl | met
    · exact mem_vars_self _ _
    · exact mem_vars_child mem ((recursion child mem).vars other (mem_vars_of_met met))

/-- Where the assumption holds, a pair of children is read of which the second is not `FALSE`. -/
def Reaches (var : Variable) (children children' : Edges sets (Tree sets)) : Prop :=
  ∀ world, (Tree.node var children').denote world = true ->
    ∃ child child', children.read (world var) = some child /\
      children'.read (world var) = some child' /\ child'.denote world = true /\
      ¬ child'.isFalse = true /\ (child, child') ∈ children.pairs children'

variable {recurse : Tree sets -> Tree sets -> Tree sets} {children' : Edges sets (Tree sets)}

/-- Ranges that the assumption rules out get the fallback, which agrees with one of the children. -/
lemma Agrees.combine {first first' fallback : Tree sets}
    (agrees : Agrees first first' fallback) (reduced : (Tree.node var children).Reduced)
    (reduced' : (Tree.node var children').Reduced) (mem : first ∈ children.nodes)
    (recursion : ∀ child ∈ children.nodes, ∀ child' ∈ children'.nodes,
      Agrees child child' (recurse child child')) (reached : Reaches var children children') :
    Agrees (Tree.node var children) (Tree.node var children')
      (createNode var (children.apply beq (fun child child' =>
        if child'.isFalse then fallback else recurse child child') children')) := by
  -- Every new child is reduced, and tests only what some child of the value tests.
  have origin : ∀ child ∈ children.nodes, ∀ child' ∈ children'.nodes,
      (if child'.isFalse then fallback else recurse child child').Reduced /\
        ∀ other ∈ (if child'.isFalse then fallback else recurse child child').vars,
          ∃ source ∈ children.nodes, other ∈ source.vars := by
    intro child childListed child' childListed'
    split
    · exact ⟨agrees.reduced, fun other occurs => ⟨first, mem, agrees.vars other occurs⟩⟩
    · have recursive := recursion child childListed child' childListed'
      exact ⟨recursive.reduced, fun other occurs => ⟨child, childListed, recursive.vars other occurs⟩⟩
  rcases createNode_apply reduced.kind reduced'.kind reduced.tiled reduced'.tiled
    (fun child mem child' mem' => (origin child mem child' mem').1)
    (fun child mem child' mem' other occurs => by
      rcases (origin child mem child' mem').2 other occurs with ⟨source, sourceListed, occurs⟩
      exact reduced.later sourceListed other occurs) with ⟨newReduced, denotes, mets, _⟩
  refine ⟨newReduced, fun world holds => ?_, fun world holds other met => ?_, fun other occurs => ?_⟩
  · rcases reached world holds with ⟨child, child', found, found', holds', notFalse, _⟩
    rw [denotes world child child' found found', if_neg notFalse, denote_node, found]
    exact (recursion child (Edges.mem_nodes_of_read found) child'
      (Edges.mem_nodes_of_read found')).denotes world holds'
  · rcases reached world holds with ⟨child, child', found, found', holds', notFalse, _⟩
    rw [mem_met_node found]
    refine (mets world child child' found found' other met).imp id fun met => ?_
    rw [if_neg notFalse] at met
    exact (recursion child (Edges.mem_nodes_of_read found) child'
      (Edges.mem_nodes_of_read found')).met world holds' met
  · rcases newReduced.exists_met occurs with ⟨world, met⟩
    rcases reduced.exists_child world with ⟨child, found, mem⟩
    rcases reduced'.exists_child world with ⟨child', found', mem'⟩
    rw [mem_vars_node]
    exact (mets world child child' found found' other met).imp id fun met =>
      (origin child mem child' mem').2 other (mem_vars_of_met met)

/-- Both trees test the same variable first.  Where the assumption holds its child is not
`FALSE`, so the fallback is never read there. -/
lemma Agrees.same
    (reduced : (Tree.node var children).Reduced) (reduced' : (Tree.node var children').Reduced)
    (recursion : ∀ child ∈ children.nodes, ∀ child' ∈ children'.nodes,
      Agrees child child' (recurse child child')) :
    Agrees (Tree.node var children) (Tree.node var children')
      (match (children.pairs children').findSome? fun pair =>
          if pair.2.isFalse then none else some (recurse pair.1 pair.2) with
      | none => .leaf false
      | some fallback => createNode var (children.apply beq (fun child child' =>
        if child'.isFalse then fallback else recurse child child') children')) := by
  have sameKind := reduced.kind.trans reduced'.kind.symm
  have reached : Reaches var children children' := by
    intro world holds
    rcases reduced.exists_child world with ⟨child, found, _⟩
    rcases reduced'.exists_child world with ⟨child', found', _⟩
    rw [denote_node, found'] at holds
    exact ⟨child, child', found, found', holds, not_isFalse_of_denote holds,
      Edges.mem_pairs sameKind found found'⟩
  cases search : (children.pairs children').findSome? fun pair =>
      if pair.2.isFalse then none else some (recurse pair.1 pair.2) with
  | none =>
    refine Agrees.leaf false fun world holds => ?_
    rcases reached world holds with ⟨child, child', _, _, _, notFalse, mem⟩
    have skipped := findSome?_eq_none_iff.mp search _ mem
    exact absurd ((if_neg notFalse).symm.trans skipped) (some_ne_none _)
  | some fallback =>
    rcases exists_of_findSome?_eq_some search with ⟨pair, pairListed, chosen⟩
    rcases Edges.nodes_of_mem_pairs pairListed with ⟨mem, mem'⟩
    split at chosen
    next => exact absurd chosen.symm (some_ne_none _)
    next =>
      have agrees := recursion pair.1 mem pair.2 mem'
      rw [some.inj chosen] at agrees
      exact agrees.combine reduced reduced' mem recursion reached

/-- The first variable of the assumption is merged out of it, which leaves it true where it was. -/
lemma agrees_merged {fuel : Nat} {bound : Finset Variable}
    (recursion : ∀ {value assumption : Tree sets} {bound : Finset Variable}, value.Reduced ->
      assumption.Reduced -> (∀ var ∈ assumption.vars, var ∈ bound) ->
      value.size + bound.card < fuel -> Agrees value assumption (restrictWithin fuel value assumption))
    (reduced : value.Reduced) (reduced' : (Tree.node var children).Reduced)
    (within : ∀ other ∈ (Tree.node var children).vars, other ∈ bound)
    (small : value.size + bound.card < fuel + 1) :
    Agrees value (Tree.node var children)
      (restrictWithin fuel value (disjoinAll children.nodes)) := by
  have union := disjoinAll_isUnion fun child (mem : child ∈ children.nodes) =>
    reduced'.child mem
  rcases exists_bound reduced' within (show bound.card < fuel - value.size + 1 by omega) with
    ⟨fewer, smaller, inFewer⟩
  have agrees : Agrees value (disjoinAll children.nodes)
      (restrictWithin fuel value (disjoinAll children.nodes)) := by
    refine recursion reduced union.reduced (fun other occurs => ?_)
      (show value.size + fewer.card < fuel by omega)
    rcases union.vars occurs with ⟨child, mem, occurs⟩
    exact inFewer child mem other occurs
  have merged : ∀ world, (Tree.node var children).denote world ->
      (disjoinAll children.nodes).denote world := by
    intro world holds
    rcases reduced'.exists_child world with ⟨child, found, mem⟩
    rw [denote_node, found] at holds
    exact union.complete child mem world holds
  exact ⟨agrees.reduced, fun world holds => agrees.denotes world (merged world holds),
    fun world holds => agrees.met world (merged world holds), agrees.vars⟩

/-- Induction on the fuel: a child of the value is smaller, and a variable merged out of the
assumption occurs in it no more. -/
lemma restrictWithin_agrees {fuel : Nat} : ∀ {value assumption : Tree sets}
    {bound : Finset Variable}, value.Reduced -> assumption.Reduced ->
    (∀ var ∈ assumption.vars, var ∈ bound) -> value.size + bound.card < fuel ->
    Agrees value assumption (restrictWithin fuel value assumption) := by
  induction fuel with
  | zero => exact fun _ _ _ small => by cases small
  | succ fuel ih =>
    intro value assumption bound reduced reduced' within small
    have unchanged : Agrees value assumption value :=
      ⟨reduced, fun _ _ => rfl, fun _ _ => Subset.refl _, fun _ occurs => occurs⟩
    rw [restrictWithin]
    split
    next => exact unchanged
    split
    next isFalse =>
      exact Agrees.leaf false fun world holds => absurd isFalse (not_isFalse_of_denote holds)
    split
    next equal =>
      refine Agrees.leaf true fun world holds => ?_
      rw [(reduced.beq_iff reduced').mp equal, holds]
    split
    next opposite =>
      refine Agrees.leaf false fun world holds => ?_
      rw [(reduced.beq_iff reduced'.not).mp opposite, denote_not _ reduced', holds, Bool.not_true]
    cases value with
    | leaf constant => exact unchanged
    | node var children =>
      cases assumption with
      | leaf constant => exact unchanged
      | node var' children' =>
        have smaller : ∀ child ∈ children.nodes, child.size + bound.card < fuel := by
          intro child mem
          have less := size_lt_of_mem var _ mem
          omega
        cases order : compare var var' with
        | lt =>
          simp only [restrictNodes, order]
          exact Agrees.left reduced fun child mem =>
            ih (reduced.child mem) reduced' within (smaller child mem)
        | gt =>
          simp only [restrictNodes, order]
          exact agrees_merged ih reduced reduced' within small
        | eq =>
          cases compare_eq_iff_eq.mp order
          simp only [restrictNodes, order]
          refine Agrees.same reduced reduced' fun child mem child' mem' => ?_
          refine ih (reduced.child mem) (reduced'.child mem') ?_ (smaller child mem)
          exact fun other occurs =>
            within other (mem_vars_child mem' occurs)

lemma restrict_agrees (reduced : value.Reduced)
    (reduced' : assumption.Reduced) : Agrees value assumption (restrict value assumption) := by
  refine @restrictWithin_agrees _ _ value assumption assumption.vars.toFinset reduced reduced' ?_ ?_
  · exact fun var occurs => mem_toFinset.mpr occurs
  · have counted := assumption.vars.toFinset_card_le
    omega

end Tree

namespace MarkerTree

def restrict (marker assumption : MarkerTree sets) : MarkerTree sets :=
  ⟨marker.tree.restrict assumption.tree,
    (Tree.restrict_agrees marker.reduced assumption.reduced).reduced⟩

/-- A restricted marker makes no new tests.  It has the value of the marker wherever the
assumption applies and the evaluation of the marker meets no test without a value. -/
theorem restrict_correct (marker assumption : MarkerTree sets) :
    (∀ env extras, assumption.tree.evaluate env extras = true ->
      marker.tree.Settled env extras ->
      (marker.restrict assumption).tree.evaluate env extras = marker.tree.evaluate env extras) /\
    ∀ var ∈ (marker.restrict assumption).tree.vars, var ∈ marker.tree.vars := by
  have agrees := Tree.restrict_agrees marker.reduced assumption.reduced
  refine ⟨fun env extras applies settled => ?_, agrees.vars⟩
  have holds := Tree.denote_of_evaluate applies
  have settled' : (marker.restrict assumption).tree.Settled env extras :=
    fun var met => settled var (agrees.met _ holds met)
  rw [Tree.evaluate_eq_denote marker.reduced settled, Tree.evaluate_eq_denote (reduced _) settled']
  exact agrees.denotes _ holds

section

variable (env : MarkerEnvironment) (extras : ExtrasEnvironment)

/-- A marker made of decided ones, and the value that the connectives give to it.  On the way
it may be restricted to assumptions that apply. -/
inductive Built : MarkerTree sets -> Bool -> Prop
  | given {marker} (decided : marker.tree.Decided env extras) :
      Built marker (marker.tree.evaluate env extras)
  | negate {marker value} : Built marker value -> Built marker.negate !value
  | and {left right value value'} : Built left value -> Built right value' ->
      Built (left.and right) (value && value')
  | or {left right value value'} : Built left value -> Built right value' ->
      Built (left.or right) (value || value')
  | restrict {marker assumption value} (applies : assumption.tree.evaluate env extras = true) :
      Built marker value -> Built (marker.restrict assumption) value

variable {env extras} {marker : MarkerTree sets} {value : Bool}

lemma Built.denotes (admitted : ¬ env.Excluded) (built : Built env extras marker value) :
    marker.tree.Decided env extras /\ marker.denote (valuation env extras) = value := by
  have admitted := (not_congr (excluded_valuation_iff env extras)).mpr admitted
  -- No operation tests a variable that its operands do not test.
  induction built with
  | given decided => exact ⟨decided, (Tree.evaluate_eq_denote (reduced _) decided.settled).symm⟩
  | negate _ ih =>
    refine ⟨fun var occurs => ih.1 var (Tree.vars_not _ ▸ occurs), ?_⟩
    rw [denote_negate, ih.2]
  | and _ _ left right =>
    refine ⟨fun var occurs => ?_, by rw [denote_and _ _ admitted, left.2, right.2]⟩
    exact ((Tree.and_isConjunction (reduced _) (reduced _)).vars occurs).elim
      (left.1 var) (right.1 var)
  | or _ _ left right =>
    refine ⟨fun var occurs => ?_, by rw [denote_or _ _ admitted, left.2, right.2]⟩
    exact (Tree.or_vars (reduced _) (reduced _) occurs).elim (left.1 var) (right.1 var)
  | @restrict marker assumption _ applies _ ih =>
    have agrees := Tree.restrict_agrees marker.reduced assumption.reduced
    refine ⟨fun var occurs => ih.1 var (agrees.vars var occurs), ?_⟩
    exact (agrees.denotes _ (Tree.denote_of_evaluate applies)).trans ih.2

theorem evaluate_built (admitted : ¬ env.Excluded) (built : Built env extras marker value) :
    marker.tree.evaluate env extras = value := by
  rcases built.denotes admitted with ⟨decided, denotes⟩
  rw [Tree.evaluate_eq_denote (reduced _) decided.settled]
  exact denotes

end

section

/-- The comparison of versions that `platform_release >= '5'` makes on Darwin.  It is the marker
that remains when `sys_platform == 'darwin'` is assumed. -/
noncomputable def recentRelease : MarkerTree .cutSets :=
  ⟨.versionNode (.versionString .platformRelease)
    (specifierRange _ (.greaterThanEqualVersion (.new [5] (by decide)))),
    (Tree.versionNode_decides rfl _).reduced⟩

noncomputable def extraMarker (name : ExtraName) : MarkerTree .cutSets :=
  .expression (.extra (.extra name) .equal)

/-- One extra on recent releases, another one on the others. -/
noncomputable def extraByRelease : MarkerTree .cutSets :=
  (recentRelease.and (extraMarker "a")).or (recentRelease.negate.and (extraMarker "b"))

lemma darwinPython_ne_nil : ([3, 9, 1] : List UInt64) ≠ [] := cons_ne_nil _ _

/-- Darwin, with a release that may not be a version. -/
def darwinEnvironment (release : String) : MarkerEnvironment :=
  { linuxEnvironment (.new [3, 9, 1] darwinPython_ne_nil) with
    sysPlatform := "darwin", platformSystem := "Darwin", platformRelease := release }

theorem restrict_correct_release :
    (extraByRelease.restrict ((extraMarker "a").and (extraMarker "b"))).tree.evaluate
        (darwinEnvironment "23.1.0") (.extras ["a", "b"]) =
      extraByRelease.tree.evaluate (darwinEnvironment "23.1.0") (.extras ["a", "b"]) := by
  refine (restrict_correct extraByRelease ((extraMarker "a").and (extraMarker "b"))).1 _ _ ?_ ?_
  · decide +kernel
  · unfold Tree.Settled
    decide +kernel

/-- A release that is no version makes the marker false.  Under the assumption of both extras
the release is not tested. -/
theorem restrict_undecided :
    ((extraMarker "a").and (extraMarker "b")).tree.evaluate
        (darwinEnvironment "custom") (.extras ["a", "b"]) = true /\
      extraByRelease.tree.evaluate (darwinEnvironment "custom") (.extras ["a", "b"]) = false /\
      (extraByRelease.restrict ((extraMarker "a").and (extraMarker "b"))).tree.evaluate
        (darwinEnvironment "custom") (.extras ["a", "b"]) = true := by
  refine ⟨?_, ?_, ?_⟩ <;> decide +kernel

theorem evaluate_built_release :
    (extraByRelease.negate.restrict recentRelease).tree.evaluate (darwinEnvironment "23.1.0")
        (.extras []) =
      !extraByRelease.tree.evaluate (darwinEnvironment "23.1.0") (.extras []) := by
  refine evaluate_built ?_ (.restrict (by decide +kernel) (.negate (.given ?_)))
  · unfold MarkerEnvironment.Excluded
    decide +kernel
  · unfold Tree.Decided
    decide +kernel

end

end MarkerTree

end Uv.Marker
