import Uv.Marker.Extras

namespace Uv.Marker

open Pep440 Library List Edges Uv.Marker.Tree Option

/-!
# Markers in place of extras

`resolve_extras` replaces the tests of extras by markers that say when the extras are
active.  The markers may test variables that come before the replaced one, so a node above
them is not created anew, but rebuilt from the conditions of its edges by conjunction and
disjunction.
-/

variable {sets : IntervalSets}

namespace Tree

/-! ## Rebuilding a node -/

/-- One tree where the condition holds, and another one elsewhere. -/
def choose (condition high low : Tree sets) : Tree sets :=
  or (and condition high) (and condition.not low)

def rebuildRanges {R : Type} (condition : R -> Tree sets) (edges : List (R × Tree sets)) : Tree sets :=
  edges.foldl (fun result edge =>
    if edge.2.isFalse then result else or result (and (condition edge.1) edge.2)) (.leaf false)

def rebuildNode (var : Variable) : Edges sets (Tree sets) -> Tree sets
  | .boolean high low => choose (booleanNode var true) high low
  | .version edges => rebuildRanges (versionNode var) edges
  | .string edges => rebuildRanges (stringNode var) edges

/-- The tree continues with the child that is read at the variable.  Of the other children it
meets tests before the variable only. -/
structure Continues (var : Variable) (children : Edges sets (Tree sets)) (result : Tree sets) :
    Prop where
  reduced : result.Reduced
  denotes : ∀ world child, ¬ Excluded world ->
    children.read (world var) = some child -> result.denote world = child.denote world
  met : ∀ world child, children.read (world var) = some child ->
    ∀ other ∈ result.met world, other = var \/ other ∈ child.met world \/
      other < var /\ ∃ child' ∈ children.nodes, other ∈ child'.met world

section

variable {condition high low : Tree sets} (reduced : condition.Reduced) (highReduced : high.Reduced)
  (lowReduced : low.Reduced)

include reduced highReduced lowReduced

lemma choose_reduced : (choose condition high low).Reduced :=
  or_reduced (and_isConjunction reduced highReduced).reduced
    (and_isConjunction reduced.not lowReduced).reduced

lemma denote_choose {world : Assignment} (admitted : ¬ Excluded world) :
    (choose condition high low).denote world =
      if condition.denote world then high.denote world else low.denote world := by
  rw [choose, denote_or (and_isConjunction reduced highReduced).reduced
    (and_isConjunction reduced.not lowReduced).reduced admitted,
    denote_and reduced highReduced admitted, denote_and reduced.not lowReduced admitted,
    denote_not _ reduced]
  cases condition.denote world <;> simp

lemma choose_met {var : Variable} {world : Assignment}
    (met : var ∈ (choose condition high low).met world) :
    var ∈ (and condition high).met world \/ var ∈ (and condition.not low).met world :=
  or_met (and_isConjunction reduced highReduced).reduced
    (and_isConjunction reduced.not lowReduced).reduced met

end

section

variable {condition child : Tree sets} {var other : Variable} {holds : Point -> Bool}
  (decides : condition.Decides var holds)

include decides

lemma Decides.not : condition.not.Decides var fun point => !holds point where
  reduced := decides.reduced.not
  denotes world := by rw [denote_not _ decides.reduced, decides.denotes]
  vars other occurs := decides.vars other (vars_not condition ▸ occurs)

/-- Where a condition on a variable fails, its conjunction with a tree meets only the tests of
the tree that come before the variable. -/
lemma Decides.met_and (reduced : child.Reduced) {world : Assignment}
    (met : other ∈ (and condition child).met world) : other = var \/
      other ∈ child.met world /\ (holds (world var) = true \/ other < var) := by
  rcases (and_isConjunction decides.reduced reduced).met world other met with ⟨met, _⟩ | ⟨met, isOpen⟩
  · exact .inl (decides.vars other (mem_vars_of_met met))
  · rcases isOpen with denotes | ⟨tested, metToo, le⟩
    · exact .inr ⟨met, .inl (decides.denotes world ▸ denotes)⟩
    · rw [decides.vars tested (mem_vars_of_met metToo)] at le
      exact le.eq_or_lt.imp id fun less => ⟨met, .inr less⟩

end

/-- What the loop over the edges has collected. -/
structure Collects {R : Type} (condition : R -> Tree sets) (edges : List (R × Tree sets))
    (result : Tree sets) : Prop where
  reduced : result.Reduced
  denotes : ∀ world, ¬ Excluded world -> (result.denote world = true <->
    ∃ edge ∈ edges, (condition edge.1).denote world = true /\ edge.2.denote world = true)
  met : ∀ world, ∀ var ∈ result.met world, ∃ edge ∈ edges,
    var ∈ (and (condition edge.1) edge.2).met world

lemma Collects.push {R : Type} {condition : R -> Tree sets} {edges : List (R × Tree sets)}
    {result : Tree sets} (collects : Collects condition edges result) {edge : R × Tree sets}
    (conditionReduced : (condition edge.1).Reduced) (reduced : edge.2.Reduced) :
    Collects condition (edges ++ [edge])
      (if edge.2.isFalse then result else or result (and (condition edge.1) edge.2)) := by
  have conjunction := and_isConjunction conditionReduced reduced
  have kept : ∀ {other}, other ∈ edges -> other ∈ edges ++ [edge] := mem_append_left _
  have last : edge ∈ edges ++ [edge] := mem_append_right _ mem_cons_self
  split
  next isFalse =>
    refine ⟨collects.reduced, fun world admitted => ?_, fun world var met => ?_⟩
    · rw [collects.denotes world admitted]
      constructor
      · rintro ⟨other, mem, holds⟩
        exact ⟨other, kept mem, holds⟩
      · rintro ⟨other, mem, holds, denotes⟩
        rcases mem_append.mp mem with mem | mem
        · exact ⟨other, mem, holds, denotes⟩
        · rw [mem_singleton.mp mem] at denotes
          exact absurd isFalse (not_isFalse_of_denote denotes)
    · rcases collects.met world var met with ⟨other, mem, met⟩
      exact ⟨other, kept mem, met⟩
  next =>
    refine ⟨or_reduced collects.reduced conjunction.reduced, fun world admitted => ?_,
      fun world var met => ?_⟩
    · rw [denote_or collects.reduced conjunction.reduced admitted, Bool.or_eq_true,
        collects.denotes world admitted, denote_and conditionReduced reduced admitted,
        Bool.and_eq_true]
      simp only [mem_append, mem_singleton, or_and_right, exists_or, exists_eq_left]
    · rcases or_met collects.reduced conjunction.reduced met with met | met
      · rcases collects.met world var met with ⟨other, mem, met⟩
        exact ⟨other, kept mem, met⟩
      · exact ⟨edge, last, met⟩

theorem rebuildRanges_collects {R : Type} {condition : R -> Tree sets} {edges : List (R × Tree sets)}
    (conditionReduced : ∀ range, (condition range).Reduced)
    (reduced : ∀ edge ∈ edges, edge.2.Reduced) :
    Collects condition edges (rebuildRanges condition edges) := by
  -- The loop extends what was collected from the edges before.
  have loop : ∀ rest done : List (R × Tree sets), ∀ result : Tree sets,
      Collects condition done result -> (∀ edge ∈ rest, edge.2.Reduced) ->
      Collects condition (done ++ rest) (rest.foldl (fun result edge =>
        if edge.2.isFalse then result else or result (and (condition edge.1) edge.2)) result) := by
    intro rest
    induction rest with
    | nil =>
      intro done result collects _
      rw [append_nil]
      exact collects
    | cons edge rest ih =>
      intro done result collects reduced
      rw [append_cons]
      exact ih _ _ (collects.push (conditionReduced _) (reduced edge mem_cons_self))
        fun other mem => reduced other (mem_cons_of_mem _ mem)
  refine loop edges [] (.leaf false) ⟨.leaf false, fun _ _ => ?_, ?_⟩ reduced
  · exact ⟨fun holds => absurd holds Bool.false_ne_true,
      fun ⟨_, mem, _⟩ => absurd mem not_mem_nil⟩
  · exact fun _ _ met => absurd met not_mem_nil

variable {children : Edges sets (Tree sets)} {var : Variable}

/-- Of disjoint ranges only the one that is read contributes. -/
lemma rebuildRanges_continues {R P : Type} {condition : R -> Tree sets}
    {edges : List (R × Tree sets)} (nodes : children.nodes = edges.map Prod.snd)
    (reduced : ∀ child ∈ children.nodes, child.Reduced)
    {mem : R -> P -> Bool} {coordinate : Point -> P}
    (decides : ∀ range, (condition range).Decides var fun point => mem range (coordinate point))
    (read : ∀ point, children.read point = tileAt mem edges (coordinate point))
    (unique : ∀ edge ∈ edges, ∀ point, mem edge.1 point ->
      tileAt mem edges point = some edge.2) :
    Continues var children (rebuildRanges condition edges) := by
  have listed : ∀ edge ∈ edges, edge.2 ∈ children.nodes :=
    fun edge listed => nodes ▸ mem_map_of_mem listed
  have collects := rebuildRanges_collects (fun range => (decides range).reduced)
    fun edge inside => reduced edge.2 (listed edge inside)
  refine ⟨collects.reduced, fun world child admitted found => ?_, fun world child found other met => ?_⟩
  · rw [read] at found
    rw [Bool.eq_iff_iff, collects.denotes world admitted]
    constructor
    · rintro ⟨edge, listed, holds, denotes⟩
      rw [(decides _).denotes] at holds
      rw [unique edge listed _ holds] at found
      rw [<- some.inj found, denotes]
    · intro denotes
      rcases mem_of_tileAt found with ⟨edge, listed, inside, rfl⟩
      exact ⟨edge, listed, ((decides _).denotes world).trans inside, denotes⟩
  · rcases collects.met world other met with ⟨edge, inside, met⟩
    refine ((decides _).met_and (reduced edge.2 (listed edge inside)) met).imp id ?_
    rintro ⟨met, holds | less⟩
    · rw [read, unique edge inside _ holds] at found
      exact .inl (some.inj found ▸ met)
    · exact .inr ⟨less, edge.2, listed edge inside, met⟩

lemma rebuildNode_continues (kind : children.kind = var.kind) (tiled : children.Tiled)
    (reduced : ∀ child ∈ children.nodes, child.Reduced) :
    Continues var children (rebuildNode var children) := by
  cases children with
  | version edges =>
    exact rebuildRanges_continues rfl reduced (versionNode_decides kind.symm) (fun _ => rfl)
      fun edge mem _ inside => tiled.tileAt_of_mem mem inside
  | string edges =>
    exact rebuildRanges_continues rfl reduced (stringNode_decides kind.symm) (fun _ => rfl)
      fun edge mem _ inside => tiled.tileAt_of_mem mem inside
  | boolean high low =>
    have decides := @booleanNode_decides sets var kind.symm true
    have highReduced := reduced high (by simp [nodes])
    have lowReduced := reduced low (by simp [nodes])
    refine ⟨choose_reduced decides.reduced highReduced lowReduced,
      fun world child admitted found => ?_, fun world child found other met => ?_⟩
    · rw [rebuildNode, denote_choose decides.reduced highReduced lowReduced admitted,
        decides.denotes, <- some.inj found]
      cases (world var).boolean <;> rfl
    · have selected : (if (world var).boolean then high else low) = child := some.inj found
      rcases choose_met decides.reduced highReduced lowReduced met with met | met
      · refine (decides.met_and highReduced met).imp id ?_
        rintro ⟨met, holds | less⟩
        · rw [if_pos (beq_iff_eq.mp holds)] at selected
          exact .inl (selected ▸ met)
        · exact .inr ⟨less, high, by simp [nodes], met⟩
      · refine (decides.not.met_and lowReduced met).imp id ?_
        rintro ⟨met, fails | less⟩
        · rw [Bool.not_eq_true', beq_eq_false_iff_ne] at fails
          rw [if_neg fails] at selected
          exact .inl (selected ▸ met)
        · exact .inr ⟨less, low, by simp [nodes], met⟩

/-! ## Resolving the extras -/

variable (known : ExtraName -> Option (MarkerTree sets))

/-- An extra that is not known is never active. -/
def activation (name : ExtraName) : MarkerTree sets := (known name).getD .FALSE

/-- Each child comes with its resolved form. -/
def resolveNode : Variable -> Edges sets (Tree sets × Tree sets) -> Tree sets
  | .extra name, .boolean high low =>
    let condition := (activation known name).tree
    if condition.isTrue then high.2
    else if condition.isFalse then low.2
    else choose condition high.2 low.2
  | var, children =>
    if children.nodes.any fun pair => !pair.2.beq pair.1 then
      rebuildNode var (children.map beq Prod.snd)
    else .node var (children.mapNodes Prod.fst)

/-- A tree together with its resolved form. -/
def resolvePair : Tree sets -> Tree sets × Tree sets :=
  fold (fun value => (.leaf value, .leaf value)) fun var children =>
    (.node var (children.mapNodes Prod.fst), resolveNode known var children)

def resolveExtras (tree : Tree sets) : Tree sets := (resolvePair known tree).2

lemma resolvePair_fst (tree : Tree sets) : (resolvePair known tree).1 = tree := by
  induction tree using induct with
  | leaf value => rfl
  | node var children ih =>
    rw [resolvePair, fold_node]
    change node var ((children.mapNodes (resolvePair known)).mapNodes Prod.fst) = _
    rw [mapNodes_mapNodes, mapNodes_congr ih]
    cases children <;> simp [mapNodes]

lemma resolveExtras_node (var : Variable) (children : Edges sets (Tree sets)) :
    resolveExtras known (.node var children) =
      resolveNode known var (children.mapNodes fun child => (child, resolveExtras known child)) := by
  rw [resolveExtras, resolvePair, fold_node]
  change resolveNode known var (children.mapNodes (resolvePair known)) = _
  congr 1
  exact mapNodes_congr fun child _ => Prod.ext (resolvePair_fst known child) rfl

/-- The assignment with the activations as the values of the extras. -/
def activated (world : Assignment) : Assignment
  | .extra name => .ofBool ((activation known name).denote world)
  | var => world var

/-- The tree holds where the original one does with the extras replaced. -/
structure Resolves (tree result : Tree sets) : Prop where
  reduced : result.Reduced
  denotes : ∀ world, ¬ Excluded world ->
    result.denote world = tree.denote (activated known world)
  met : ∀ world, ∀ var ∈ result.met world,
    (∃ world', AgreeOff Variable.isExtra world world' /\ var ∈ tree.met world') \/
      ∃ name, Variable.extra name ∈ tree.vars /\ var ∈ (activation known name).tree.met world

variable {known}

/-- What a resolved child meets is met by the node, if it is read or if an extra selects it, or
by an activation. -/
lemma Resolves.inherited {child result : Tree sets} {other : Variable} {world : Assignment}
    (resolves : Resolves known child result) (reduced : (Tree.node var children).Reduced)
    (mem : child ∈ children.nodes)
    (read : var.isExtra = false -> children.read (world var) = some child)
    (met : other ∈ result.met world) :
    (∃ world', AgreeOff Variable.isExtra world world' /\ other ∈ (Tree.node var children).met world') \/
      ∃ name, Variable.extra name ∈ (Tree.node var children).vars /\
        other ∈ (activation known name).tree.met world := by
  rcases resolves.met world other met with ⟨world', agree, met⟩ | ⟨name, tested, met⟩
  · cases isExtra : var.isExtra with
    | true =>
      rcases reduced.exists_update mem world' with ⟨point, _, included⟩
      exact .inl ⟨_, agree.update isExtra point, included met⟩
    | false =>
      exact .inl ⟨world', agree, (mem_met_node (agree var isExtra ▸ read isExtra) _).mpr (.inr met)⟩
  · exact .inr ⟨name, mem_vars_child mem tested, met⟩

/-- A node continues with resolved children. -/
lemma Resolves.of_continues {resolved : Edges sets (Tree sets)} {result : Tree sets}
    (reduced : (Tree.node var children).Reduced) (notExtra : var.isExtra = false)
    (continues : Continues var resolved result) (recursion : ∀ child ∈ children.nodes,
      Resolves known child (resolveExtras known child))
    (reads : ∀ point child, children.read point = some child -> ∃ child',
      resolved.read point = some child' /\ child'.Reduced /\
        child'.denote = (resolveExtras known child).denote)
    (origin : ∀ child' ∈ resolved.nodes, ∃ child ∈ children.nodes, ∀ world,
      child'.met world = (resolveExtras known child).met world) :
    Resolves known (.node var children) result := by
  refine ⟨continues.reduced, fun world admitted => ?_, fun world other met => ?_⟩
  · rcases reduced.exists_child world with ⟨child, found, mem⟩
    have same : activated known world var = world var := by
      cases var <;> first | rfl | cases notExtra
    rcases reads _ child found with ⟨child', found', _, denotes⟩
    rw [continues.denotes world child' admitted found', denotes, denote_node, same, found]
    exact (recursion child mem).denotes world admitted
  · rcases reduced.exists_child world with ⟨child, found, mem⟩
    rcases reads _ child found with ⟨child', found', childReduced, denotes⟩
    rcases continues.met world child' found' other met with rfl | met | ⟨less, early, earlyListed, met⟩
    · exact .inl ⟨world, fun _ _ => rfl, (mem_met_node found _).mpr (.inl rfl)⟩
    · rw [childReduced.met_eq (recursion child mem).reduced denotes] at met
      exact (recursion child mem).inherited reduced mem (fun _ => found) met
    · rcases origin early earlyListed with ⟨source, sourceListed, same⟩
      rw [same] at met
      -- Before the variable there are tests of activations only.
      rcases (recursion source sourceListed).met world other met with ⟨_, _, met⟩ | ⟨name, tested, met⟩
      · exact absurd (reduced.later sourceListed other (mem_vars_of_met met)) less.asymm
      · exact .inr ⟨name, mem_vars_child sourceListed tested, met⟩

/-- A node whose variable is not an extra: the node itself if no child has changed. -/
lemma Resolves.rebuilt (reduced : (Tree.node var children).Reduced)
    (notExtra : var.isExtra = false)
    (recursion : ∀ child ∈ children.nodes, Resolves known child (resolveExtras known child)) :
    let pairs := children.mapNodes fun child => (child, resolveExtras known child)
    Resolves known (.node var children)
      (if pairs.nodes.any fun pair => !pair.2.beq pair.1 then
        rebuildNode var (pairs.map beq Prod.snd)
      else .node var (pairs.mapNodes Prod.fst)) := by
  intro pairs
  have mem : ∀ pair ∈ pairs.nodes, ∃ child ∈ children.nodes,
      (child, resolveExtras known child) = pair := by
    intro pair mem
    rw [nodes_mapNodes] at mem
    exact mem_map.mp mem
  have read : ∀ point child, children.read point = some child ->
      pairs.read point = some (child, resolveExtras known child) := by
    intro point child found
    rw [read_mapNodes, found, map_some]
  split
  next =>
    have pairReduced : ∀ pair ∈ pairs.nodes, pair.2.Reduced := by
      intro pair pairListed
      rcases mem pair pairListed with ⟨child, childListed, rfl⟩
      exact (recursion child childListed).reduced
    rcases map_spec beq_agree pairReduced (tiled_mapNodes _ reduced.tiled) with
      ⟨mappedKind, mappedTiled, _, mappedReads, origin⟩
    have mappedReduced : ∀ child ∈ (pairs.map beq Prod.snd).nodes, child.Reduced := by
      intro child childListed
      rcases origin child childListed with ⟨pair, pairListed, rfl⟩
      exact pairReduced pair pairListed
    refine .of_continues reduced notExtra (rebuildNode_continues
      (mappedKind.trans ((kind_mapNodes _ _).trans reduced.kind)) mappedTiled mappedReduced)
      recursion (fun point child found => ?_) fun child' mem' => ?_
    · have denotes := mappedReads point
      rw [read point child found, map_some] at denotes
      rcases map_eq_some_iff.mp denotes with ⟨child', found', denotes⟩
      exact ⟨child', found', mappedReduced child' (mem_nodes_of_read found'), denotes⟩
    · rcases origin child' mem' with ⟨pair, pairListed, rfl⟩
      rcases mem pair pairListed with ⟨child, childListed, rfl⟩
      exact ⟨child, childListed, fun _ => rfl⟩
  next unchanged =>
    have original : pairs.mapNodes Prod.fst = children := by
      rw [mapNodes_mapNodes]
      cases children <;> simp [mapNodes]
    rw [original]
    have equal : ∀ child ∈ children.nodes, child.denote = (resolveExtras known child).denote := by
      intro child childListed
      refine (((recursion child childListed).reduced.beq_iff (reduced.child childListed)).mp ?_).symm
      by_contra differs
      refine unchanged (any_eq_true.mpr ⟨(child, resolveExtras known child), ?_, ?_⟩)
      · rw [nodes_mapNodes]
        exact mem_map_of_mem childListed
      · rw [Bool.eq_false_iff.mpr differs]
        rfl
    refine .of_continues reduced notExtra ⟨reduced, fun world child _ found => ?_, ?_⟩ recursion
      (fun point child found => ?_) fun child childListed => ⟨child, childListed, ?_⟩
    · rw [denote_node, found]
      rfl
    · exact fun world child found other met => ((mem_met_node found other).mp met).imp id .inl
    · have childListed := mem_nodes_of_read found
      exact ⟨child, found, reduced.child childListed, equal child childListed⟩
    · exact (reduced.child childListed).met_eq (recursion child childListed).reduced
        (equal child childListed)

/-- The test of an extra is replaced by its activation. -/
lemma Resolves.extra {name : ExtraName} {high low : Tree sets}
    (nodeReduced : (Tree.node (.extra name) (.boolean high low)).Reduced) (recursion : ∀ child, child ∈ [high, low] -> Resolves known child (resolveExtras known child)) :
    Resolves known (.node (.extra name) (.boolean high low))
      (resolveNode known (.extra name)
        (.boolean (high, resolveExtras known high) (low, resolveExtras known low))) := by
  have forHigh := recursion high (by simp)
  have forLow := recursion low (by simp)
  have reduced := (activation known name).reduced
  have denotes : ∀ world, (node (.extra name) (.boolean high low)).denote
      (activated known world) = if (activation known name).tree.denote world then
        high.denote (activated known world) else low.denote (activated known world) := by
    intro world
    rw [denote_node]
    change (((some (if (activation known name).tree.denote world then high else low)).map
      denote).map _).getD false = _
    cases (activation known name).tree.denote world <;> rfl
  have fromHigh := fun world var => @Resolves.inherited _ _ _ known _ _ var world forHigh nodeReduced
    mem_cons_self nofun
  have fromLow := fun world var => @Resolves.inherited _ _ _ known _ _ var world forLow nodeReduced
    (mem_cons_of_mem _ mem_cons_self) nofun
  simp only [resolveNode]
  split
  next isTrue =>
    refine ⟨forHigh.reduced, fun world admitted => ?_, fromHigh⟩
    rw [denotes, (isTrue_iff _).mp isTrue, forHigh.denotes world admitted]
    rfl
  split
  next isFalse =>
    refine ⟨forLow.reduced, fun world admitted => ?_, fromLow⟩
    rw [denotes, (isFalse_iff _).mp isFalse, forLow.denotes world admitted]
    rfl
  next =>
    refine ⟨choose_reduced reduced forHigh.reduced forLow.reduced,
      fun world admitted => ?_, fun world var met => ?_⟩
    · rw [denotes, denote_choose reduced forHigh.reduced forLow.reduced admitted,
        forHigh.denotes world admitted, forLow.denotes world admitted]
    · rcases choose_met reduced forHigh.reduced forLow.reduced met with met | met
      · rcases (and_isConjunction reduced forHigh.reduced).met world var met with ⟨met, _⟩ | ⟨met, _⟩
        · exact .inr ⟨name, mem_vars_self _ _, met⟩
        · exact fromHigh world var met
      · rcases (and_isConjunction reduced.not forLow.reduced).met world var met with
          ⟨met, _⟩ | ⟨met, _⟩
        · exact .inr ⟨name, mem_vars_self _ _, met_not _ reduced world ▸ met⟩
        · exact fromLow world var met

lemma resolveExtras_resolves {tree : Tree sets} (reduced : tree.Reduced) :
    Resolves known tree (resolveExtras known tree) := by
  induction tree using induct with
  | leaf value => exact ⟨.leaf value, fun _ _ => rfl, fun _ => forall_mem_nil _⟩
  | node var children ih =>
    have recursion := fun child mem => ih child mem (reduced.child mem)
    rw [resolveExtras_node]
    cases var with
    | extra name =>
      cases children with
      | boolean high low => exact .extra reduced recursion
      | version edges => cases reduced.kind
      | string edges => cases reduced.kind
    | _ => exact .rebuilt reduced rfl recursion

end Tree

namespace MarkerTree

def resolveExtras (known : ExtraName -> Option (MarkerTree sets)) (marker : MarkerTree sets) :
    MarkerTree sets :=
  ⟨marker.tree.resolveExtras known, (Tree.resolveExtras_resolves marker.reduced).reduced⟩

/-- What the variables are when the value of each extra is that of its marker. -/
def observeKnown (known : ExtraName -> Option (MarkerTree sets)) (env : MarkerEnvironment)
    (extras : ExtrasEnvironment) : Variable -> Option Point
  | .extra name => some (.ofBool ((known name).any fun image => image.tree.evaluate env extras))
  | var => observe env extras var

/-- The markers are substituted for the extras all at once, where the evaluation of the marker
with any extras, and that of the substituted markers, meets no test without a value. -/
theorem resolveExtras_correct (known : ExtraName -> Option (MarkerTree sets))
    (marker : MarkerTree sets) {env : MarkerEnvironment} {extras : ExtrasEnvironment}
    (admitted : ¬ env.Excluded) (settled : marker.tree.SettledForExtras env extras)
    (imagesSettled : ∀ name image, Variable.extra name ∈ marker.tree.vars ->
      known name = some image -> image.tree.Settled env extras) :
    (marker.resolveExtras known).tree.evaluate env extras =
      marker.tree.evaluateBy (observeKnown known env extras) := by
  have resolves := @resolveExtras_resolves _ known _ marker.reduced
  have admitted' : ¬ Excluded (valuation env extras) :=
    fun excluded => admitted ((excluded_valuation_iff env extras).mp excluded)
  have activationSettled : ∀ name, Variable.extra name ∈ marker.tree.vars ->
      (activation known name).tree.Settled env extras := by
    intro name tested
    rw [activation]
    cases found : known name with
    | none => exact forall_mem_nil _
    | some image => exact imagesSettled name image tested found
  have resolvedSettled : (marker.resolveExtras known).tree.Settled env extras := by
    intro var met
    rcases resolves.met _ var met with ⟨world, agree, met⟩ | ⟨name, tested, met⟩
    · exact settled world agree var met
    · exact activationSettled name tested var met
  have agree : AgreeOff Variable.isExtra (valuation env extras) (activated known (valuation env extras)) := by
    intro var kept
    cases var <;> first | rfl | cases kept
  rw [evaluate_eq_denote (reduced _) resolvedSettled]
  refine (resolves.denotes _ admitted').trans
    (evaluateBy_eq_denote marker.reduced fun var met => ?_).symm
  cases var with
  | extra name =>
    have agrees := evaluate_eq_denote (activation known name).reduced
      (activationSettled name (mem_vars_of_met met))
    rw [observeKnown, activated, denote, <- agrees, activation]
    cases known name <;> rfl
  | _ =>
    rcases isSome_iff_exists.mp (settled _ agree _ met) with ⟨point, seen⟩
    rw [observeKnown, activated, valuation, seen, getD_some]
    all_goals exact fun _ impossible => by cases impossible

section

/-- Each of the extras stands for the other one. -/
noncomputable def swapped (name : ExtraName) : Option (MarkerTree .cutSets) :=
  if name = "a" then some (extraMarker "b") else if name = "b" then some (extraMarker "a") else none

/-- Exchanging two extras does not replace one of them twice. -/
theorem resolveExtras_correct_swapped :
    (extraByRelease.resolveExtras swapped).tree.evaluate (darwinEnvironment "23.1.0") (.extras ["b"]) =
      extraByRelease.tree.evaluateBy
        (observeKnown swapped (darwinEnvironment "23.1.0") (.extras ["b"])) := by
  refine resolveExtras_correct swapped extraByRelease ?_ ?_ ?_
  · unfold MarkerEnvironment.Excluded
    decide +kernel
  · have decided : extraByRelease.tree.Decided (darwinEnvironment "23.1.0") (.extras ["b"]) := by
      unfold Tree.Decided
      decide +kernel
    exact fun _ _ var met => decided var (mem_vars_of_met met)
  · intro name image _ found var met
    have occurs := mem_vars_of_met met
    rw [swapped] at found
    split at found
    next =>
      cases some.inj found
      rw [(booleanNode_decides rfl true).vars var occurs]
      rfl
    split at found
    next =>
      cases some.inj found
      rw [(booleanNode_decides rfl true).vars var occurs]
      rfl
    next => cases found

/-- A release that is no version makes the marker false.  With both extras always active the
release is not tested. -/
theorem resolveExtras_undecided :
    extraByRelease.tree.evaluateBy (observeKnown (fun _ => some (.TRUE : MarkerTree .cutSets))
        (darwinEnvironment "custom") (.extras [])) = false /\
      (extraByRelease.resolveExtras fun _ => some .TRUE).tree.evaluate
        (darwinEnvironment "custom") (.extras []) = true := by
  refine ⟨?_, ?_⟩ <;> decide +kernel

end

end MarkerTree

end Uv.Marker
