import Uv.Marker.Exclusions

namespace Uv.Marker

open Pep440 Library List

/-!
# Assumptions about variables and projections

`restrictBy` assumes values of Boolean variables, which removes their tests.
`project` removes the tests of a set of variables by taking the disjunction over
their outcomes: the result holds where some values of the removed variables
satisfy the tree.
-/

/-- The variable tests whether an extra is active. -/
def Variable.isExtra : Variable -> Bool
  | .extra _ => true
  | _ => false

namespace Tree

variable {sets : IntervalSets}

/-! ## Assumed values -/

variable {children : Edges sets (Tree sets)} {var : Variable} {tree : Tree sets}

section

variable (assume : Variable -> Option Bool)

/-- Replace a test of a Boolean variable by the outcome that is assumed for it. -/
def restrictNode (var : Variable) (children : Edges sets (Tree sets)) : Tree sets :=
  match children, assume var with
  | .boolean high low, some value => if value then high else low
  | children, _ => createNode var (children.map beq id)

def restrictBy : Tree sets -> Tree sets :=
  fold .leaf (restrictNode assume)

/-- The assignment with the assumed values. -/
def assumed (world : Assignment) : Assignment := fun var =>
  match assume var with
  | some value => { world var with boolean := value }
  | none => world var

/-- A tree that holds where the original one does under the assumptions. -/
structure IsRestriction (tree result : Tree sets) : Prop where
  reduced : result.Reduced
  denotes : ∀ world, result.denote world = tree.denote (assumed assume world)
  met : ∀ world, ∀ var ∈ result.met world, var ∈ tree.met (assumed assume world)

variable {assume} in
lemma IsRestriction.vars {result : Tree sets} (restriction : IsRestriction assume tree result)
    (occurs : var ∈ result.vars) : var ∈ tree.vars := by
  rcases restriction.reduced.exists_met occurs with ⟨world, met⟩
  exact mem_vars_of_met (restriction.met world var met)

/-- Only a Boolean test sees an assumption. -/
lemma read_assumed (free : children.kind = .boolean -> assume var = none) (world : Assignment) :
    children.read (assumed assume world var) = children.read (world var) := by
  rw [assumed]
  cases known : assume var with
  | none => rfl
  | some value =>
    cases children with
    | version edges => rfl
    | string edges => rfl
    | boolean high low => exact absurd (free rfl) (known ▸ nofun)

lemma restrictNode_of_free (free : children.kind = .boolean -> assume var = none) :
    restrictNode assume var children = createNode var (children.map beq id) := by
  unfold restrictNode
  split
  next known => exact absurd (free rfl) (known ▸ nofun)
  · rfl

/-- The children are replaced, and the test stays. -/
lemma isRestriction_node
    (reduced : (node var children).Reduced) (free : children.kind = .boolean -> assume var = none)
    (restricted : ∀ child ∈ children.nodes,
      IsRestriction assume child (restrictBy assume child)) :
    IsRestriction assume (node var children)
      (createNode var ((children.mapNodes (restrictBy assume)).map beq id)) := by
  have each : ∀ {property : Tree sets -> Prop},
      (∀ child ∈ children.nodes, property (restrictBy assume child)) ->
      ∀ child ∈ (children.mapNodes (restrictBy assume)).nodes, property child := by
    intro property all child mem
    rw [Edges.nodes_mapNodes] at mem
    rcases mem_map.mp mem with ⟨child', mem', rfl⟩
    exact all child' mem'
  have replaced : Replaces var (children.mapNodes (restrictBy assume)) id
      (createNode var ((children.mapNodes (restrictBy assume)).map beq id)) := by
    refine createNode_map ((Edges.kind_mapNodes _ _).trans reduced.kind)
      (Edges.tiled_mapNodes _ reduced.tiled) (each fun child mem => (restricted child mem).reduced)
      (each fun child mem other occurs => ?_)
    exact reduced.later mem other ((restricted child mem).vars occurs)
  have reads : ∀ world, ∃ child ∈ children.nodes,
      children.read (assumed assume world var) = some child /\
      (children.mapNodes (restrictBy assume)).read (world var) = some (restrictBy assume child) := by
    intro world
    rcases reduced.exists_child world with ⟨child, found, mem⟩
    refine ⟨child, mem, (read_assumed assume free world).trans found, ?_⟩
    rw [Edges.read_mapNodes, found]
    rfl
  refine ⟨replaced.reduced, fun world => ?_, fun world other met => ?_⟩
  · rcases reads world with ⟨child, mem, found, found'⟩
    rw [replaced.denotes world _ found', denote_node, found]
    exact (restricted child mem).denotes world
  · rcases reads world with ⟨child, mem, found, found'⟩
    rw [mem_met_node found]
    exact (replaced.met world _ found' other met).imp id ((restricted child mem).met world other)

lemma restrictBy_isRestriction (reduced : tree.Reduced) :
    IsRestriction assume tree (restrictBy assume tree) := by
  induction tree using induct with
  | leaf value => exact ⟨.leaf value, fun _ => rfl, fun _ => forall_mem_nil _⟩
  | node var children ih =>
    have restricted := fun child mem => ih child mem (reduced.child mem)
    rw [restrictBy, fold_node]
    change IsRestriction assume _ (restrictNode assume var (children.mapNodes (restrictBy assume)))
    by_cases free : children.kind = .boolean -> assume var = none
    · rw [restrictNode_of_free assume ((Edges.kind_mapNodes _ _).symm ▸ free)]
      exact isRestriction_node assume reduced free restricted
    · cases children with
      | version edges => exact absurd nofun free
      | string edges => exact absurd nofun free
      | boolean high low =>
        rcases Option.ne_none_iff_exists'.mp fun none => free fun _ => none with ⟨value, known⟩
        -- The test is replaced by the child that the assumption selects.
        have mem : (if value then high else low) ∈ (Edges.boolean high low : Edges sets _).nodes := by
          cases value <;> simp [Edges.nodes]
        have outcome : restrictNode assume var
            ((Edges.boolean high low : Edges sets _).mapNodes (restrictBy assume)) =
            restrictBy assume (if value then high else low) := by
          simp only [Edges.mapNodes, restrictNode, known]
          cases value <;> rfl
        rw [outcome]
        have spec := restricted _ mem
        have found : ∀ world, (Edges.boolean high low : Edges sets _).read (assumed assume world var) =
            some (if value then high else low) := by
          intro world
          simp only [assumed, known, Edges.read]
        refine ⟨spec.reduced, fun world => ?_, fun world other met => ?_⟩
        · rw [spec.denotes, denote_node, found]
          rfl
        · exact (mem_met_node (found world) other).mpr (.inr (spec.met world other met))

end

/-! ## Disjunction of a list -/

def disjoinAll (trees : List (Tree sets)) : Tree sets :=
  trees.foldl or (.leaf false)

/-- The disjunction of a list, up to excluded assignments. -/
structure IsUnion (trees : List (Tree sets)) (result : Tree sets) : Prop where
  reduced : result.Reduced
  complete : ∀ tree ∈ trees, ∀ world, tree.denote world = true ->
    result.denote world = true
  sound : ∀ world, ¬ Excluded world -> result.denote world = true ->
    ∃ tree ∈ trees, tree.denote world = true
  met : ∀ world, ∀ var ∈ result.met world, ∃ tree ∈ trees, var ∈ tree.met world

section

variable {x y : Tree sets} (reduced : x.Reduced) (reduced' : y.Reduced)

include reduced reduced'

lemma or_met {world : Assignment} (met : var ∈ (or x y).met world) :
    var ∈ x.met world \/ var ∈ y.met world := by
  have conjunction := and_isConjunction reduced.not reduced'.not
  rw [or, met_not _ conjunction.reduced] at met
  have either := conjunction.met world var met
  rw [met_not x reduced, met_not y reduced'] at either
  exact either.imp And.left And.left

lemma or_vars (occurs : var ∈ (or x y).vars) : var ∈ x.vars \/ var ∈ y.vars := by
  rcases (or_reduced reduced reduced').exists_met occurs with ⟨world, met⟩
  exact (or_met reduced reduced' met).imp mem_vars_of_met mem_vars_of_met

end

variable {trees : List (Tree sets)}

lemma IsUnion.vars {union : Tree sets} (isUnion : IsUnion trees union) (occurs : var ∈ union.vars) :
    ∃ tree ∈ trees, var ∈ tree.vars := by
  rcases isUnion.reduced.exists_met occurs with ⟨world, met⟩
  rcases isUnion.met world var met with ⟨tree, mem, met⟩
  exact ⟨tree, mem, mem_vars_of_met met⟩

/-- A union of trees without platform tests is exact: they do not see the values that would
have to change for an assignment to be admitted. -/
lemma IsUnion.exact {union : Tree sets} (isUnion : IsUnion trees union)
    (harmless : ∀ tree ∈ trees, ∀ var ∈ tree.vars, var.isConflictingVariable = false)
    {world : Assignment} (holds : union.denote world) : ∃ tree ∈ trees, tree.denote world := by
  rcases exists_admitted world with ⟨world', admitted, agree⟩
  have same : union.denote world' = union.denote world := by
    refine eval_congr fun var occurs => agree var ?_
    rcases isUnion.vars occurs with ⟨tree, mem, occurs⟩
    exact harmless tree mem var occurs
  rcases isUnion.sound world' admitted (same.trans holds) with ⟨tree, mem, holds⟩
  refine ⟨tree, mem, Eq.trans ?_ holds⟩
  exact eval_congr fun var occurs => (agree var (harmless tree mem var occurs)).symm

lemma IsUnion.or {union : Tree sets} (isUnion : IsUnion trees union)
    (reduced : tree.Reduced) : IsUnion (trees ++ [tree]) (or union tree) where
  reduced := or_reduced isUnion.reduced reduced
  complete other mem world holds := by
    refine denote_or_of_denote isUnion.reduced reduced ?_
    rcases mem_append.mp mem with mem | mem
    · exact .inl (isUnion.complete other mem world holds)
    · rw [mem_singleton.mp mem] at holds
      exact .inr holds
  sound world admitted holds := by
    rw [denote_or isUnion.reduced reduced admitted, Bool.or_eq_true] at holds
    rcases holds with holds | holds
    · rcases isUnion.sound world admitted holds with ⟨other, mem, holds⟩
      exact ⟨other, mem_append_left _ mem, holds⟩
    · exact ⟨tree, mem_append_right _ (mem_singleton.mpr rfl), holds⟩
  met world var met := by
    rcases or_met isUnion.reduced reduced met with met | met
    · rcases isUnion.met world var met with ⟨other, mem, met⟩
      exact ⟨other, mem_append_left _ mem, met⟩
    · exact ⟨tree, mem_append_right _ (mem_singleton.mpr rfl), met⟩

lemma disjoinAll_isUnion
    (reduced : ∀ tree ∈ trees, tree.Reduced) : IsUnion trees (disjoinAll trees) := by
  have loop : ∀ rest done : List (Tree sets), ∀ union : Tree sets, IsUnion done union ->
      (∀ tree ∈ rest, tree.Reduced) -> IsUnion (done ++ rest) (rest.foldl Tree.or union) := by
    intro rest
    induction rest with
    | nil =>
      intro done union isUnion _
      rw [append_nil]
      exact isUnion
    | cons tree rest ih =>
      intro done union isUnion reduced
      rw [append_cons]
      exact ih _ _ (isUnion.or (reduced tree mem_cons_self))
        (forall_mem_cons.mp reduced).2
  refine loop trees [] (.leaf false) ⟨.leaf false, nofun, ?_, fun _ _ met => ?_⟩ reduced
  · exact fun _ _ holds => by cases holds
  · cases met

/-! ## Projection -/

section

variable (drop : Variable -> Bool)

/-- Remove the tests of the dropped variables.  The fuel bounds the number of variables. -/
def projectWithin : Nat -> Tree sets -> Tree sets
  | 0, tree => tree
  | _ + 1, .leaf value => .leaf value
  | fuel + 1, .node var children =>
    if drop var then
      let merged := disjoinAll children.nodes
      if merged.isTrue then .leaf true else projectWithin fuel merged
    else createNode var (children.map beq (projectWithin fuel))

def project (tree : Tree sets) : Tree sets :=
  projectWithin drop (tree.vars.length + 1) tree

/-- The assignments agree on the variables that are kept. -/
def AgreeOff (world world' : Assignment) : Prop :=
  ∀ var, drop var = false -> world var = world' var

variable (sets) in
/-- Where trees after a dropped variable are joined, the disjunction holds only if one of them
does for some values of the dropped variables.  Excluded values of platforms may stand in
the way. -/
def Merges (world : Assignment) : Prop :=
  ∀ var, drop var = true -> ∀ trees : List (Tree sets), (∀ tree ∈ trees, tree.Reduced /\ tree.After var) ->
    ∀ world', AgreeOff drop world world' -> (disjoinAll trees).denote world' = true ->
      ∃ tree ∈ trees, ∃ world', AgreeOff drop world world' /\ tree.denote world' = true

/-- A tree that holds where some values of the dropped variables satisfy the original one. -/
structure IsProjection (tree result : Tree sets) : Prop where
  reduced : result.Reduced
  complete : ∀ world world', AgreeOff drop world world' ->
    tree.denote world' = true -> result.denote world = true
  sound : ∀ world, Merges sets drop world -> result.denote world = true ->
    ∃ world', AgreeOff drop world world' /\ tree.denote world' = true
  met : ∀ world, ∀ var ∈ result.met world, drop var = false /\
    ∃ world', AgreeOff drop world world' /\ var ∈ tree.met world'

variable {drop} in
lemma IsProjection.vars {result : Tree sets} (projection : IsProjection drop tree result)
    (occurs : var ∈ result.vars) : var ∈ tree.vars /\ drop var = false := by
  rcases projection.reduced.exists_met occurs with ⟨world, met⟩
  rcases projection.met world var met with ⟨kept, _, _, met⟩
  exact ⟨mem_vars_of_met met, kept⟩

/-- Excluded values do not depend on variables that occur in no incompatible pair. -/
lemma excluded_of_agreeOff (harmless : ∀ var, drop var -> var.isConflictingVariable = false)
    {world world' : Assignment} (agree : AgreeOff drop world world')
    (excluded : Excluded world') : Excluded world := by
  have platform : ∀ pair ∈ incompatiblePairs,
      pair.1.1.isConflicting /\ pair.2.1.isConflicting := by decide
  have same : ∀ value : PlatformValue, value.1.isConflicting ->
      hasValue world value = hasValue world' value := by
    intro value conflicting
    have kept : drop (.string value.1) = false :=
      Bool.eq_false_iff.mpr fun dropped => Bool.false_ne_true ((harmless _ dropped).symm.trans conflicting)
    rw [hasValue, hasValue, agree _ kept]
  rcases excluded with ⟨pair, mem, first, second⟩
  refine ⟨pair, mem, ?_, ?_⟩
  · rw [same pair.1 (platform pair mem).1]
    exact first
  · rw [same pair.2 (platform pair mem).2]
    exact second

variable {drop} in
lemma AgreeOff.update {world world' : Assignment} (agree : AgreeOff drop world world')
    (dropped : drop var) (point : Point) : AgreeOff drop world (Function.update world' var point) := by
  intro other kept
  have different : other ≠ var := by
    rintro rfl
    exact Bool.false_ne_true (kept.symm.trans dropped)
  rw [Function.update_of_ne different]
  exact agree other kept

/-- Platform variables are tested first, so none is left below a dropped variable. -/
lemma merges_of_harmless (harmless : ∀ var, drop var -> var.isConflictingVariable = false)
    (world : Assignment) : Merges sets drop world := by
  intro var dropped trees all middle agree holds
  have later : ∀ tree ∈ trees, ∀ other ∈ tree.vars, other.isConflictingVariable = false := by
    refine fun tree mem other occurs => Bool.eq_false_iff.mpr fun conflicting => ?_
    exact Bool.false_ne_true ((harmless var dropped).symm.trans
      (Variable.isConflictingVariable_of_le ((all tree mem).2 other occurs).le conflicting))
  have union := disjoinAll_isUnion fun tree mem => (all tree mem).1
  rcases union.exact later holds with ⟨tree, mem, holds⟩
  exact ⟨tree, mem, middle, agree, holds⟩

section

variable {var : Variable} {children : Edges sets (Tree sets)}
  (reduced : (Tree.node var children).Reduced)

include reduced

/-- The variable of the node is dropped: the outcomes are joined first. -/
lemma IsProjection.of_merged {result : Tree sets} (dropped : drop var)
    (projected : IsProjection drop (disjoinAll children.nodes) result) :
    IsProjection drop (Tree.node var children) result := by
  have union := disjoinAll_isUnion fun child (mem : child ∈ children.nodes) => reduced.child mem
  refine ⟨projected.reduced, ?_, ?_, ?_⟩
  · intro world world' agree holds
    rcases reduced.exists_child world' with ⟨child, found, mem⟩
    rw [denote_node, found] at holds
    exact projected.complete world world' agree (union.complete child mem world' holds)
  · intro world merges holds
    rcases projected.sound world merges holds with ⟨middle, agree, holds⟩
    rcases merges var dropped _ (fun child mem => ⟨reduced.child mem, reduced.later mem⟩) middle agree
      holds with ⟨child, mem, other, agree, holds⟩
    rcases reduced.exists_update mem other with ⟨point, eval, _⟩
    exact ⟨_, agree.update dropped point, eval.symm.trans holds⟩
  · intro world other met
    rcases projected.met world other met with ⟨kept, middle, agree, met⟩
    rcases union.met middle other met with ⟨child, mem, met⟩
    rcases reduced.exists_update mem middle with ⟨point, _, included⟩
    exact ⟨kept, _, agree.update dropped point, included met⟩

/-- The variable of the node is kept: its children are projected. -/
lemma IsProjection.of_children {replace : Tree sets -> Tree sets}
    (projected : ∀ child ∈ children.nodes, IsProjection drop child (replace child))
    (kept : drop var = false) :
    IsProjection drop (Tree.node var children) (createNode var (children.map beq replace)) := by
  have replaced : Replaces var children replace (createNode var (children.map beq replace)) := by
    refine createNode_map reduced.kind reduced.tiled (fun child mem => (projected child mem).reduced) ?_
    exact fun child mem other occurs =>
      reduced.later mem other ((projected child mem).vars occurs).1
  refine ⟨replaced.reduced, ?_, ?_, ?_⟩
  · intro world world' agree holds
    rcases reduced.exists_child world with ⟨child, found, mem⟩
    rw [denote_node, <- agree var kept, found] at holds
    rw [replaced.denotes world child found]
    exact (projected child mem).complete world world' agree holds
  · intro world merges holds
    rcases reduced.exists_child world with ⟨child, found, mem⟩
    rw [replaced.denotes world child found] at holds
    rcases (projected child mem).sound world merges holds with ⟨world', agree, holds⟩
    refine ⟨world', agree, ?_⟩
    rw [denote_node, <- agree var kept, found]
    exact holds
  · intro world other met
    rcases reduced.exists_child world with ⟨child, found, mem⟩
    rcases replaced.met world child found other met with rfl | met
    · exact ⟨kept, world, fun _ _ => rfl, (mem_met_node found _).mpr (.inl rfl)⟩
    · rcases (projected child mem).met world other met with ⟨keptToo, world', agree, met⟩
      exact ⟨keptToo, world', agree, (mem_met_node (agree var kept ▸ found) _).mpr (.inr met)⟩

end

lemma isProjection_leaf (value : Bool) : IsProjection drop (.leaf value : Tree sets) (.leaf value) where
  reduced := .leaf value
  complete _ _ _ holds := holds
  sound world _ holds := ⟨world, fun _ _ => rfl, holds⟩
  met _ _ met := by cases met

/-- Below a node there is a variable less. -/
lemma exists_bound {bound : Finset Variable}
    {fuel : Nat} (reduced : (Tree.node var children).Reduced)
    (within : ∀ other ∈ (Tree.node var children).vars, other ∈ bound)
    (small : bound.card < fuel + 1) :
    ∃ smaller : Finset Variable, smaller.card < fuel /\
      ∀ child ∈ children.nodes, ∀ other ∈ child.vars, other ∈ smaller := by
  have inBound := within var (mem_vars_self _ _)
  refine ⟨bound.erase var, ?_, ?_⟩
  · rw [Finset.card_erase_of_mem inBound]
    have positive := Finset.card_pos.mpr ⟨var, inBound⟩
    omega
  · intro child mem other occurs
    refine Finset.mem_erase.mpr ⟨(reduced.later mem other occurs).ne', ?_⟩
    exact within other (mem_vars_child mem occurs)

/-- Each call has a variable less than the one before. -/
lemma projectWithin_isProjection {fuel : Nat} : ∀ {tree : Tree sets} {bound : Finset Variable},
    tree.Reduced -> (∀ var ∈ tree.vars, var ∈ bound) -> bound.card < fuel ->
    IsProjection drop tree (projectWithin drop fuel tree) := by
  induction fuel with
  | zero => exact fun _ _ small => by cases small
  | succ fuel ih =>
    intro tree bound reduced within small
    cases tree with
    | leaf value => exact isProjection_leaf drop value
    | node var children =>
      rcases exists_bound reduced within small with ⟨smallerBound, smaller, childWithin⟩
      rw [projectWithin]
      split
      next dropped =>
        have union := disjoinAll_isUnion fun child (mem : child ∈ children.nodes) =>
          reduced.child mem
        refine IsProjection.of_merged drop reduced dropped ?_
        dsimp only
        split
        next isTrue =>
          rw [(isTrue_iff _).mp isTrue]
          exact isProjection_leaf drop true
        · refine ih union.reduced (fun other occurs => ?_) smaller
          rcases union.vars occurs with ⟨child, mem, occurs⟩
          exact childWithin child mem other occurs
      next kept =>
        refine IsProjection.of_children drop reduced ?_ (Bool.eq_false_iff.mpr kept)
        exact fun child mem => ih (reduced.child mem) (childWithin child mem) smaller

lemma project_isProjection (reduced : tree.Reduced) :
    IsProjection drop tree (project drop tree) := by
  refine @projectWithin_isProjection _ drop _ tree tree.vars.toFinset reduced ?_ ?_
  · exact fun var occurs => mem_toFinset.mpr occurs
  · exact Nat.lt_succ_of_le tree.vars.toFinset_card_le

end

/-- Only the tests that are not of `extra` remain. -/
def withoutExtras : Tree sets -> Tree sets := project Variable.isExtra

/-- Only the tests of `extra` remain. -/
def onlyExtras : Tree sets -> Tree sets := project fun var => !var.isExtra

end Tree

end Uv.Marker
