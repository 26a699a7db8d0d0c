import Uv.Marker.Edges

namespace Uv.Marker

open Pep440 Library Edges List Option Function

/-!
# Marker trees as decision diagrams

A marker tree is a decision diagram: a constant, or a node that tests a variable
and has a tree for each outcome.  Trees are reduced, which makes them canonical:
two of them are equal exactly when they denote the same function of the variables.
The interner of the source shares equal nodes and stores a complement with each
reference; here a tree is the unfolding of such a reference.
-/

inductive Tree (sets : IntervalSets) where
  | leaf (value : Bool)
  | node (var : Variable) (children : Edges sets (Tree sets))

/-- A value for every variable. -/
abbrev Assignment := Variable -> Point

namespace Tree

variable {sets : IntervalSets} {α : Type}

instance : Inhabited (Tree sets) := ⟨.leaf false⟩

/-! ## Recursion and induction -/

section

variable (onLeaf : Bool -> α) (onNode : Variable -> Edges sets α -> α)

mutual

/-- Replace the constants and the nodes of a tree, from the bottom up. -/
def fold : Tree sets -> α
  | .leaf value => onLeaf value
  | .node var children => onNode var (foldEdges children)

def foldEdges : Edges sets (Tree sets) -> Edges sets α
  | .version edges => .version (foldVersions edges)
  | .string edges => .string (foldStrings edges)
  | .boolean high low => .boolean (fold high) (fold low)

def foldVersions : List (sets.versions.Ranges × Tree sets) -> List (sets.versions.Ranges × α)
  | [] => []
  | (range, child) :: edges => (range, fold child) :: foldVersions edges

def foldStrings : List (sets.strings.Ranges × Tree sets) -> List (sets.strings.Ranges × α)
  | [] => []
  | (range, child) :: edges => (range, fold child) :: foldStrings edges

end

lemma fold_node (var : Variable) (children : Edges sets (Tree sets)) :
    fold onLeaf onNode (.node var children) =
      onNode var (children.mapNodes (fold onLeaf onNode)) := by
  have versions : ∀ edges, foldVersions onLeaf onNode edges =
      edges.map fun edge => (edge.1, fold onLeaf onNode edge.2) := by
    intro edges
    induction edges with
    | nil => rfl
    | cons edge edges ih => exact congrArg (cons _) ih
  have strings : ∀ edges, foldStrings onLeaf onNode edges =
      edges.map fun edge => (edge.1, fold onLeaf onNode edge.2) := by
    intro edges
    induction edges with
    | nil => rfl
    | cons edge edges ih => exact congrArg (cons _) ih
  rw [fold]
  congr 1
  cases children with
  | version edges => exact congrArg version (versions edges)
  | string edges => exact congrArg string (strings edges)
  | boolean high low => rfl

end

/-- Induction over trees, with a hypothesis for each child. -/
@[elab_as_elim]
lemma induct {motive : Tree sets -> Prop} (leaf : ∀ value, motive (.leaf value))
    (node : ∀ var children, (∀ child ∈ children.nodes, motive child) ->
      motive (.node var children)) (tree : Tree sets) : motive tree := by
  refine @Tree.rec sets motive
    (fun edges => ∀ child ∈ edges.nodes, motive child)
    (fun edges => ∀ edge ∈ edges, motive edge.2)
    (fun edges => ∀ edge ∈ edges, motive edge.2)
    (fun edge => motive edge.2) (fun edge => motive edge.2)
    leaf node ?_ ?_ ?_ ?_ ?_ ?_ ?_ (fun _ _ ih => ih) (fun _ _ ih => ih) tree
  · intro edges ih child mem
    rcases mem_map.mp mem with ⟨edge, edgeListed, rfl⟩
    exact ih edge edgeListed
  · intro edges ih child mem
    rcases mem_map.mp mem with ⟨edge, edgeListed, rfl⟩
    exact ih edge edgeListed
  · intro high low ihHigh ihLow child mem
    rcases mem_cons.mp mem with rfl | mem
    · exact ihHigh
    · exact mem_singleton.mp mem ▸ ihLow
  · exact forall_mem_nil _
  · intro head tail ihHead ihTail edge mem
    rcases mem_cons.mp mem with rfl | mem
    · exact ihHead
    · exact ihTail edge mem
  · exact forall_mem_nil _
  · intro head tail ihHead ihTail edge mem
    rcases mem_cons.mp mem with rfl | mem
    · exact ihHead
    · exact ihTail edge mem

/-! ## Functions on trees -/

def size : Tree sets -> Nat :=
  fold (fun _ => 0) fun _ children => children.nodes.sum + 1

def eval (world : Assignment) : Tree sets -> Bool :=
  fold id fun var children => (children.read (world var)).getD false

/-- The function of the variables that the tree stands for. -/
def denote (tree : Tree sets) (world : Assignment) : Bool := tree.eval world

/-- The tests on the path that the assignment selects. -/
def met (world : Assignment) : Tree sets -> List Variable :=
  fold (fun _ => []) fun var children => var :: (children.read (world var)).getD []

def vars : Tree sets -> List Variable :=
  fold (fun _ => []) fun var children => var :: children.nodes.flatten

def top : Tree sets -> Option Variable
  | .leaf _ => none
  | .node var _ => some var

def not : Tree sets -> Tree sets :=
  fold (fun value => .leaf !value) .node

def beq : Tree sets -> Tree sets -> Bool :=
  fold
    (fun value other =>
      match other with
      | .leaf value' => value == value'
      | .node _ _ => false)
    fun var children other =>
      match other with
      | .leaf _ => false
      | .node var' children' => var == var' && children.beq (fun equals child => equals child) children'

def isTrue : Tree sets -> Bool
  | .leaf value => value
  | .node _ _ => false

def isFalse : Tree sets -> Bool
  | .leaf value => !value
  | .node _ _ => false

section

variable (var : Variable) (children : Edges sets (Tree sets))

lemma size_lt_of_mem {child : Tree sets} (mem : child ∈ children.nodes) :
    child.size < (node var children).size := by
  have equation : (node var children).size = (children.nodes.map size).sum + 1 := by
    rw [size, fold_node, nodes_mapNodes]
  rw [equation]
  exact Nat.lt_succ_of_le (single_le_sum (fun _ _ => Nat.zero_le _) _
    (mem_map_of_mem mem))

lemma eval_node (world : Assignment) :
    (node var children).eval world =
      ((children.read (world var)).map (eval world)).getD false := by
  rw [eval, fold_node, read_mapNodes]

/-- A node denotes what the child at the value of its variable denotes. -/
lemma denote_node (world : Assignment) :
    (node var children).denote world =
      (((children.read (world var)).map denote).map (· world)).getD false := by
  rw [Option.map_map]
  exact eval_node var children world

lemma mem_vars_node (other : Variable) :
    other ∈ (node var children).vars <->
      other = var \/ ∃ child ∈ children.nodes, other ∈ child.vars := by
  rw [vars, fold_node, List.mem_cons, nodes_mapNodes, List.mem_flatten]
  simp only [List.mem_map, exists_exists_and_eq_and]

lemma mem_vars_self : var ∈ (node var children).vars := (mem_vars_node _ _ _).mpr (.inl rfl)

variable {var children} in
lemma mem_vars_child {child : Tree sets} {other : Variable} (mem : child ∈ children.nodes)
    (occurs : other ∈ child.vars) : other ∈ (node var children).vars :=
  (mem_vars_node _ _ _).mpr (.inr ⟨child, mem, occurs⟩)

variable {var children} in
lemma mem_met_node {world : Assignment} {child : Tree sets}
    (found : children.read (world var) = some child) (other : Variable) :
    other ∈ (node var children).met world <-> other = var \/ other ∈ child.met world := by
  rw [met, fold_node, read_mapNodes, found]
  exact List.mem_cons

lemma not_node : (node var children).not = .node var (children.mapNodes not) :=
  fold_node _ _ var children

lemma beq_node (var' : Variable) (children' : Edges sets (Tree sets)) :
    (node var children).beq (.node var' children') = (var == var' && children.beq beq children') := by
  rw [beq, fold_node]
  change (var == var' && (children.mapNodes beq).beq (fun equals child => equals child) children') = _
  rw [beq_mapNodes]
  rfl

lemma beq_node_leaf (value : Bool) : (node var children).beq (.leaf value) = false := by
  rw [beq, fold_node]

end

variable {tree : Tree sets}

section

variable {onLeaf : Bool -> α} {onNode : Variable -> Option α -> α}

/-- What is read along the path of an assignment depends on the values of the variables only. -/
lemma fold_congr {world world' : Assignment} (agree : ∀ var ∈ tree.vars, world var = world' var) :
    tree.fold onLeaf (fun var children => onNode var (children.read (world var))) =
      tree.fold onLeaf fun var children => onNode var (children.read (world' var)) := by
  induction tree using induct with
  | leaf value => rfl
  | node var children ih =>
    rw [fold_node, fold_node, read_mapNodes, read_mapNodes, <- agree var (mem_vars_self _ _)]
    cases found : children.read (world var) with
    | none => rfl
    | some child =>
      have mem := mem_nodes_of_read found
      rw [map_some, map_some, ih child mem fun var' occurs => agree var' (mem_vars_child mem occurs)]

/-- Trees that are the same read the same along every path. -/
lemma fold_of_beq (world : Assignment) : ∀ {tree' : Tree sets}, tree.beq tree' ->
    tree.fold onLeaf (fun var children => onNode var (children.read (world var))) =
      tree'.fold onLeaf fun var children => onNode var (children.read (world var)) := by
  induction tree using induct with
  | leaf value =>
    intro tree' equal
    cases tree' with
    | leaf value' => rw [beq_iff_eq.mp (show (value == value') from equal)]
    | node var' children' => cases equal
  | node var children ih =>
    intro tree' equal
    cases tree' with
    | leaf value' => rw [beq_node_leaf] at equal; cases equal
    | node var' children' =>
      rw [beq_node, Bool.and_eq_true, beq_iff_eq] at equal
      rcases equal with ⟨rfl, equal⟩
      have reads := (reads_of_beq (fun child mem child' _ => ih child mem) equal).2 (world var)
      rw [fold_node, fold_node, read_mapNodes, read_mapNodes, reads]

end

/-- Only the variables of a tree matter to it. -/
lemma eval_congr {world world' : Assignment} (agree : ∀ var ∈ tree.vars, world var = world' var) :
    tree.eval world = tree.eval world' :=
  @fold_congr _ _ _ id (fun _ child => child.getD false) _ _ agree

lemma met_congr {world world' : Assignment} (agree : ∀ var ∈ tree.vars, world var = world' var) :
    tree.met world = tree.met world' :=
  @fold_congr _ _ _ (fun _ => []) (fun var child => var :: child.getD []) _ _ agree

lemma mem_vars_of_met {world : Assignment} {other : Variable} (met : other ∈ tree.met world) :
    other ∈ tree.vars := by
  induction tree using induct with
  | leaf value => cases met
  | node var children ih =>
    cases found : children.read (world var) with
    | none =>
      rw [Tree.met, fold_node, read_mapNodes, found] at met
      rw [mem_singleton.mp met]
      exact mem_vars_self _ _
    | some child =>
      have mem := mem_nodes_of_read found
      rcases (mem_met_node found other).mp met with rfl | met
      · exact mem_vars_self _ _
      · exact mem_vars_child mem (ih child mem met)

/-! ## Reduced trees -/

/-- The variable comes before every test of the tree. -/
def After (var : Variable) (tree : Tree sets) : Prop :=
  ∀ other ∈ tree.vars, var < other

/-- The tests come in the order of their variables, every node has edges of the
kind of its variable that tile its values, neighbouring ranges have different
children, and not all children are the same. -/
inductive Reduced : Tree sets -> Prop
  | leaf (value : Bool) : Reduced (.leaf value)
  | node {var : Variable} {children : Edges sets (Tree sets)}
      (kind : children.kind = var.kind) (tiled : children.Tiled)
      (distinct : children.Distinct denote)
      (later : ∀ child ∈ children.nodes, child.After var)
      (reduced : ∀ child ∈ children.nodes, child.Reduced)
      (differ : ∃ child ∈ children.nodes, ∃ child' ∈ children.nodes, child.denote ≠ child'.denote) :
      Reduced (.node var children)

lemma after_leaf (var : Variable) (value : Bool) : (leaf value : Tree sets).After var :=
  forall_mem_nil _

variable {var : Variable} {children : Edges sets (Tree sets)}

/-- A tree does not look at a variable before its tests. -/
lemma After.eval_update (after : tree.After var) (world : Assignment) (point : Point) :
    tree.eval (Function.update world var point) = tree.eval world := by
  refine eval_congr fun other occurs => ?_
  exact update_of_ne (after other occurs).ne' _ _

lemma After.met_update (after : tree.After var) (world : Assignment) (point : Point) :
    tree.met (Function.update world var point) = tree.met world := by
  refine met_congr fun other occurs => ?_
  exact update_of_ne (after other occurs).ne' _ _

section

variable (reduced : (Tree.node var children).Reduced)

include reduced

lemma Reduced.child {child : Tree sets} (mem : child ∈ children.nodes) : child.Reduced := by
  cases reduced with
  | node _ _ _ _ reduced => exact reduced child mem

variable {child : Tree sets}

lemma Reduced.kind : children.kind = var.kind := by
  cases reduced with
  | node kind => exact kind

lemma Reduced.tiled : children.Tiled := by
  cases reduced with
  | node _ tiled => exact tiled

lemma Reduced.distinct : children.Distinct denote := by
  cases reduced with
  | node _ _ distinct => exact distinct

lemma Reduced.later (mem : child ∈ children.nodes) : child.After var := by
  cases reduced with
  | node _ _ _ later => exact later child mem

lemma Reduced.exists_child (world : Assignment) :
    ∃ child, children.read (world var) = some child /\ child ∈ children.nodes := by
  rcases read_isSome reduced.tiled (world var) with ⟨child, found⟩
  exact ⟨child, found, mem_nodes_of_read found⟩

lemma Reduced.after_of_lt {var' : Variable} (less : var' < var) :
    (Tree.node var children).After var' := by
  intro other occurs
  rcases (mem_vars_node _ _ _).mp occurs with rfl | ⟨child, mem, occurs⟩
  · exact less
  · exact less.trans (reduced.later mem other occurs)

/-- The child at a point denotes the node with its variable fixed. -/
lemma Reduced.eval_child {point : Point} (found : children.read point = some child)
    (world : Assignment) :
    child.eval world = (Tree.node var children).eval (update world var point) := by
  rw [eval_node, update_self, found, map_some, getD_some]
  exact ((reduced.later (mem_nodes_of_read found)).eval_update world point).symm

/-- What a child meets, the node meets with its variable fixed. -/
lemma Reduced.exists_update (mem : child ∈ children.nodes) (world : Assignment) : ∃ point,
    child.eval world = (Tree.node var children).eval (update world var point) /\
      child.met world ⊆ (Tree.node var children).met (update world var point) := by
  rcases exists_read reduced.tiled mem (world var) with ⟨point, found⟩
  refine ⟨point, reduced.eval_child found world, fun other met => ?_⟩
  rw [mem_met_node ((congrArg _ (update_self var point world)).trans found),
    (reduced.later mem).met_update]
  exact .inr met

/-- A node that denotes the same as a tree of later tests has only one child. -/
lemma denote_ne_of_after (after : tree.After var) : (node var children).denote ≠ tree.denote := by
  intro same
  have children_same : ∀ child ∈ children.nodes, child.denote = tree.denote := by
    intro child mem
    funext world
    rcases reduced.exists_update mem world with ⟨point, atUpdate, _⟩
    exact atUpdate.trans ((congrFun same _).trans (after.eval_update world point))
  cases reduced with
  | node _ _ _ _ _ differ =>
    rcases differ with ⟨child, mem, child', mem', different⟩
    exact different ((children_same child mem).trans (children_same child' mem').symm)

end

lemma denote_leaf (value : Bool) : (leaf value : Tree sets).denote = fun _ => value := rfl

lemma denote_of_beq {tree' : Tree sets} (equal : tree.beq tree') : tree.denote = tree'.denote :=
  funext fun world => @fold_of_beq _ _ _ id (fun _ child => child.getD false) world _ equal

/-- Reduced trees are canonical. -/
lemma Reduced.beq_iff : ∀ {tree' : Tree sets}, tree.Reduced ->
    tree'.Reduced -> (tree.beq tree' <-> tree.denote = tree'.denote) := by
  induction tree using induct with
  | leaf value =>
    intro tree' _ reduced'
    refine ⟨denote_of_beq, fun same => ?_⟩
    cases tree' with
    | leaf value' =>
      exact beq_iff_eq.mpr (congrFun same default)
    | node var' children' =>
      exact absurd same.symm (denote_ne_of_after reduced' (after_leaf var' value))
  | node var children ih =>
    intro tree' reduced reduced'
    refine ⟨denote_of_beq, fun same => ?_⟩
    cases tree' with
    | leaf value' => exact absurd same (denote_ne_of_after reduced (after_leaf var value'))
    | node var' children' =>
      rcases lt_trichotomy var var' with less | rfl | less
      · exact absurd same (denote_ne_of_after reduced (reduced'.after_of_lt less))
      · rw [beq_node, Bool.and_eq_true]
        refine ⟨beq_self_eq_true var, beq_of_reads ?_ (reduced.kind.trans reduced'.kind.symm)
          reduced.tiled reduced'.tiled reduced.distinct reduced'.distinct ?_⟩
        · exact fun child mem child' mem' =>
            (ih child mem (reduced.child mem) (reduced'.child mem')).mpr
        · intro point child child' found found'
          funext world
          exact (reduced.eval_child found world).trans
            ((congrFun same _).trans (reduced'.eval_child found' world).symm)
      · exact absurd same.symm (denote_ne_of_after reduced' (reduced.after_of_lt less))

/-- Reduced trees that denote the same make the same tests. -/
lemma Reduced.met_eq {tree' : Tree sets} (reduced : tree.Reduced) (reduced' : tree'.Reduced)
    (same : tree.denote = tree'.denote) (world : Assignment) : tree.met world = tree'.met world :=
  @fold_of_beq _ _ _ (fun _ => []) (fun var child => var :: child.getD []) world _
    ((reduced.beq_iff reduced').mpr same)

/-- Every test of a reduced tree is met on some path. -/
lemma Reduced.exists_met (reduced : tree.Reduced) {other : Variable}
    (occurs : other ∈ tree.vars) : ∃ world, other ∈ tree.met world := by
  induction tree using induct with
  | leaf value => cases occurs
  | node var children ih =>
    rcases (mem_vars_node _ _ _).mp occurs with rfl | ⟨child, mem, occurs⟩
    · rcases reduced.exists_child default with ⟨child, found, _⟩
      exact ⟨default, (mem_met_node found _).mpr (.inl rfl)⟩
    · rcases ih child mem (reduced.child mem) occurs with ⟨world, met⟩
      rcases reduced.exists_update mem world with ⟨point, _, included⟩
      exact ⟨_, included met⟩

/-! ## Negation -/

lemma denote_not (tree : Tree sets) (reduced : tree.Reduced) (world : Assignment) :
    tree.not.denote world = !tree.denote world := by
  induction tree using induct with
  | leaf value => rfl
  | node var children ih =>
    rcases reduced.exists_child world with ⟨child, found, mem⟩
    rw [not_node, denote_node, denote_node, read_mapNodes, found]
    exact ih child mem (reduced.child mem)

lemma met_not (tree : Tree sets) (reduced : tree.Reduced) (world : Assignment) :
    tree.not.met world = tree.met world := by
  induction tree using induct with
  | leaf value => rfl
  | node var children ih =>
    rcases reduced.exists_child world with ⟨child, found, mem⟩
    rw [not_node, met, fold_node, fold_node, read_mapNodes, read_mapNodes, read_mapNodes, found]
    exact congrArg (var :: ·) (ih child mem (reduced.child mem))

lemma vars_not (tree : Tree sets) : tree.not.vars = tree.vars := by
  induction tree using induct with
  | leaf value => rfl
  | node var children ih =>
    rw [not_node, vars, fold_node, fold_node, mapNodes_mapNodes]
    congr 3
    exact mapNodes_congr ih

lemma Reduced.not (reduced : tree.Reduced) : tree.not.Reduced := by
  induction tree using induct with
  | leaf value => exact .leaf _
  | node var children ih =>
    cases reduced with
    | node kind tiled distinct later reduced differ =>
      have inverse : ∀ child ∈ children.nodes, ∀ child' ∈ children.nodes,
          child.not.denote = child'.not.denote -> child.denote = child'.denote := by
        intro child mem child' mem' same
        funext world
        have flipped := congrFun same world
        rw [denote_not child (reduced child mem), denote_not child' (reduced child' mem')]
          at flipped
        exact Bool.not_inj flipped
      have member : ∀ child ∈ (children.mapNodes Tree.not).nodes,
          ∃ child' ∈ children.nodes, child'.not = child := by
        intro child mem
        rw [nodes_mapNodes] at mem
        exact mem_map.mp mem
      rw [not_node]
      refine .node ((kind_mapNodes _ _).trans kind) (tiled_mapNodes _ tiled)
        (distinct_mapNodes inverse distinct) ?_ ?_ ?_
      · intro child mem
        rcases member child mem with ⟨child', mem', rfl⟩
        rw [After, vars_not]
        exact later child' mem'
      · intro child mem
        rcases member child mem with ⟨child', mem', rfl⟩
        exact ih child' mem' (reduced child' mem')
      · rcases differ with ⟨child, mem, child', mem', different⟩
        rw [nodes_mapNodes]
        exact ⟨_, mem_map_of_mem mem, _, mem_map_of_mem mem',
          fun same => different (inverse child mem child' mem' same)⟩

/-! ## New nodes -/

/-- A node for the variable, unless all its children are the same. -/
def createNode (var : Variable) (children : Edges sets (Tree sets)) : Tree sets :=
  match children.nodes with
  | [] => .node var children
  | first :: _ =>
    if children.nodes.all fun node => node.beq first then first else .node var children

lemma createNode_vars {other : Variable} (occurs : other ∈ (createNode var children).vars) :
    other = var \/ ∃ child ∈ children.nodes, other ∈ child.vars := by
  rw [createNode] at occurs
  split at occurs
  · exact (mem_vars_node _ _ _).mp occurs
  next first rest shape =>
    split at occurs
    · exact .inr ⟨first, by simp [shape], occurs⟩
    · exact (mem_vars_node _ _ _).mp occurs

section

variable {var : Variable} {children : Edges sets (Tree sets)} (tiled : children.Tiled)
  (reduced : ∀ child ∈ children.nodes, child.Reduced)

include tiled reduced

lemma denote_createNode (world : Assignment) :
    (createNode var children).denote world =
      (((children.read (world var)).map denote).map (· world)).getD false := by
  rw [createNode]
  split
  · exact denote_node var children world
  next first rest shape =>
    split
    next alike =>
      rcases read_isSome tiled (world var) with ⟨child, found⟩
      have mem := mem_nodes_of_read found
      have same := ((reduced child mem).beq_iff (reduced first (by simp [shape]))).mp
        (all_eq_true.mp alike child mem)
      rw [found, map_some, same]
      rfl
    · exact denote_node var children world

omit tiled in
lemma mem_met_createNode {world : Assignment} {child : Tree sets} {other : Variable}
    (found : children.read (world var) = some child) (met : other ∈ (createNode var children).met world) :
    other = var \/ other ∈ child.met world := by
  rw [createNode] at met
  split at met
  · exact (mem_met_node found other).mp met
  next first rest shape =>
    split at met
    next alike =>
      have mem := mem_nodes_of_read found
      have same := denote_of_beq (all_eq_true.mp alike child mem)
      rw [(reduced child mem).met_eq (reduced first (by simp [shape])) same]
      exact .inr met
    · exact (mem_met_node found other).mp met

lemma createNode_reduced (kind : children.kind = var.kind) (distinct : children.Distinct denote)
    (later : ∀ child ∈ children.nodes, child.After var) :
    (createNode var children).Reduced := by
  rcases read_isSome tiled default with ⟨child, found⟩
  have mem := mem_nodes_of_read found
  rw [createNode]
  split
  next shape => exact absurd mem (by simp [shape])
  next first rest shape =>
    have firstListed : first ∈ children.nodes := by simp [shape]
    split
    · exact reduced first firstListed
    next different =>
      refine .node kind tiled distinct later reduced ?_
      simp only [List.all_eq_true, not_forall] at different
      rcases different with ⟨child', mem', different⟩
      exact ⟨child', mem', first, firstListed, fun same =>
        different (((reduced child' mem').beq_iff (reduced first firstListed)).mpr same)⟩

end

/-! ## Trees that see only part of an assignment -/

/-- No test of the tree tells a point from its image. -/
inductive Respects (image : Variable -> Point -> Point) : Tree sets -> Prop
  | leaf (value : Bool) : Respects image (.leaf value)
  | node {var : Variable} {children : Edges sets (Tree sets)}
      (respects : children.Respects (image var))
      (all : ∀ child ∈ children.nodes, child.Respects image) :
      Respects image (.node var children)

variable {image : Variable -> Point -> Point}

lemma Respects.eval_image (respects : tree.Respects image) (world : Assignment) :
    tree.eval (fun var => image var (world var)) = tree.eval world := by
  induction tree using induct with
  | leaf value => rfl
  | node var children ih =>
    cases respects with
    | node respects all =>
      rw [eval_node, eval_node, read_image respects]
      cases found : children.read (world var) with
      | none => rfl
      | some child =>
        have mem := mem_nodes_of_read found
        exact ih child mem (all child mem)

lemma Respects.not (respects : tree.Respects image) : tree.not.Respects image := by
  induction tree using induct with
  | leaf value => exact .leaf _
  | node var children ih =>
    cases respects with
    | node respects all =>
      rw [not_node]
      refine .node (respects_mapNodes _ respects) fun child mem => ?_
      rw [nodes_mapNodes] at mem
      rcases mem_map.mp mem with ⟨child', mem', rfl⟩
      exact ih child' mem' (all child' mem')

lemma Respects.createNode (respects : children.Respects (image var))
    (all : ∀ child ∈ children.nodes, child.Respects image) :
    (createNode var children).Respects image := by
  rw [Tree.createNode]
  split
  · exact .node respects all
  next first rest shape =>
    split
    · exact all first (by simp [shape])
    · exact .node respects all

end Tree

end Uv.Marker
