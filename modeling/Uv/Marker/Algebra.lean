import Uv.Marker.Decision

namespace Uv.Marker

open Pep440 Library Edges Option

/-!
# Conjunction and disjunction of marker trees

Two trees are combined by expanding the earlier of their first variables.  Some
values of platform variables are known never to occur together; a conjunction that
holds only for such values is replaced by `false`.  So a conjunction may be
stronger than both of its operands together, but only where values are excluded:
this is `IsConjunction`.
-/

variable {var : Variable}

namespace Tree

variable {sets : IntervalSets}

/-! ## Nodes with new children -/

section

variable {var : Variable} {children : Edges sets (Tree sets)}

/-- A node whose children are replaced one by one. -/
structure Replaces (var : Variable) (children : Edges sets (Tree sets))
    (replace : Tree sets -> Tree sets) (tree : Tree sets) : Prop where
  reduced : tree.Reduced
  denotes : ∀ world child, children.read (world var) = some child ->
    tree.denote world = (replace child).denote world
  met : ∀ world child, children.read (world var) = some child ->
    ∀ other ∈ tree.met world, other = var \/ other ∈ (replace child).met world
  respects : ∀ image : Variable -> Point -> Point, children.Respects (image var) ->
    (∀ child ∈ children.nodes, (replace child).Respects image) -> tree.Respects image

/-- A node whose children are the combinations of the children of two nodes. -/
structure Combines (var : Variable) (children children' : Edges sets (Tree sets))
    (combine : Tree sets -> Tree sets -> Tree sets) (tree : Tree sets) : Prop where
  reduced : tree.Reduced
  denotes : ∀ world child child', children.read (world var) = some child ->
    children'.read (world var) = some child' ->
    tree.denote world = (combine child child').denote world
  met : ∀ world child child', children.read (world var) = some child ->
    children'.read (world var) = some child' ->
    ∀ other ∈ tree.met world, other = var \/ other ∈ (combine child child').met world
  respects : ∀ image : Variable -> Point -> Point, children.Respects (image var) ->
    children'.Respects (image var) ->
    (∀ child ∈ children.nodes, ∀ child' ∈ children'.nodes,
      (combine child child').Respects image) -> tree.Respects image

lemma beq_agree (tree tree' : Tree sets) (reduced : tree.Reduced) (reduced' : tree'.Reduced) :
    tree.beq tree' <-> tree.denote = tree'.denote :=
  reduced.beq_iff reduced'

/-- A new node meets what the children meet that it reads, or trees that denote the same. -/
lemma mem_met_createNode_of_denote {world : Assignment} {child : Tree sets} {other : Variable}
    (reduced : ∀ child ∈ children.nodes, child.Reduced)
    (childReduced : child.Reduced) (reads : (children.read (world var)).map denote = some child.denote)
    (met : other ∈ (createNode var children).met world) : other = var \/ other ∈ child.met world := by
  rcases map_eq_some_iff.mp reads with ⟨found, read, same⟩
  rw [<- (reduced found (mem_nodes_of_read read)).met_eq childReduced same]
  exact mem_met_createNode reduced read met

lemma createNode_map {replace : Tree sets -> Tree sets} (kind : children.kind = var.kind)
    (tiled : children.Tiled)
    (reduced : ∀ child ∈ children.nodes, (replace child).Reduced)
    (later : ∀ child ∈ children.nodes, (replace child).After var) :
    Replaces var children replace (createNode var (children.map beq replace)) := by
  rcases map_spec beq_agree reduced tiled with ⟨sameKind, newTiled, distinct, reads, origin⟩
  have each : ∀ {property : Tree sets -> Prop}, (∀ child ∈ children.nodes, property (replace child)) ->
      ∀ child ∈ (children.map beq replace).nodes, property child := by
    intro property all child mem
    rcases origin child mem with ⟨child', mem', rfl⟩
    exact all child' mem'
  have newReduced := each reduced
  refine ⟨createNode_reduced newTiled newReduced (sameKind.trans kind) distinct (each later),
    ?_, ?_, fun image respects all => .createNode (respects_map respects) (each all)⟩
  · intro world child found
    rw [denote_createNode newTiled newReduced, reads, found]
    rfl
  · intro world child found other met
    refine mem_met_createNode_of_denote newReduced (reduced child (mem_nodes_of_read found)) ?_ met
    rw [reads, found]
    rfl

lemma createNode_apply {children' : Edges sets (Tree sets)}
    {combine : Tree sets -> Tree sets -> Tree sets} (kind : children.kind = var.kind)
    (kind' : children'.kind = var.kind) (tiled : children.Tiled) (tiled' : children'.Tiled)
    (reduced : ∀ child ∈ children.nodes, ∀ child' ∈ children'.nodes,
      (combine child child').Reduced)
    (later : ∀ child ∈ children.nodes, ∀ child' ∈ children'.nodes,
      (combine child child').After var) :
    Combines var children children' combine (createNode var (children.apply beq combine children')) := by
  rcases apply_spec beq_agree (kind.trans kind'.symm) reduced tiled tiled' with
    ⟨sameKind, newTiled, distinct, reads, origin⟩
  have each : ∀ {property : Tree sets -> Prop}, (∀ child ∈ children.nodes,
      ∀ child' ∈ children'.nodes, property (combine child child')) ->
      ∀ child ∈ (children.apply beq combine children').nodes, property child := by
    intro property all child mem
    rcases origin child mem with ⟨first, firstListed, second, secondListed, rfl⟩
    exact all first firstListed second secondListed
  have newReduced := each reduced
  refine ⟨createNode_reduced newTiled newReduced (sameKind.trans kind) distinct (each later),
    ?_, ?_, fun image respects respects' all =>
      .createNode (respects_apply (kind.trans kind'.symm) respects respects') (each all)⟩
  · intro world child child' found found'
    rw [denote_createNode newTiled newReduced, reads _ _ _ found found']
    rfl
  · intro world child child' found found' other met
    exact mem_met_createNode_of_denote newReduced (reduced child (mem_nodes_of_read found)
      child' (mem_nodes_of_read found')) (reads _ _ _ found found') met

end

/-! ## Conjunction -/

/-- The conjunction, if it can be determined without looking at the nodes. -/
def andTrivial (x y : Tree sets) : Option (Tree sets) :=
  if x.isTrue then some y
  else if y.isTrue then some x
  else if x.beq y then some x
  else if x.isFalse || y.isFalse then some (.leaf false)
  else if x.not.beq y then some (.leaf false)
  else none

/-- Expand the earlier variable of two nodes.  Constants do not arise here. -/
def expand (recurse : Tree sets -> Tree sets -> Tree sets) : Tree sets -> Tree sets -> Tree sets
  | .node var children, .node var' children' =>
    match compare var var' with
    | .lt => createNode var (children.map beq fun node => recurse node (.node var' children'))
    | .gt => createNode var' (children'.map beq fun node => recurse node (.node var children))
    | .eq => createNode var (children.apply beq recurse children')
  | _, _ => .leaf false

/-- The path has not ended in `false` before the test of the variable. -/
def Open (world : Assignment) (other : Variable) (tree : Tree sets) : Prop :=
  tree.denote world = true \/ ∃ var ∈ tree.met world, other ≤ var

/-- A conjunction up to the assignments that are excluded.  A test is met in one operand
while the path of the other one is open. -/
structure IsConjunction (excluded : Assignment -> Prop) (x y z : Tree sets) : Prop where
  reduced : z.Reduced
  sound : ∀ world, z.denote world = true ->
    x.denote world = true /\ y.denote world = true
  complete : ∀ world, x.denote world = true -> y.denote world = true ->
    ¬ excluded world -> z.denote world = true
  met : ∀ world, ∀ other ∈ z.met world,
    other ∈ x.met world /\ y.Open world other \/ other ∈ y.met world /\ x.Open world other
  respects : ∀ image : Variable -> Point -> Point, x.Respects image -> y.Respects image ->
    z.Respects image

lemma isTrue_iff (tree : Tree sets) : tree.isTrue <-> tree = .leaf true := by
  cases tree with
  | leaf value => cases value <;> simp [isTrue]
  | node var children => simp [isTrue]

lemma isFalse_iff (tree : Tree sets) : tree.isFalse <-> tree = .leaf false := by
  cases tree with
  | leaf value => cases value <;> simp [isFalse]
  | node var children => simp [isFalse]

lemma not_isFalse_of_denote {tree : Tree sets} {world : Assignment}
    (holds : tree.denote world) : ¬ tree.isFalse := by
  intro isFalse
  rw [(isFalse_iff tree).mp isFalse] at holds
  exact Bool.false_ne_true holds

namespace IsConjunction

variable {excluded : Assignment -> Prop} {x y z : Tree sets}

lemma symm (conjunction : IsConjunction excluded x y z) : IsConjunction excluded y x z where
  reduced := conjunction.reduced
  sound world holds := (conjunction.sound world holds).symm
  complete world first second := conjunction.complete world second first
  met world other met := (conjunction.met world other met).symm
  respects image first second := conjunction.respects image second first

/-- The constant `false` is the conjunction of trees that hold together only where
assignments are excluded. -/
lemma of_excluded (impossible : ∀ world, x.denote world ->
    y.denote world -> excluded world) :
    IsConjunction excluded x y (.leaf false) where
  reduced := .leaf false
  sound _ holds := by cases holds
  complete world first second admitted := absurd (impossible world first second) admitted
  met _ _ met := by cases met
  respects _ _ _ := .leaf false

lemma left (reduced : x.Reduced) (implies : ∀ world, x.denote world -> y.denote world)
    (isOpen : ∀ world, ∀ other ∈ x.met world, y.Open world other) : IsConjunction excluded x y x where
  reduced := reduced
  sound world holds := ⟨holds, implies world holds⟩
  complete _ first _ _ := first
  met world other met := .inl ⟨met, isOpen world other met⟩
  respects _ first _ := first

lemma vars (conjunction : IsConjunction excluded x y z) {other : Variable} (occurs : other ∈ z.vars) :
    other ∈ x.vars \/ other ∈ y.vars := by
  rcases conjunction.reduced.exists_met occurs with ⟨world, met⟩
  rcases conjunction.met world other met with ⟨met, _⟩ | ⟨met, _⟩
  · exact .inl (mem_vars_of_met met)
  · exact .inr (mem_vars_of_met met)

end IsConjunction

section

variable {excluded : Assignment -> Prop} {x y z : Tree sets} (reduced : x.Reduced)
  (reduced' : y.Reduced)

include reduced reduced'

lemma andTrivial_isConjunction (found : andTrivial x y = some z) :
    IsConjunction excluded x y z := by
  rw [andTrivial] at found
  split at found
  next isTrue =>
    rw [(isTrue_iff x).mp isTrue, <- some.inj found]
    exact (IsConjunction.left reduced' (fun _ _ => rfl) fun _ _ _ => .inl rfl).symm
  split at found
  next isTrue =>
    rw [(isTrue_iff y).mp isTrue, <- some.inj found]
    exact IsConjunction.left reduced (fun _ _ => rfl) fun _ _ _ => .inl rfl
  split at found
  next same =>
    have denotes := (reduced.beq_iff reduced').mp same
    rw [<- some.inj found]
    refine IsConjunction.left reduced (fun world holds => congrFun denotes world ▸ holds) ?_
    exact fun world other met => .inr ⟨other, reduced.met_eq reduced' denotes world ▸ met, le_rfl⟩
  split at found
  next isFalse =>
    rw [<- some.inj found]
    refine IsConjunction.of_excluded fun world first second => ?_
    rcases Bool.or_eq_true _ _ ▸ isFalse with isFalse | isFalse
    · exact absurd isFalse (not_isFalse_of_denote first)
    · exact absurd isFalse (not_isFalse_of_denote second)
  split at found
  next opposite =>
    have denotes := (reduced.not.beq_iff reduced').mp opposite
    rw [<- some.inj found]
    refine IsConjunction.of_excluded fun world first second => ?_
    rw [<- denotes, denote_not x reduced, first] at second
    cases second
  · exact absurd found (some_ne_none _).symm

end

/-! ### Cofactors -/

/-- What is left of a tree once the variable is tested: a child of a node of the variable, or
the whole of a tree that begins later. -/
structure Cofactor (var : Variable) (world : Assignment) (tree rest : Tree sets) : Prop where
  reduced : rest.Reduced
  eval : ∀ other, rest.denote other = tree.denote (Function.update other var (world var))
  met : rest.met world ⊆ tree.met world

namespace Cofactor

variable {var : Variable} {world : Assignment} {tree rest : Tree sets}

lemma self (reduced : tree.Reduced) (after : tree.After var) : Cofactor var world tree tree :=
  ⟨reduced, fun other => (after.eval_update other _).symm, fun _ => id⟩

lemma child {children : Edges sets (Tree sets)} (reduced : (node var children).Reduced)
    (found : children.read (world var) = some rest) : Cofactor var world (node var children) rest :=
  ⟨reduced.child (mem_nodes_of_read found), reduced.eval_child found,
    fun _ met => (mem_met_node found _).mpr (.inr met)⟩

variable (cofactor : Cofactor var world tree rest)

include cofactor

lemma denotes : rest.denote world = tree.denote world := by
  rw [cofactor.eval, Function.update_eq_self]

lemma isOpen {other : Variable} (isOpen : rest.Open world other) : tree.Open world other := by
  rcases isOpen with holds | ⟨tested, met, le⟩
  · exact .inl (cofactor.denotes ▸ holds)
  · exact .inr ⟨tested, cofactor.met met, le⟩

end Cofactor

lemma Reduced.le_of_mem {var other : Variable} {children : Edges sets (Tree sets)}
    (reduced : (Tree.node var children).Reduced) (occurs : other ∈ (Tree.node var children).vars) :
    var <= other := by
  rcases (mem_vars_node _ _ _).mp occurs with rfl | ⟨child, mem, occurs⟩
  · exact le_rfl
  · exact (reduced.later mem other occurs).le

/-- A node for the first variable of two trees.  Where it is evaluated it is a recursive call
for their cofactors, in either order. -/
structure Expands (excluded : Assignment -> Prop) (recurse : Tree sets -> Tree sets -> Tree sets)
    (x y : Tree sets) (first : Variable) (z : Tree sets) : Prop where
  reduced : z.Reduced
  least : ∀ var, var ∈ x.vars \/ var ∈ y.vars -> first <= var
  tested : ∀ world,
    first ∈ x.met world /\ y.Open world first \/ first ∈ y.met world /\ x.Open world first
  respects : ∀ image : Variable -> Point -> Point, x.Respects image -> y.Respects image ->
    z.Respects image
  follows : ∀ world, ∃ x' y' z', Cofactor first world x x' /\ Cofactor first world y y' /\
    x'.size + y'.size < x.size + y.size /\ (z' = recurse x' y' \/ z' = recurse y' x') /\
    IsConjunction excluded x' y' z' /\ z.denote world = z'.denote world /\
    ∀ other ∈ z.met world, other = first \/ other ∈ z'.met world

namespace Expands

variable {excluded : Assignment -> Prop} {recurse : Tree sets -> Tree sets -> Tree sets}
  {x y z : Tree sets} {first : Variable} (expands : Expands excluded recurse x y first z)

include expands

lemma symm : Expands excluded recurse y x first z := by
  refine ⟨expands.reduced, fun var occurs => expands.least var occurs.symm,
    fun world => (expands.tested world).symm,
    fun image respects respects' => expands.respects image respects' respects, fun world => ?_⟩
  rcases expands.follows world with ⟨x', y', z', left, right, smaller, call, conjunction, same⟩
  exact ⟨y', x', z', right, left, by omega, call.symm, conjunction.symm, same⟩

lemma isConjunction : IsConjunction excluded x y z := by
  refine ⟨expands.reduced, fun world holds => ?_, fun world first second admitted => ?_,
    fun world other met => ?_, expands.respects⟩
  all_goals rcases expands.follows world with
    ⟨x', y', z', left, right, _, _, conjunction, denotes, mets⟩
  · rw [<- left.denotes, <- right.denotes]
    exact conjunction.sound world (denotes ▸ holds)
  · rw [denotes]
    exact conjunction.complete world (left.denotes.trans first) (right.denotes.trans second) admitted
  · rcases mets other met with rfl | met
    · exact expands.tested world
    · rcases conjunction.met world other met with ⟨met, isOpen⟩ | ⟨met, isOpen⟩
      · exact .inl ⟨left.met met, right.isOpen isOpen⟩
      · exact .inr ⟨right.met met, left.isOpen isOpen⟩

end Expands

section

variable {excluded : Assignment -> Prop} {var : Variable} {children children' : Edges sets (Tree sets)}
  {y : Tree sets} {recurse : Tree sets -> Tree sets -> Tree sets}
  (reduced : (node var children).Reduced)

include reduced

lemma Open.of_le {other : Variable} (le : other ≤ var) (world : Assignment) :
    (node var children).Open world other := by
  rcases reduced.exists_child world with ⟨child, found, _⟩
  exact .inr ⟨var, (mem_met_node found _).mpr (.inl rfl), le⟩

lemma mem_met_first (world : Assignment) : var ∈ (node var children).met world := by
  rcases reduced.exists_child world with ⟨child, found, _⟩
  exact (mem_met_node found _).mpr (.inl rfl)

/-- One side of the expansion: the first variable of `y` is later. -/
lemma expands_left (reduced' : y.Reduced) (after : y.After var) (isOpen : ∀ world, y.Open world var)
    (recursion : ∀ child ∈ children.nodes, IsConjunction excluded child y (recurse child y)) :
    Expands excluded recurse (node var children) y var
      (createNode var (children.map beq fun child => recurse child y)) := by
  have replaced : Replaces var children (fun child => recurse child y)
      (createNode var (children.map beq fun child => recurse child y)) := by
    refine createNode_map reduced.kind reduced.tiled (fun child mem => (recursion child mem).reduced)
      fun child mem other occurs => ?_
    exact ((recursion child mem).vars occurs).elim (reduced.later mem other) (after other)
  refine ⟨replaced.reduced, fun other occurs => ?_,
    fun world => .inl ⟨mem_met_first reduced world, isOpen world⟩, ?_, fun world => ?_⟩
  · exact occurs.elim reduced.le_of_mem fun occurs => (after other occurs).le
  · rintro image (_ | ⟨respects, all⟩) respects'
    exact replaced.respects image respects fun child mem =>
      (recursion child mem).respects image (all child mem) respects'
  · rcases reduced.exists_child world with ⟨child, found, mem⟩
    have size := size_lt_of_mem var _ mem
    exact ⟨child, y, _, .child reduced found, .self reduced' after, by omega, .inl rfl,
      recursion child mem, replaced.denotes world child found, replaced.met world child found⟩

/-- Both nodes test the same variable. -/
lemma expands_same (reduced' : (node var children').Reduced)
    (recursion : ∀ child ∈ children.nodes, ∀ child' ∈ children'.nodes,
      IsConjunction excluded child child' (recurse child child')) :
    Expands excluded recurse (node var children) (node var children') var
      (createNode var (children.apply beq recurse children')) := by
  have combined : Combines var children children' recurse
      (createNode var (children.apply beq recurse children')) := by
    refine createNode_apply reduced.kind reduced'.kind reduced.tiled reduced'.tiled
      (fun child mem child' mem' => (recursion child mem child' mem').reduced)
      fun child mem child' mem' other occurs => ?_
    exact ((recursion child mem child' mem').vars occurs).elim (reduced.later mem other)
      (reduced'.later mem' other)
  refine ⟨combined.reduced, fun other occurs => occurs.elim reduced.le_of_mem reduced'.le_of_mem,
    fun world => .inl ⟨mem_met_first reduced world, .of_le reduced' le_rfl world⟩, ?_, fun world => ?_⟩
  · rintro image (_ | ⟨respects, all⟩) (_ | ⟨respects', all'⟩)
    exact combined.respects image respects respects' fun child mem child' mem' =>
      (recursion child mem child' mem').respects image (all child mem) (all' child' mem')
  · rcases reduced.exists_child world with ⟨child, found, mem⟩
    rcases reduced'.exists_child world with ⟨child', found', mem'⟩
    have size := size_lt_of_mem var _ mem
    have size' := size_lt_of_mem var _ mem'
    exact ⟨child, child', _, .child reduced found, .child reduced' found', by omega, .inl rfl,
      recursion child mem child' mem', combined.denotes world child child' found found',
      combined.met world child child' found found'⟩

end

section

variable {excluded : Assignment -> Prop} {var' : Variable}
  {children children' : Edges sets (Tree sets)} {recurse : Tree sets -> Tree sets -> Tree sets}
  (reduced : (node var children).Reduced) (reduced' : (node var' children').Reduced)
  (recursion : ∀ x y : Tree sets, x.Reduced -> y.Reduced ->
    x.size + y.size < (node var children).size + (node var' children').size ->
    (x.vars ⊆ (node var children).vars /\ y.vars ⊆ (node var' children').vars \/
      y.vars ⊆ (node var children).vars /\ x.vars ⊆ (node var' children').vars) ->
    IsConjunction excluded x y (recurse x y))

include reduced reduced' recursion

/-- Two nodes are expanded if the recursive calls are conjunctions.  Their operands test
nothing that the nodes do not test. -/
lemma expand_expands :
    ∃ first, Expands excluded recurse (node var children) (node var' children') first
      (expand recurse (node var children) (node var' children')) := by
  rw [expand]
  rcases lt_trichotomy var var' with less | rfl | less
  · rw [compare_lt_iff_lt.mpr less]
    refine ⟨var, expands_left reduced reduced' (reduced'.after_of_lt less)
      (Open.of_le reduced' less.le) fun child mem => ?_⟩
    have size := size_lt_of_mem var _ mem
    exact recursion child _ (reduced.child mem) reduced' (by omega)
      (.inl ⟨fun _ => mem_vars_child mem, fun _ => id⟩)
  · rw [compare_eq_iff_eq.mpr rfl]
    refine ⟨var, expands_same reduced reduced' fun child mem child' mem' => ?_⟩
    have size := size_lt_of_mem var _ mem
    have size' := size_lt_of_mem var _ mem'
    exact recursion child child' (reduced.child mem) (reduced'.child mem') (by omega)
      (.inl ⟨fun _ => mem_vars_child mem, fun _ => mem_vars_child mem'⟩)
  · rw [compare_gt_iff_gt.mpr less]
    refine ⟨var', (expands_left reduced' reduced (reduced.after_of_lt less)
      (Open.of_le reduced less.le) fun child mem => ?_).symm⟩
    have size := size_lt_of_mem var' _ mem
    exact recursion child _ (reduced'.child mem) reduced (by omega)
      (.inr ⟨fun _ => id, fun _ => mem_vars_child mem⟩)

lemma expand_isConjunction :
    IsConjunction excluded (node var children) (node var' children')
      (expand recurse (node var children) (node var' children')) := by
  rcases expand_expands reduced reduced' recursion with ⟨first, expands⟩
  exact expands.isConjunction

end

/-- Conjunction without knowledge about platforms.  The fuel bounds the depth. -/
def conjunctionWithin : Nat -> Tree sets -> Tree sets -> Tree sets
  | 0, _, _ => .leaf false
  | fuel + 1, x, y => (andTrivial x y).getD (expand (conjunctionWithin fuel) x y)

def conjunction (x y : Tree sets) : Tree sets :=
  conjunctionWithin (x.size + y.size + 1) x y

def disjunction (x y : Tree sets) : Tree sets :=
  (conjunction x.not y.not).not

variable {x y : Tree sets}

/-- Two trees without a trivial conjunction are nodes. -/
lemma nodes_of_andTrivial (none : andTrivial x y = none) :
    ∃ var children, ∃ var' children', x = .node var children /\ y = .node var' children' := by
  cases x with
  | leaf value =>
    cases value with
    | true => simp [andTrivial, isTrue] at none
    | false =>
      cases y with
      | leaf value => cases value <;> simp [andTrivial, isTrue, isFalse] at none
      | node var' children' => simp [andTrivial, isTrue, isFalse] at none
  | node var children =>
    cases y with
    | leaf value =>
      cases value with
      | true => simp [andTrivial, isTrue] at none
      | false =>
        simp [andTrivial, isTrue, isFalse, beq_node_leaf] at none
    | node var' children' => exact ⟨var, children, var', children', rfl, rfl⟩

lemma conjunctionWithin_isConjunction {fuel : Nat} : ∀ {x y : Tree sets}, x.Reduced ->
    y.Reduced -> x.size + y.size < fuel ->
    IsConjunction (fun _ => False) x y (conjunctionWithin fuel x y) := by
  induction fuel with
  | zero => exact fun _ _ small => by cases small
  | succ fuel ih =>
    intro x y reduced reduced' small
    rw [conjunctionWithin]
    cases trivialCase : andTrivial x y with
    | some z => exact andTrivial_isConjunction reduced reduced' trivialCase
    | none =>
      rcases nodes_of_andTrivial trivialCase with ⟨var, children, var', children', rfl, rfl⟩
      refine expand_isConjunction reduced reduced' fun x y reduced reduced' smaller _ => ?_
      exact ih reduced reduced' (by omega)

lemma denote_conjunction (reduced : x.Reduced) (reduced' : y.Reduced) :
    (conjunction x y).Reduced /\ ∀ world,
      (conjunction x y).denote world = (x.denote world && y.denote world) := by
  have spec := conjunctionWithin_isConjunction reduced reduced' (Nat.lt_succ_self _)
  refine ⟨spec.reduced, fun world => ?_⟩
  rw [Bool.eq_iff_iff, Bool.and_eq_true]
  exact ⟨spec.sound world, fun both => spec.complete world both.1 both.2 id⟩

lemma denote_disjunction (reduced : x.Reduced) (reduced' : y.Reduced) :
    (disjunction x y).Reduced /\ ∀ world,
      (disjunction x y).denote world = (x.denote world || y.denote world) := by
  rcases denote_conjunction reduced.not reduced'.not with ⟨spec, denotes⟩
  refine ⟨spec.not, fun world => ?_⟩
  rw [disjunction, denote_not _ spec, denotes, denote_not _ reduced, denote_not _ reduced',
    Bool.not_and, Bool.not_not, Bool.not_not]

end Tree

/-! ## Disjointness -/

/-- Children are disjoint wherever two ranges intersect. -/
def isDisjointRanges {V : Type} {cmp : V -> V -> Ordering} (alg : RangeAlgebra V cmp)
    {N M : Type} (disjoint : N -> M -> Bool) (left : List (alg.Ranges × N))
    (right : List (alg.Ranges × M)) : Bool :=
  left.all fun edge => right.all fun edge' =>
    alg.isDisjoint edge'.1 edge.1 || disjoint edge.2 edge'.2

variable {sets : IntervalSets}

def Edges.isDisjoint {N M : Type} (disjoint : N -> M -> Bool) :
    Edges sets N -> Edges sets M -> Bool
  | .version left, .version right => isDisjointRanges sets.versions disjoint left right
  | .string left, .string right => isDisjointRanges sets.strings disjoint left right
  | .boolean high low, .boolean high' low' => disjoint high high' && disjoint low low'
  | _, _ => false

lemma isDisjointRanges_iff {V κ : Type} [LinearOrder κ] {cmp : V -> V -> Ordering} {key : V -> κ}
    (alg : RangeAlgebra V cmp) {N M : Type} {disjoint : N -> M -> Bool}
    {left : List (alg.Ranges × N)} {right : List (alg.Ranges × M)}
    (tiled : Tiled (Position.place key) alg.mem (fun _ => True) left)
    (tiled' : Tiled (Position.place key) alg.mem (fun _ => True) right) :
    isDisjointRanges alg disjoint left right <->
      ∀ spot node node', tileAt alg.mem left spot = some node ->
        tileAt alg.mem right spot = some node' -> disjoint node node' := by
  simp only [isDisjointRanges, List.all_eq_true, Bool.or_eq_true]
  constructor
  · intro all spot node node' found found'
    rcases mem_of_tileAt found with ⟨edge, mem, inside, rfl⟩
    rcases mem_of_tileAt found' with ⟨edge', mem', inside', rfl⟩
    rcases all edge mem edge' mem' with apart | disjoint
    · have outside := (alg.isDisjoint_iff _ _).mp apart spot
      rw [Bool.and_eq_false_iff] at outside
      rcases outside with outside | outside
      · exact absurd inside' (Bool.eq_false_iff.mp outside)
      · exact absurd inside (Bool.eq_false_iff.mp outside)
    · exact disjoint
  · intro all edge mem edge' mem'
    by_cases apart : alg.isDisjoint edge'.1 edge.1
    · exact .inl apart
    · rw [alg.isDisjoint_iff, not_forall] at apart
      rcases apart with ⟨spot, shared⟩
      rw [Bool.not_eq_false, Bool.and_eq_true] at shared
      exact .inr (all spot _ _ (tiled.tileAt_of_mem mem shared.2)
        (tiled'.tileAt_of_mem mem' shared.1))

lemma Edges.isDisjoint_iff {N M : Type} {disjoint : N -> M -> Bool}
    {left : Edges sets N} {right : Edges sets M} (sameKind : left.kind = right.kind)
    (tiled : left.Tiled) (tiled' : right.Tiled) :
    left.isDisjoint disjoint right <->
      ∀ point node node', left.read point = some node -> right.read point = some node' ->
        disjoint node node' := by
  rcases shapes sameKind with ⟨left, right, rfl, rfl⟩ | ⟨left, right, rfl, rfl⟩ |
    ⟨high, low, high', low', rfl, rfl⟩
  · refine (isDisjointRanges_iff sets.versions tiled tiled').trans ?_
    exact ⟨fun all point => all point.version,
      fun all spot => all { (default : Point) with version := spot }⟩
  · refine (isDisjointRanges_iff sets.strings tiled tiled').trans ?_
    exact ⟨fun all point => all point.string,
      fun all spot => all { (default : Point) with string := spot }⟩
  · rw [isDisjoint, Bool.and_eq_true]
    constructor
    · rintro ⟨highs, lows⟩ point node node' found found'
      rw [<- some.inj found, <- some.inj found']
      cases point.boolean with
      | true => exact highs
      | false => exact lows
    · intro all
      exact ⟨all { (default : Point) with boolean := true } _ _ rfl rfl,
        all { (default : Point) with boolean := false } _ _ rfl rfl⟩

namespace Tree

variable {sets : IntervalSets}

/-- No assignment satisfies both trees.  Knowledge about platforms is not used. -/
def disjointnessWithin : Nat -> Tree sets -> Tree sets -> Bool
  | 0, _, _ => false
  | fuel + 1, x, y =>
    if x.isFalse || y.isFalse then true
    else if x.isTrue || y.isTrue then false
    else if x.beq y then false
    else if x.not.beq y then true
    else
      match x, y with
      | .node var children, .node var' children' =>
        match compare var var' with
        | .lt => children.nodes.all fun node =>
          disjointnessWithin fuel node (.node var' children')
        | .gt => children'.nodes.all fun node =>
          disjointnessWithin fuel node (.node var children)
        | .eq => children.isDisjoint (disjointnessWithin fuel) children'
      | _, _ => false

def disjointness (x y : Tree sets) : Bool :=
  disjointnessWithin (x.size + y.size + 1) x y

/-- No assignment satisfies both. -/
def Disjoint (x y : Tree sets) : Prop :=
  ∀ world, x.denote world = true -> y.denote world = true -> False

lemma Disjoint.comm {x y : Tree sets} : Disjoint x y <-> Disjoint y x :=
  ⟨fun disjoint world first second => disjoint world second first,
    fun disjoint world first second => disjoint world second first⟩

/-- A node is disjoint from a tree of later tests when all its children are. -/
lemma disjoint_left_iff {children : Edges sets (Tree sets)} {y : Tree sets}
    (reduced : (node var children).Reduced) (after : y.After var) :
    Disjoint (node var children) y <-> ∀ child ∈ children.nodes, Disjoint child y := by
  constructor
  · intro disjoint child mem world first second
    rcases exists_read reduced.tiled mem (world var) with ⟨point, found⟩
    refine disjoint (Function.update world var point) ?_ ?_
    · exact (reduced.eval_child found world).symm.trans first
    · exact (after.eval_update world point).trans second
  · intro all world first second
    rcases reduced.exists_child world with ⟨child, found, mem⟩
    rw [denote_node, found] at first
    exact all child mem world first second

/-- Two nodes of one variable are disjoint when the children at each point are. -/
lemma disjoint_same_iff {children children' : Edges sets (Tree sets)}
    (reduced : (node var children).Reduced) (reduced' : (node var children').Reduced) :
    Disjoint (node var children) (node var children') <->
      ∀ point child child', children.read point = some child ->
        children'.read point = some child' -> Disjoint child child' := by
  constructor
  · intro disjoint point child child' found found' world first second
    refine disjoint (Function.update world var point) ?_ ?_
    · exact (reduced.eval_child found world).symm.trans first
    · exact (reduced'.eval_child found' world).symm.trans second
  · intro all world first second
    rcases reduced.exists_child world with ⟨child, found, _⟩
    rcases reduced'.exists_child world with ⟨child', found', _⟩
    rw [denote_node, found] at first
    rw [denote_node, found'] at second
    exact all (world var) child child' found found' world first second

/-- A reduced tree other than `false` can be satisfied. -/
lemma Reduced.satisfiable {tree : Tree sets} (reduced : tree.Reduced) (notFalse : ¬ tree.isFalse) :
    ∃ world, tree.denote world := by
  by_contra unsatisfiable
  have same : tree.denote = (Tree.leaf false : Tree sets).denote := by
    funext world
    exact Bool.eq_false_iff.mpr fun holds => unsatisfiable ⟨world, holds⟩
  cases tree with
  | leaf value =>
    cases value with
    | true => exact leaf_ne same
    | false => exact notFalse rfl
  | node var children => exact denote_ne_of_after reduced (after_leaf var false) same

lemma disjointnessWithin_iff {fuel : Nat} : ∀ {x y : Tree sets}, x.Reduced -> y.Reduced ->
    x.size + y.size < fuel -> (disjointnessWithin fuel x y <-> Disjoint x y) := by
  induction fuel with
  | zero => exact fun _ _ small => by cases small
  | succ fuel ih =>
    intro x y reduced reduced' small
    unfold disjointnessWithin
    split
    next isFalse =>
      refine iff_of_true rfl fun world first second => ?_
      rcases Bool.or_eq_true _ _ ▸ isFalse with isFalse | isFalse
      · exact not_isFalse_of_denote first isFalse
      · exact not_isFalse_of_denote second isFalse
    next notFalse =>
    rw [Bool.or_eq_true, not_or] at notFalse
    split
    next isTrue =>
      refine iff_of_false Bool.false_ne_true fun disjoint => ?_
      rcases Bool.or_eq_true _ _ ▸ isTrue with isTrue | isTrue
      · rcases reduced'.satisfiable notFalse.2 with ⟨world, holds⟩
        rw [(isTrue_iff x).mp isTrue] at disjoint
        exact disjoint world rfl holds
      · rcases reduced.satisfiable notFalse.1 with ⟨world, holds⟩
        rw [(isTrue_iff y).mp isTrue] at disjoint
        exact disjoint world holds rfl
    next notTrue =>
    split
    next same =>
      refine iff_of_false Bool.false_ne_true fun disjoint => ?_
      rcases reduced.satisfiable notFalse.1 with ⟨world, holds⟩
      have denotes := (reduced.beq_iff reduced').mp same
      exact disjoint world holds (congrFun denotes world ▸ holds)
    next different =>
    split
    next opposite =>
      refine iff_of_true rfl fun world first second => ?_
      rw [<- (reduced.not.beq_iff reduced').mp opposite, denote_not x reduced, first] at second
      exact Bool.false_ne_true second
    next notOpposite =>
    rw [Bool.or_eq_true, not_or] at notTrue
    cases x with
    | leaf value => cases value <;> simp [isTrue, isFalse] at notTrue notFalse
    | node var children =>
    cases y with
    | leaf value => cases value <;> simp [isTrue, isFalse] at notTrue notFalse
    | node var' children' =>
    dsimp only
    rcases lt_trichotomy var var' with less | rfl | less
    · rw [compare_lt_iff_lt.mpr less]
      refine List.all_eq_true.trans (Iff.trans ?_
        (disjoint_left_iff reduced (reduced'.after_of_lt less)).symm)
      refine forall₂_congr fun child mem => ?_
      have size := size_lt_of_mem var _ mem
      exact ih (reduced.child mem) reduced' (by omega)
    · rw [compare_eq_iff_eq.mpr rfl]
      refine Iff.trans ?_ (disjoint_same_iff reduced reduced').symm
      refine (isDisjoint_iff (reduced.kind.trans reduced'.kind.symm) reduced.tiled
        reduced'.tiled).trans ?_
      refine forall_congr' fun point => forall₂_congr fun child child' =>
        forall₂_congr fun found found' => ?_
      have mem := mem_nodes_of_read found
      have mem' := mem_nodes_of_read found'
      have size := size_lt_of_mem var _ mem
      have size' := size_lt_of_mem var _ mem'
      exact ih (reduced.child mem) (reduced'.child mem') (by omega)
    · rw [compare_gt_iff_gt.mpr less]
      refine List.all_eq_true.trans (Iff.trans ?_ (Disjoint.comm.trans
        (disjoint_left_iff reduced' (reduced.after_of_lt less))).symm)
      refine forall₂_congr fun child mem => ?_
      have size := size_lt_of_mem var' _ mem
      exact ih (reduced'.child mem) reduced (by omega)

lemma disjointness_iff {x y : Tree sets} (reduced : x.Reduced) (reduced' : y.Reduced) :
    disjointness x y <-> Disjoint x y :=
  disjointnessWithin_iff reduced reduced' (Nat.lt_succ_self _)

end Tree

end Uv.Marker
