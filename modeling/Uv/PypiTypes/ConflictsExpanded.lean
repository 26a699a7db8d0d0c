import Uv.PypiTypes.Conflicts

namespace Uv.PypiTypes

open Library Marker Resolver List

/-!
# What the expansion of conflicts adds

The substitutions are first described by paths in the graph, then by inclusion of
groups.  They apply to the first item with a name, whatever its package is.  If that
item belongs to the package wherever an included group is concerned, then exactly the
sets are added that arise by putting including groups in place of included ones.

These sets can have a single item, if all items of a set are included by one group.
-/

variable (groups : DependencyGroups)

/-- A group is named among the specifiers of another one. -/
def DependencyGroups.Includes (included includer : GroupName) :
    Prop :=
  ∃ specifiers, (includer, specifiers) ∈ groups.entries /\
    DependencyGroupSpecifier.includeGroup included ∈ specifiers

/-- A group includes another one, possibly through further groups. -/
def DependencyGroups.IncludedBy (groups : DependencyGroups) : GroupName -> GroupName -> Prop :=
  Relation.TransGen groups.Includes

def DependencyGroups.Acyclic : Prop :=
  ∀ group, ¬groups.IncludedBy group group

variable {groups : DependencyGroups} {included includer : GroupName}

lemma DependencyGroups.Includes.mem_keys (includes : groups.Includes included includer) :
    includer ∈ groups.keys := by
  rcases includes with ⟨specifiers, mem, _⟩
  exact mem_map.mpr ⟨_, mem, rfl⟩

lemma DependencyGroups.IncludedBy.mem_keys (path : groups.IncludedBy included includer) :
    includer ∈ groups.keys := by
  rcases Relation.TransGen.tail'_iff.mp path with ⟨_, _, includes⟩
  exact includes.mem_keys

/-- The first conflict item for a name of a group. -/
def firstItem (conflicts : List ConflictSet) (group : GroupName) : Option ConflictItem :=
  (conflicts.flatMap ConflictSet.iter).find? fun item => item.kind = .group group

variable {item : ConflictItem} {conflicts : List ConflictSet} {group : GroupName}

lemma firstItem_kind
    (first : firstItem conflicts group = some item) : item.kind = .group group := by
  have holds := find?_some first
  exact of_decide_eq_true holds

variable {set : ConflictSet}

lemma exists_firstItem (given : set ∈ conflicts) (mem : item ∈ set)
    (kind : item.kind = .group group) :
    ∃ first, firstItem conflicts group = some first := by
  refine Option.isSome_iff_exists.mp (find?_isSome.mpr ⟨item, ?_, decide_eq_true kind⟩)
  exact mem_flatMap.mpr ⟨set, given, ConflictSet.mem_iter.mpr mem⟩

variable {package : PackageName}

namespace IncludeGraph

/-! ## Nodes -/

/-- The node of a name, if it has one. -/
def describe (package : PackageName) (group : GroupName) : Option ConflictItem -> GroupNode
  | some item => ⟨group, item, [item]⟩
  | none => ⟨group, ⟨package, .group group⟩, []⟩

@[simp]
lemma describe_group (package : PackageName) (group : GroupName) (first : Option ConflictItem) :
    (describe package group first).group = group := by
  cases first <;> rfl

variable {nodes : List GroupNode}

lemma seen_iff :
    seen nodes group <-> ∃ node ∈ nodes, node.group = group := by
  simp only [seen, any_eq_true, decide_eq_true_eq]

/-- A name is the node of the first item with it. -/
def IsDefined (items : List ConflictItem) (node : GroupNode) : Prop :=
  items.find? (fun item => item.kind = .group node.group) = some node.item /\
    node.canonicalItems = [node.item]

variable {items : List ConflictItem} {node : GroupNode}

lemma isDefined_concat_of_ne (different : item.kind ≠ .group node.group) :
    IsDefined (items ++ [item]) node <-> IsDefined items node := by
  rw [IsDefined, find?_append, find?_singleton, if_neg (by simpa using different),
    Option.or_none, IsDefined]

lemma isDefined_concat_of_some {item first : ConflictItem}
    (known : items.find? (fun item => item.kind = .group node.group) = some first) :
    IsDefined (items ++ [item]) node <-> IsDefined items node := by
  rw [IsDefined, find?_append, known, Option.some_or, IsDefined, known]

lemma isDefined_concat_of_none (kind : item.kind = .group node.group)
    (unknown : items.find? (fun item => item.kind = .group node.group) = none) :
    IsDefined (items ++ [item]) node <-> node = ⟨node.group, item, [item]⟩ := by
  rw [IsDefined, find?_append, unknown, find?_singleton, if_pos (decide_eq_true kind),
    Option.none_or, Option.some_inj]
  rcases node with ⟨group, nodeItem, canonical⟩
  simp only [GroupNode.mk.injEq, true_and]
  constructor
  · rintro ⟨rfl, rfl⟩
    exact ⟨rfl, rfl⟩
  · rintro ⟨rfl, rfl⟩
    exact ⟨rfl, rfl⟩

lemma mem_foldl_addDefined :
    node ∈ items.foldl addDefined [] <-> IsDefined items node := by
  induction items using reverseRecOn generalizing node with
  | nil =>
    simp only [foldl_nil, not_mem_nil, IsDefined, find?_nil, reduceCtorEq, false_and]
  | append_singleton items item ih =>
    rw [foldl_append, foldl_cons, foldl_nil, addDefined]
    split
    next group kind =>
      by_cases same : node.group = group
      · subst group
        cases known : items.find? (fun item => item.kind = .group node.group) with
        | some first =>
          have before : seen (items.foldl addDefined []) node.group :=
            seen_iff.mpr ⟨⟨node.group, first, [first]⟩, ih.mpr ⟨known, rfl⟩, rfl⟩
          rw [if_pos before, ih, isDefined_concat_of_some known]
        | none =>
          have fresh : ¬seen (items.foldl addDefined []) node.group := by
            rw [seen_iff]
            rintro ⟨other, mem, name⟩
            have defined := (ih.mp mem).1
            rw [name, known] at defined
            exact absurd defined (by simp only [reduceCtorEq, not_false_eq_true])
          have absent : node ∉ items.foldl addDefined [] :=
            fun mem => fresh (seen_iff.mpr ⟨node, mem, rfl⟩)
          rw [if_neg fresh, mem_append, mem_singleton, isDefined_concat_of_none kind known]
          exact or_iff_right absent
      · have different : item.kind ≠ .group node.group := by
          rw [kind]
          exact fun name => same (ConflictKind.group.inj name).symm
        rw [isDefined_concat_of_ne different, <- ih]
        split
        next => rfl
        next =>
          rw [mem_append, mem_singleton]
          exact or_iff_left fun new => same (congrArg GroupNode.group new)
    next other =>
      rw [isDefined_concat_of_ne (other node.group), ih]

lemma seen_addRemaining {key : GroupName} :
    seen (addRemaining package nodes key) group <->
      seen nodes group \/ group = key := by
  rw [addRemaining]
  split
  next before => exact ⟨.inl, fun either => either.elim id fun same => same ▸ before⟩
  next =>
    simp only [seen, any_append, any_cons, any_nil, Bool.or_false, Bool.or_eq_true,
      decide_eq_true_eq]
    exact or_congr_right eq_comm

lemma mem_foldl_addRemaining {keys : List GroupName} :
    node ∈ keys.foldl (addRemaining package) nodes <->
      node ∈ nodes \/ ¬seen nodes node.group /\ node.group ∈ keys /\
        node = ⟨node.group, ⟨package, .group node.group⟩, []⟩ := by
  induction keys generalizing nodes with
  | nil => simp only [foldl_nil, not_mem_nil, false_and, and_false, or_false]
  | cons key keys ih =>
    rw [foldl_cons, ih, seen_addRemaining, mem_cons, addRemaining]
    by_cases same : node.group = key
    · subst key
      split
      next before => simp only [before, true_or, not_true, false_and]
      next fresh => simp only [mem_append, mem_singleton, fresh, or_true, not_true,
        false_and, or_false, Bool.false_eq_true, not_false_eq_true, true_or, true_and]
    · have old : ∀ present : Bool, node ∈ (if present then nodes
          else nodes ++ [⟨key, ⟨package, .group key⟩, []⟩]) <-> node ∈ nodes := by
        intro present
        cases present with
        | true => rfl
        | false =>
          simp only [Bool.false_eq_true, if_false, mem_append, mem_singleton]
          exact or_iff_left fun new => same (congrArg GroupNode.group new)
      rw [old]
      simp only [same, or_false, false_or]

section

variable {conflicts : List ConflictSet} {package : PackageName} {groups : DependencyGroups}

lemma mem_nodesOf :
    node ∈ nodesOf conflicts package groups <->
      node = describe package node.group (firstItem conflicts node.group) /\
        (firstItem conflicts node.group ≠ none \/ node.group ∈ groups.keys) := by
  have named : seen ((conflicts.flatMap ConflictSet.iter).foldl addDefined []) node.group <->
      firstItem conflicts node.group ≠ none := by
    rw [seen_iff]
    constructor
    · rintro ⟨other, mem, same⟩ unknown
      have defined := (mem_foldl_addDefined.mp mem).1
      rw [same, <- firstItem, unknown] at defined
      exact absurd defined (by simp only [reduceCtorEq, not_false_eq_true])
    · intro known
      rcases Option.ne_none_iff_exists'.mp known with ⟨item, first⟩
      exact ⟨⟨node.group, item, [item]⟩, mem_foldl_addDefined.mpr ⟨first, rfl⟩, rfl⟩
  rw [nodesOf, mem_foldl_addRemaining, mem_foldl_addDefined, IsDefined, named, <- firstItem]
  rcases node with ⟨group, nodeItem, canonical⟩
  cases firstItem conflicts group with
  | none => simp [describe, and_comm]
  | some item =>
    simp only [describe, Option.some_inj, GroupNode.mk.injEq, true_and, ne_eq, reduceCtorEq,
      not_false_eq_true, not_true, false_and, or_false, true_or, and_true]
    constructor
    · rintro ⟨rfl, rfl⟩
      exact ⟨rfl, rfl⟩
    · rintro ⟨rfl, rfl⟩
      exact ⟨rfl, rfl⟩

lemma eq_of_mem_nodesOf {other : GroupNode} (mem : node ∈ nodesOf conflicts package groups)
    (otherListed : other ∈ nodesOf conflicts package groups) (same : node.group = other.group) :
    node = other := by
  rw [(mem_nodesOf.mp mem).1, (mem_nodesOf.mp otherListed).1, same]

lemma nodeOf_eq_some_iff :
    nodeOf (nodesOf conflicts package groups) group = some node <->
      node ∈ nodesOf conflicts package groups /\ node.group = group := by
  constructor
  · intro found
    exact ⟨mem_of_find?_eq_some found, of_decide_eq_true (find?_some found :)⟩
  · rintro ⟨mem, same⟩
    cases found : nodeOf (nodesOf conflicts package groups) group with
    | none => exact absurd (decide_eq_true same) (find?_eq_none.mp found node mem)
    | some other =>
      have name : other.group = group := of_decide_eq_true (find?_some found :)
      exact congrArg some (eq_of_mem_nodesOf (mem_of_find?_eq_some found) mem
        (name.trans same.symm))

/-! ## Edges and paths -/

lemma mem_edgesOf {included includer : GroupNode} :
    (included, includer) ∈ (build conflicts package groups).edges <->
      included ∈ nodesOf conflicts package groups /\ includer ∈ nodesOf conflicts package groups /\
        groups.Includes included.group includer.group := by
  simp only [build, edgesOf, mem_flatMap]
  constructor
  · rintro ⟨⟨name, specifiers⟩, entry, edge⟩
    split at edge
    next => cases edge
    next found =>
      rcases mem_map.mp edge with ⟨other, reached, same⟩
      cases same
      rcases mem_filterMap.mp reached with ⟨spec, mem, target⟩
      cases spec with
      | includeGroup group =>
        rcases nodeOf_eq_some_iff.mp found with ⟨includerListed, rfl⟩
        rcases nodeOf_eq_some_iff.mp target with ⟨includedListed, rfl⟩
        exact ⟨includedListed, includerListed, specifiers, entry, mem⟩
      | requirement text => cases target
      | object fields => cases target
  · rintro ⟨includedListed, includerListed, specifiers, entry, mem⟩
    refine ⟨_, entry, ?_⟩
    rw [nodeOf_eq_some_iff.mpr ⟨includerListed, rfl⟩]
    refine mem_map.mpr ⟨included, mem_filterMap.mpr ⟨_, mem, ?_⟩, rfl⟩
    exact nodeOf_eq_some_iff.mpr ⟨includedListed, rfl⟩

lemma mem_neighbors {graph : IncludeGraph} {next : GroupNode} :
    next ∈ graph.neighbors node <-> (node, next) ∈ graph.edges := by
  simp only [neighbors, mem_reverse, mem_map, mem_filter, decide_eq_true_eq]
  constructor
  · rintro ⟨⟨source, target⟩, ⟨mem, rfl⟩, rfl⟩
    exact mem
  · exact fun mem => ⟨_, ⟨mem, rfl⟩, rfl⟩

variable (graph : IncludeGraph)

/-- There is a nonempty path. -/
def Leads : GroupNode -> GroupNode -> Prop :=
  Relation.TransGen fun node next => next ∈ graph.neighbors node

lemma mem_neighbors_build {next : GroupNode} :
    next ∈ (build conflicts package groups).neighbors node <->
      node ∈ nodesOf conflicts package groups /\ next ∈ nodesOf conflicts package groups /\
        groups.Includes node.group next.group :=
  mem_neighbors.trans mem_edgesOf

lemma describe_mem_nodesOf (known : firstItem conflicts group ≠ none \/ group ∈ groups.keys) :
    describe package group (firstItem conflicts group) ∈ nodesOf conflicts package groups := by
  rw [mem_nodesOf, describe_group]
  exact ⟨rfl, known⟩

/-- Paths are chains of includes, as every including group has a node. -/
lemma leads_build_iff {source target : GroupNode} :
    (build conflicts package groups).Leads source target <->
      source ∈ nodesOf conflicts package groups /\ target ∈ nodesOf conflicts package groups /\
        groups.IncludedBy source.group target.group := by
  constructor
  · intro path
    induction path with
    | single adjacent =>
      rcases mem_neighbors_build.mp adjacent with ⟨first, second, includes⟩
      exact ⟨first, second, .single includes⟩
    | tail _ adjacent ih =>
      rcases mem_neighbors_build.mp adjacent with ⟨_, second, includes⟩
      exact ⟨ih.1, second, ih.2.2.tail includes⟩
  · rintro ⟨first, last, path⟩
    generalize name : target.group = group at path
    induction path generalizing target with
    | single includes =>
      exact .single (mem_neighbors_build.mpr ⟨first, last, name ▸ includes⟩)
    | @tail between group path includes ih =>
      have mem : describe package between (firstItem conflicts between) ∈
          nodesOf conflicts package groups :=
        describe_mem_nodesOf (.inr (DependencyGroups.IncludedBy.mem_keys path))
      refine (ih mem (describe_group _ _ _)).tail
        (mem_neighbors_build.mpr ⟨mem, last, ?_⟩)
      rw [describe_group, name]
      exact includes

/-- The contract of the topological sort: it fails only for cyclic graphs, and otherwise
lists the nodes such that none leads to an earlier one. -/
def Sorts : Option (List GroupNode) -> Prop
  | none => ∃ node, graph.Leads node node
  | some order => order.Perm graph.nodes /\
      order.Pairwise fun earlier later => earlier ∉ graph.neighbors later

lemma exists_order (acyclic : groups.Acyclic) {result : Option (List GroupNode)}
    (sorts : (build conflicts package groups).Sorts result) :
    ∃ order, result = some order /\ (build conflicts package groups).Sorts (some order) := by
  cases result with
  | none =>
    rcases sorts with ⟨node, cycle⟩
    exact absurd (leads_build_iff.mp cycle).2.2 (acyclic node.group)
  | some order => exact ⟨order, rfl, sorts⟩

end

end IncludeGraph

namespace Expansion

open IncludeGraph

/-! ## Substitutions -/

section

variable {conflicts : List ConflictSet} {package : PackageName} {groups : DependencyGroups}

/-- The item of a name in the graph. -/
def itemFor (conflicts : List ConflictSet) (package : PackageName) (group : GroupName) :
    ConflictItem :=
  (firstItem conflicts group).getD ⟨package, .group group⟩

lemma itemFor_kind (group : GroupName) :
    (itemFor conflicts package group).kind = .group group := by
  rw [itemFor]
  cases first : firstItem conflicts group with
  | none => rfl
  | some item => exact firstItem_kind first

/-- The first item for an included name can be replaced by that for an including one. -/
def FirstNamed (conflicts : List ConflictSet) (package : PackageName) (groups : DependencyGroups)
    (old new : ConflictItem) : Prop :=
  ∃ included includer, groups.IncludedBy included includer /\
    firstItem conflicts included = some old /\ itemFor conflicts package includer = new

/-- The kind of the item between tells its name. -/
instance : IsTrans ConflictItem (FirstNamed conflicts package groups) where
  trans := by
    rintro old between new ⟨included, includer, lower, first, rfl⟩ ⟨other, last, upper, same, rfl⟩
    have name := (itemFor_kind includer).symm.trans (firstItem_kind same)
    rw [<- ConflictKind.group.inj name] at upper
    exact ⟨included, last, lower.trans upper, first, rfl⟩

lemma describe_item (group : GroupName) :
    (describe package group (firstItem conflicts group)).item =
      itemFor conflicts package group := by
  rw [itemFor]
  cases firstItem conflicts group <;> rfl

lemma mem_describe_canonicalItems :
    item ∈ (describe package group (firstItem conflicts group)).canonicalItems <->
      firstItem conflicts group = some item := by
  cases firstItem conflicts group with
  | none => simp only [describe, not_mem_nil, reduceCtorEq]
  | some first => simp only [describe, mem_singleton, Option.some_inj, eq_comm]

lemma mem_substitutions_iff (acyclic : groups.Acyclic) {order : List GroupNode}
    (sorts : (build conflicts package groups).Sorts (some order)) {old new : ConflictItem} :
    (old, new) ∈ substitutions (build conflicts package groups) order <->
      FirstNamed conflicts package groups old new := by
  have irreflexive : ∀ node, node ∉ (build conflicts package groups).neighbors node :=
    fun node loop => acyclic node.group (.single (mem_neighbors_build.mp loop).2.2)
  have covers : ∀ node next, next ∈ (build conflicts package groups).neighbors node ->
      node ∈ order :=
    fun node next adjacent => sorts.1.mem_iff.mpr (mem_neighbors_build.mp adjacent).1
  rw [substitutions, Flow.mem_found_run_iff irreflexive sorts.2 covers]
  constructor
  · rintro ⟨source, target, held, same, path⟩
    rcases leads_build_iff.mp path with ⟨sourceListed, targetListed, includes⟩
    rw [(mem_nodesOf.mp sourceListed).1] at held
    rw [(mem_nodesOf.mp targetListed).1, describe_item] at same
    exact ⟨source.group, target.group, includes, mem_describe_canonicalItems.mp held, same⟩
  · rintro ⟨included, includer, includes, first, same⟩
    refine ⟨describe package included (firstItem conflicts included),
      describe package includer (firstItem conflicts includer),
      mem_describe_canonicalItems.mpr first, (describe_item includer).trans same,
      leads_build_iff.mpr ⟨?_, ?_, ?_⟩⟩
    · exact describe_mem_nodesOf (.inl (first ▸ Option.some_ne_none old))
    · exact describe_mem_nodesOf (.inr includes.mem_keys)
    · rw [describe_group, describe_group]
      exact includes

end

/-! ## Applying the substitutions -/

variable {sets : List ConflictSet} {canonicalItem : ConflictItem}

lemma mem_newConflictSets {subs : List ConflictItem} :
    set ∈ newConflictSets sets canonicalItem subs <->
      (∃ between ∈ sets, canonicalItem ∈ between /\
        ∃ new ∈ subs, set = Replacement.replace canonicalItem new between) /\
      set ∉ sets := by
  simp only [newConflictSets, mem_dedup, mem_filter, mem_flatMap, mem_filterMap, decide_eq_true_eq]
  refine and_congr_left fun _ => exists_congr fun between => ?_
  rw [and_assoc]
  refine and_congr_right fun _ => and_congr_right fun mem => exists_congr fun new => ?_
  rw [ConflictSet.replacedItem, if_pos mem]
  simp only [Except.toOption, Option.some_inj, eq_comm]

variable {expansion : Expansion} {table : List (ConflictItem × ConflictItem)}

/-- One round is the abstract step for the relation that the table stands for. -/
lemma mem_substitute :
    set ∈ expansion.substitute table sets canonicalItem <->
      Replacement.Extended (fun old new => (old, new) ∈ table) (· ∈ sets) canonicalItem set := by
  have subs : ∀ new, new ∈ (table.filter fun entry => entry.1 = canonicalItem).map Prod.snd <->
      (canonicalItem, new) ∈ table := by
    intro new
    simp only [mem_map, mem_filter, decide_eq_true_eq]
    constructor
    · rintro ⟨⟨old, other⟩, ⟨mem, rfl⟩, rfl⟩
      exact mem
    · exact fun mem => ⟨_, ⟨mem, rfl⟩, rfl⟩
  rw [substitute, IndexSet.mem_extend, (expansion.setOrder.perm _).mem_iff, mem_newConflictSets]
  simp only [subs, Replacement.Extended]
  by_cases present : set ∈ sets
  · simp only [present, true_or]
  · simp only [present, false_or, not_false_eq_true, and_true]

lemma mem_foldl_substitute {order : List ConflictItem} :
    set ∈ order.foldl (expansion.substitute table) sets <->
      order.foldl (Replacement.Extended fun old new => (old, new) ∈ table) (· ∈ sets) set := by
  induction order generalizing sets with
  | nil => rfl
  | cons canonicalItem order ih =>
    have step : (· ∈ expansion.substitute table sets canonicalItem) =
        Replacement.Extended (fun old new => (old, new) ∈ table) (· ∈ sets) canonicalItem :=
      funext fun _ => propext mem_substitute
    rw [foldl_cons, foldl_cons, ih, step]

lemma exists_conflictSets_eq (table : List (ConflictItem × ConflictItem))
    {seeded : List ConflictSet} (distinct : seeded.Nodup) :
    ∃ new, expansion.conflictSets table seeded = seeded ++ new /\ (seeded ++ new).Nodup := by
  rw [conflictSets]
  generalize expansion.canonicalOrder.arrange (table.map Prod.fst).dedup = order
  have kept : seeded <+: order.foldl (expansion.substitute table) seeded /\
      (order.foldl (expansion.substitute table) seeded).Nodup := by
    induction order generalizing seeded with
    | nil => exact ⟨prefix_rfl, distinct⟩
    | cons canonicalItem order ih =>
      have between : (expansion.substitute table seeded canonicalItem).Nodup :=
        IndexSet.nodup_extend distinct
      have rest := ih between
      exact ⟨(IndexSet.is_prefix_extend _ _).trans rest.1, rest.2⟩
  rcases kept.1 with ⟨new, same⟩
  exact ⟨new, same.symm, same ▸ kept.2⟩

section

variable {conflicts : List ConflictSet} {package : PackageName} {groups : DependencyGroups}

variable {old new : ConflictItem}

lemma isGroup_of_firstNamed (named : FirstNamed conflicts package groups old new) :
    (conflicts.any fun set => set.iter.any isGroup) := by
  rcases named with ⟨included, _, _, first, _⟩
  rcases mem_flatMap.mp (mem_of_find?_eq_some first) with ⟨set, given, mem⟩
  refine any_eq_true.mpr ⟨set, given, any_eq_true.mpr ⟨old, mem, ?_⟩⟩
  rw [isGroup, firstItem_kind first]

lemma isInclude_of_firstNamed (named : FirstNamed conflicts package groups old new) :
    (groups.entries.any fun entry => entry.2.any isInclude) := by
  rcases named with ⟨_, _, path, _, _⟩
  rcases Relation.TransGen.tail'_iff.mp path with ⟨between, _, specifiers, entry, mem⟩
  exact any_eq_true.mpr ⟨_, entry, any_eq_true.mpr ⟨_, mem, rfl⟩⟩

/-- What is appended, whichever package the first items belong to. -/
def IsAppended (standsFor : ConflictItem -> ConflictItem -> Prop) (conflicts : List ConflictSet)
    (set : ConflictSet) : Prop :=
  set ∉ conflicts /\ ∃ given ∈ conflicts, Replacement.Arises standsFor given set

/-- The early returns are taken only if nothing can be replaced. -/
lemma not_isAppended_of_not_firstNamed
    (none : ∀ old new, ¬FirstNamed conflicts package groups old new) (set : ConflictSet) :
    ¬IsAppended (FirstNamed conflicts package groups) conflicts set := by
  rintro ⟨fresh, given, member, choice, moves, rfl⟩
  refine fresh ?_
  have kept : given.image choice = given :=
    (Finset.image_congr fun item mem =>
      (moves item mem).resolve_right (none item _)).trans Finset.image_id
  rw [kept]
  exact member

lemma exists_appended (acyclic : groups.Acyclic) (sorts : (build conflicts package groups).Sorts
      (expansion.toposort (build conflicts package groups))) :
    ∃ appended,
      expansion.expandTransitiveGroupIncludes conflicts package groups = conflicts ++ appended /\
      appended.Nodup /\ ∀ set, set ∈ appended <->
        IsAppended (FirstNamed conflicts package groups) conflicts set := by
  have unchanged (none : ∀ old new, ¬FirstNamed conflicts package groups old new) :
      ∃ appended : List ConflictSet, conflicts = conflicts ++ appended /\
        appended.Nodup /\ ∀ set, set ∈ appended <->
          IsAppended (FirstNamed conflicts package groups) conflicts set :=
    ⟨[], (append_nil _).symm, nodup_nil, fun set => iff_of_false not_mem_nil
      (not_isAppended_of_not_firstNamed none set)⟩
  rw [expandTransitiveGroupIncludes]
  split
  next noGroup => exact unchanged fun _ _ named => noGroup (isGroup_of_firstNamed named)
  split
  next noInclude => exact unchanged fun _ _ named => noInclude (isInclude_of_firstNamed named)
  rcases exists_order acyclic sorts with ⟨order, sorted, isSorted⟩
  simp only [sorted]
  have table : (fun old new => (old, new) ∈ substitutions (build conflicts package groups) order) =
      FirstNamed conflicts package groups :=
    funext fun _ => funext fun _ => propext (mem_substitutions_iff acyclic isSorted)
  have seeded : ∀ set, set ∈ IndexSet.extend [] conflicts <-> set ∈ conflicts := fun set => by
    rw [IndexSet.mem_extend, or_iff_right not_mem_nil]
  rcases @exists_conflictSets_eq expansion
    (substitutions (build conflicts package groups) order) (IndexSet.extend [] conflicts)
    (IndexSet.nodup_extend nodup_nil) with ⟨new, same, distinct⟩
  refine ⟨new, by simp only [same, drop_left], (nodup_append'.mp distinct).2.1,
    fun set => ?_⟩
  have closed : set ∈ IndexSet.extend [] conflicts ++ new <-> ∃ given ∈ conflicts, Replacement.Arises (FirstNamed conflicts package groups) given set := by
    rw [<- same, conflictSets, mem_foldl_substitute, table, Replacement.extended_iff]
    · simp only [seeded]
    · intro given _ item _ replacement allowed
      rw [(expansion.canonicalOrder.perm _).mem_iff, mem_dedup]
      exact mem_map.mpr ⟨_, (mem_substitutions_iff acyclic isSorted).mpr allowed, rfl⟩
  rw [IsAppended, <- closed, mem_append, seeded]
  constructor
  · intro mem
    refine ⟨fun given => ?_, .inr mem⟩
    exact (nodup_append'.mp distinct).2.2 ((seeded set).mpr given) mem
  · exact fun ⟨fresh, mem⟩ => mem.resolve_left fresh

/-! ## Groups of the package -/

/-- A group of the package can be replaced by one that includes it. -/
def Substitutes (package : PackageName) (groups : DependencyGroups) (old new : ConflictItem) :
    Prop :=
  ∃ included includer, groups.IncludedBy included includer /\
    old = ⟨package, .group included⟩ /\ new = ⟨package, .group includer⟩

/-- The given sets come first, then the other sets of two or more items that arise by
replacing groups of the package, each of them once. -/
def IsExpansion (conflicts : List ConflictSet) (package : PackageName)
    (groups : DependencyGroups) (result : List ConflictSet) : Prop :=
  ∃ appended, result = conflicts ++ appended /\ appended.Nodup /\ ∀ set, set ∈ appended <->
      2 <= set.card /\ IsAppended (Substitutes package groups) conflicts set

/-- If a group in some set is included by another group, then the first items with their
names belong to the package. -/
def FirstInPackage (conflicts : List ConflictSet) (package : PackageName)
    (groups : DependencyGroups) : Prop :=
  ∀ included includer, groups.IncludedBy included includer ->
    ∀ first, firstItem conflicts included = some first -> first.package = package /\
      ∀ other, firstItem conflicts includer = some other -> other.package = package

/-- The items of a set are not all the same group of the package or included by it,
unless the group is given as a set by itself. -/
def NoCollapse (conflicts : List ConflictSet) (package : PackageName)
    (groups : DependencyGroups) : Prop :=
  ∀ given ∈ conflicts, given.Nonempty -> ∀ group,
    (∀ item ∈ given, item = ⟨package, .group group⟩ \/
      Substitutes package groups item ⟨package, .group group⟩) ->
    {⟨package, .group group⟩} ∈ conflicts

lemma item_eq {kind : ConflictKind}
    (samePackage : item.package = package) (sameKind : item.kind = kind) :
    item = ⟨package, kind⟩ := by
  rw [<- samePackage, <- sameKind]

variable {given : ConflictSet}

lemma firstNamed_iff (inPackage : FirstInPackage conflicts package groups)
    (member : given ∈ conflicts) (mem : item ∈ given) (new : ConflictItem) :
    FirstNamed conflicts package groups item new <-> Substitutes package groups item new := by
  have replacement : ∀ included includer, groups.IncludedBy included includer ->
      ∀ first, firstItem conflicts included = some first ->
      itemFor conflicts package includer = ⟨package, .group includer⟩ := by
    intro included includer includes first isFirst
    have kind := @itemFor_kind conflicts package includer
    rw [itemFor] at kind ⊢
    cases known : firstItem conflicts includer with
    | none => rfl
    | some other =>
      rw [known] at kind
      exact item_eq ((inPackage _ _ includes first isFirst).2 other known) kind
  constructor
  · rintro ⟨included, includer, includes, first, same⟩
    exact ⟨included, includer, includes,
      item_eq (inPackage _ _ includes item first).1 (firstItem_kind first),
      same.symm.trans (replacement _ _ includes item first)⟩
  · rintro ⟨included, includer, includes, rfl, rfl⟩
    rcases exists_firstItem member mem rfl with ⟨first, isFirst⟩
    have same : first = ⟨package, .group included⟩ :=
      item_eq (inPackage _ _ includes first isFirst).1 (firstItem_kind isFirst)
    exact ⟨included, includer, includes, same ▸ isFirst, replacement _ _ includes first isFirst⟩

lemma isAppended_firstNamed_iff (inPackage : FirstInPackage conflicts package groups)
    (set : ConflictSet) :
    IsAppended (FirstNamed conflicts package groups) conflicts set <->
      IsAppended (Substitutes package groups) conflicts set := by
  refine and_congr_right fun _ => exists_congr fun given => and_congr_right fun member => ?_
  exact Replacement.arises_congr fun item mem => firstNamed_iff inPackage member mem

/-- All items of a set become the same one. -/
lemma eq_of_arises_singleton
    (arises : Replacement.Arises (Substitutes package groups) given {item}) :
    given.Nonempty /\ ∀ old ∈ given, old = item \/ Substitutes package groups old item := by
  rcases arises with ⟨choice, moves, image⟩
  refine ⟨Finset.image_nonempty.mp (image ▸ Finset.singleton_nonempty item), ?_⟩
  intro old mem
  have becomes : choice old = item :=
    Finset.mem_singleton.mp (image ▸ Finset.mem_image_of_mem choice mem)
  rw [<- becomes]
  exact (moves old mem).imp Eq.symm id

lemma arises_singleton (nonempty : given.Nonempty)
    (all : ∀ old ∈ given, old = item \/ Substitutes package groups old item) :
    Replacement.Arises (Substitutes package groups) given {item} :=
  ⟨fun _ => item, fun old mem => (all old mem).imp Eq.symm id,
    Finset.image_const nonempty item⟩

/-- Only groups of the package come from collapsing, because other items are kept. -/
theorem two_le_card_iff_noCollapse :
    (∀ set, IsAppended (Substitutes package groups) conflicts set -> 2 <= set.card) <->
      NoCollapse conflicts package groups := by
  constructor
  · intro large given member nonempty group all
    by_contra fresh
    have card := large {⟨package, .group group⟩} ⟨fresh, given, member, arises_singleton nonempty all⟩
    rw [Finset.card_singleton] at card
    exact absurd card (by decide)
  · rintro none set ⟨fresh, given, member, arises⟩
    by_contra small
    have few : set.card = 0 \/ set.card = 1 := by omega
    rcases few with empty | single
    · rw [Finset.card_eq_zero] at empty
      rcases arises with ⟨choice, _, image⟩
      rw [empty, Finset.image_eq_empty] at image
      exact fresh (empty ▸ image ▸ member)
    rcases Finset.card_eq_one.mp single with ⟨item, rfl⟩
    rcases eq_of_arises_singleton arises with ⟨nonempty, all⟩
    by_cases replaced : ∃ old ∈ given, Substitutes package groups old item
    · rcases replaced with ⟨old, _, included, includer, _, _, rfl⟩
      exact fresh (none given member nonempty includer all)
    · have kept : given = {item} := Finset.eq_singleton_iff_nonempty_unique_mem.mpr
        ⟨nonempty, fun old mem => (all old mem).resolve_right fun substitutes =>
          replaced ⟨old, mem, substitutes⟩⟩
      exact fresh (kept ▸ member)

/-- Exactly the right sets are added if and only if no set collapses, provided that the
names of the groups that are concerned stand for groups of the package. -/
theorem expandTransitiveGroupIncludes_isExpansion_iff (acyclic : groups.Acyclic)
    (sorts : (build conflicts package groups).Sorts
      (expansion.toposort (build conflicts package groups)))
    (inPackage : FirstInPackage conflicts package groups) :
    IsExpansion conflicts package groups
        (expansion.expandTransitiveGroupIncludes conflicts package groups) <->
      NoCollapse conflicts package groups := by
  rcases exists_appended acyclic sorts with ⟨appended, result, distinct, described⟩
  rw [<- two_le_card_iff_noCollapse, result]
  constructor
  · rintro ⟨other, same, _, expected⟩ set isAppended
    rw [<- append_cancel_left same] at expected
    exact ((expected set).mp ((described set).mpr
      ((isAppended_firstNamed_iff inPackage set).mpr isAppended))).1
  · intro large
    refine ⟨appended, rfl, distinct, fun set => ?_⟩
    rw [described, isAppended_firstNamed_iff inPackage]
    exact ⟨fun isAppended => ⟨large set isAppended, isAppended⟩, And.right⟩

end

/-! ## A group that includes another one -/

/-- Two groups, the second of which includes the first. -/
def innerOuter : DependencyGroups :=
  ⟨[("inner", []), ("outer", [.includeGroup "inner"])], by decide⟩

/-- The nodes are already sorted in the cases below. -/
def inOrder : Expansion where
  toposort graph := some graph.nodes
  canonicalOrder := ⟨id, fun _ => .refl _⟩
  setOrder := ⟨id, fun _ => .refl _⟩

/-- A conflict between two groups of a package. -/
def groupPair (package : PackageName) (first second : GroupName) : ConflictSet :=
  {⟨package, .group first⟩, ⟨package, .group second⟩}

lemma includes_innerOuter (includes : innerOuter.Includes included includer) :
    included = "inner" /\ includer = "outer" := by
  rcases includes with ⟨specifiers, entry, mem⟩
  simp only [innerOuter, mem_cons, Prod.mk.injEq, not_mem_nil, or_false] at entry
  rcases entry with ⟨rfl, rfl⟩ | ⟨rfl, rfl⟩
  · cases mem
  · rw [mem_singleton, DependencyGroupSpecifier.includeGroup.injEq] at mem
    exact ⟨mem, rfl⟩

lemma includedBy_innerOuter (path : innerOuter.IncludedBy included includer) :
    included = "inner" /\ includer = "outer" := by
  induction path with
  | single includes => exact includes_innerOuter includes
  | tail _ includes ih =>
    exact ⟨ih.1, (includes_innerOuter includes).2⟩

lemma innerOuter_acyclic : innerOuter.Acyclic := by
  intro group cycle
  rcases includedBy_innerOuter cycle with ⟨inner, outer⟩
  exact absurd (inner.symm.trans outer) (by decide)

theorem expandTransitiveGroupIncludes_innerOther :
    IsExpansion [groupPair "project" "inner" "other"] "project" innerOuter
      (inOrder.expandTransitiveGroupIncludes [groupPair "project" "inner" "other"] "project"
        innerOuter) := by
  refine (expandTransitiveGroupIncludes_isExpansion_iff innerOuter_acyclic ?_ ?_).mpr ?_
  · exact ⟨.refl _, by decide +kernel⟩
  · intro included includer path first isFirst
    rcases includedBy_innerOuter path with ⟨rfl, rfl⟩
    have known : firstItem [groupPair "project" "inner" "other"] "inner" =
        some ⟨"project", .group "inner"⟩ := by decide +kernel
    have unknown : firstItem [groupPair "project" "inner" "other"] "outer" = none := by
      decide +kernel
    rw [known, Option.some_inj] at isFirst
    refine ⟨isFirst ▸ rfl, fun other isOther => ?_⟩
    rw [unknown] at isOther
    cases isOther
  · intro given mem _ group all
    rw [mem_singleton.mp mem] at all
    -- The item `other` is included nowhere, and then `inner` would have to be included by it.
    have atOther := all ⟨"project", .group "other"⟩ (by decide +kernel)
    have atInner := all ⟨"project", .group "inner"⟩ (by decide +kernel)
    rcases atOther with same | ⟨included, includer, path, old, _⟩
    · rw [ConflictItem.mk.injEq, ConflictKind.group.injEq] at same
      rw [<- same.2] at atInner
      rcases atInner with same | ⟨_, includer, path, _, new⟩
      · exact absurd same (by decide)
      · rw [(includedBy_innerOuter path).2] at new
        exact absurd new (by decide)
    · rw [(includedBy_innerOuter path).1] at old
      exact absurd old (by decide)

/-- The set of both groups is followed by a set of one.  A group of another package with
the same name is replaced too. -/
theorem expandTransitiveGroupIncludes_innerOuter :
    ¬IsExpansion [groupPair "project" "inner" "outer"] "project" innerOuter
        (inOrder.expandTransitiveGroupIncludes [groupPair "project" "inner" "outer"] "project"
          innerOuter) /\
      ¬IsExpansion [groupPair "member" "inner" "other"] "project" innerOuter
        (inOrder.expandTransitiveGroupIncludes [groupPair "member" "inner" "other"] "project"
          innerOuter) := by
  constructor
  · rintro ⟨appended, result, _, expected⟩
    have computed : inOrder.expandTransitiveGroupIncludes [groupPair "project" "inner" "outer"]
        "project" innerOuter =
          [groupPair "project" "inner" "outer"] ++ [{⟨"project", .group "outer"⟩}] := by
      decide +kernel
    rw [computed] at result
    rw [<- append_cancel_left result] at expected
    have card := ((expected _).mp mem_cons_self).1
    exact absurd card (by decide)
  · rintro ⟨appended, result, _, expected⟩
    have computed : inOrder.expandTransitiveGroupIncludes [groupPair "member" "inner" "other"]
        "project" innerOuter = [groupPair "member" "inner" "other"] ++
          [{⟨"project", .group "outer"⟩, ⟨"member", .group "other"⟩}] := by
      decide +kernel
    rw [computed] at result
    rw [<- append_cancel_left result] at expected
    rcases ((expected _).mp mem_cons_self).2 with ⟨fresh, given, member, choice, moves, image⟩
    rw [mem_singleton.mp member] at moves image
    -- Nothing in the set belongs to the package, so no item moves.
    have kept : (groupPair "member" "inner" "other").image choice =
        groupPair "member" "inner" "other" := by
      refine (Finset.image_congr fun item mem => ?_).trans Finset.image_id
      refine (moves item mem).resolve_right fun ⟨included, _, _, old, _⟩ => ?_
      simp only [groupPair, Finset.coe_insert, Finset.coe_singleton, Set.mem_insert_iff,
        Set.mem_singleton_iff, old, ConflictItem.mk.injEq] at mem
      rcases mem with ⟨package, _⟩ | ⟨package, _⟩
      · exact absurd package (by decide)
      · exact absurd package (by decide)
    exact fresh (by rw [<- image, kept]; exact mem_cons_self)

end Expansion

end Uv.PypiTypes
