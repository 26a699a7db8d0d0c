import Uv.Library.Flow
import Uv.Library.Replacement
import Uv.Resolver.UniversalMarker

namespace Uv.PypiTypes

open Library Marker Resolver List

/-!
# Conflicts between groups that include others

Conflicts are given as sets of extras, groups and packages.  If a group of a set is
included by other groups, these conflict in its place, also through further groups.
The sets that follow are computed for one package with its table of groups.

The nodes of the graph of includes are the names of groups.  A name stands for the
first conflict item with it, if there is one, and for a group of the package
otherwise.  Items flow from included to including groups; what is recorded on the
way are the substitutions, and these are applied to the sets item by item.
-/

/-! ## Data -/

inductive DependencyGroupSpecifier where
  | requirement (text : String)
  | includeGroup (group : GroupName)
  | object (fields : List (String × String))
  deriving DecidableEq, Repr

/-- The groups of a package in the order of their names. -/
structure DependencyGroups where
  entries : List (GroupName × List DependencyGroupSpecifier)
  sorted : (entries.map Prod.fst).Pairwise (· < ·)

def DependencyGroups.keys (groups : DependencyGroups) : List GroupName :=
  groups.entries.map Prod.fst

inductive ConflictError where
  | replaceMissingConflictItem
  deriving DecidableEq, Repr

abbrev ConflictSet := Finset ConflictItem

namespace ConflictSet

/-- Items are ordered by the package, then extras before groups before the project
itself, then by name. -/
def sortKey (item : ConflictItem) : PackageName ×ₗ Nat ×ₗ String :=
  match item.kind with
  | .extra name => toLex (item.package, toLex (0, name))
  | .group name => toLex (item.package, toLex (1, name))
  | .project => toLex (item.package, toLex (2, ""))

lemma sortKey_injective : Function.Injective sortKey := by
  rintro ⟨package, kind⟩ ⟨otherPackage, otherKind⟩ same
  cases kind <;> cases otherKind <;>
    simp_all [sortKey, Prod.ext_iff]

def Before (first second : ConflictItem) : Prop :=
  sortKey first <= sortKey second

instance : DecidableRel Before := fun first second =>
  inferInstanceAs (Decidable (sortKey first <= sortKey second))

instance : IsTrans ConflictItem Before := ⟨fun _ _ _ early late => le_trans early late⟩
instance : Std.Total Before := ⟨fun first second => le_total (sortKey first) (sortKey second)⟩
instance : Std.Antisymm Before := ⟨fun _ _ early late => sortKey_injective (le_antisymm early late)⟩

/-- The items in order. -/
def iter (set : ConflictSet) : List ConflictItem :=
  Quot.liftOn set.val (List.insertionSort Before) fun first second same =>
    List.Perm.eq_of_pairwise' (List.pairwise_insertionSort Before first)
      (List.pairwise_insertionSort Before second)
      (((List.perm_insertionSort Before first).trans same).trans
        (List.perm_insertionSort Before second).symm)

@[simp]
lemma mem_iter {set : ConflictSet} {item : ConflictItem} : item ∈ iter set <-> item ∈ set := by
  rcases set with ⟨⟨items⟩, distinct⟩
  exact (perm_insertionSort Before items).mem_iff

def replacedItem (set : ConflictSet) (old new : ConflictItem) :
    Except ConflictError ConflictSet :=
  if old ∈ set then .ok (Replacement.replace old new set)
  else .error .replaceMissingConflictItem

end ConflictSet

/-! ## Sets and tables that are iterated -/

/-- The order in which a hash table goes through its entries. -/
structure HashOrder (Entry : Type) where
  arrange : List Entry -> List Entry
  perm : ∀ entries, (arrange entries).Perm entries

namespace IndexSet

variable {Entry : Type} [DecidableEq Entry]

def insert (entries : List Entry) (entry : Entry) : List Entry :=
  if entry ∈ entries then entries else entries ++ [entry]

def extend (entries new : List Entry) : List Entry :=
  new.foldl insert entries

variable {entries new : List Entry} {entry other : Entry}

lemma mem_insert : other ∈ insert entries entry <-> other ∈ entries \/ other = entry := by
  rw [insert]
  split
  next present =>
    refine ⟨.inl, fun either => either.elim id fun same => same ▸ present⟩
  next absent => rw [mem_append, mem_singleton]

lemma mem_extend : other ∈ extend entries new <-> other ∈ entries \/ other ∈ new := by
  induction new generalizing entries with
  | nil => simp only [extend, foldl_nil, not_mem_nil, or_false]
  | cons entry new ih =>
    rw [extend, foldl_cons, <- extend, ih, mem_insert, mem_cons, or_assoc]

lemma nodup_extend (distinct : entries.Nodup) : (extend entries new).Nodup := by
  induction new generalizing entries with
  | nil => exact distinct
  | cons entry new ih =>
    refine ih ?_
    rw [insert]
    split
    next => exact distinct
    next absent =>
      exact distinct.append (nodup_singleton entry) (disjoint_singleton.mpr absent)

lemma is_prefix_extend (entries new : List Entry) : entries <+: extend entries new := by
  induction new generalizing entries with
  | nil => exact prefix_rfl
  | cons entry new ih =>
    refine List.IsPrefix.trans ?_ (ih _)
    rw [insert]
    split
    next => exact prefix_rfl
    next => exact prefix_append _ _

end IndexSet

/-! ## The graph of includes -/

/-- A group with its conflict item and the canonical items that it starts with. -/
structure GroupNode where
  group : GroupName
  item : ConflictItem
  canonicalItems : List ConflictItem
  deriving DecidableEq, Repr

/-- The edges go from included to including groups. -/
structure IncludeGraph where
  nodes : List GroupNode
  edges : List (GroupNode × GroupNode)

namespace IncludeGraph

variable (nodes : List GroupNode)

def seen (group : GroupName) : Bool :=
  nodes.any fun node => node.group = group

/-- Only the name of the group is looked up, not the package. -/
def addDefined (item : ConflictItem) : List GroupNode :=
  match item.kind with
  | .group group => if seen nodes group then nodes else nodes ++ [⟨group, item, [item]⟩]
  | _ => nodes

def addRemaining (package : PackageName) (nodes : List GroupNode) (group : GroupName) :
    List GroupNode :=
  if seen nodes group then nodes else nodes ++ [⟨group, ⟨package, .group group⟩, []⟩]

variable (conflicts : List ConflictSet) (package : PackageName)

def nodesOf (groups : DependencyGroups) :
    List GroupNode :=
  groups.keys.foldl (addRemaining package)
    ((conflicts.flatMap ConflictSet.iter).foldl addDefined [])

def nodeOf (group : GroupName) : Option GroupNode :=
  nodes.find? fun node => node.group = group

def includedNode : DependencyGroupSpecifier -> Option GroupNode
  | .includeGroup group => nodeOf nodes group
  | _ => none

def edgesOf (groups : DependencyGroups) :
    List (GroupNode × GroupNode) :=
  groups.entries.flatMap fun entry =>
    match nodeOf nodes entry.1 with
    | none => []
    | some includer =>
      (entry.2.filterMap (includedNode nodes)).map fun included => (included, includer)

def build (groups : DependencyGroups) :
    IncludeGraph :=
  let nodes := nodesOf conflicts package groups
  ⟨nodes, edgesOf nodes groups⟩

/-- The edge that was added last comes first. -/
def neighbors (graph : IncludeGraph) (node : GroupNode) : List GroupNode :=
  ((graph.edges.filter fun edge => edge.1 = node).map Prod.snd).reverse

end IncludeGraph

/-! ## Expansion -/

/-- What the expansion takes from elsewhere: the topological sort, and the orders of the
hash tables. -/
structure Expansion where
  toposort : IncludeGraph -> Option (List GroupNode)
  canonicalOrder : HashOrder ConflictItem
  setOrder : HashOrder ConflictSet

namespace Expansion

def isGroup (item : ConflictItem) : Bool :=
  match item.kind with
  | .group _ => true
  | _ => false

def isInclude : DependencyGroupSpecifier -> Bool
  | .includeGroup _ => true
  | _ => false

/-- A table from canonical items to sets of items, by its pairs. -/
def substitutions (graph : IncludeGraph) (order : List GroupNode) :
    List (ConflictItem × ConflictItem) :=
  (Flow.run GroupNode.item graph.neighbors order ⟨GroupNode.canonicalItems, []⟩).found

/-- The sets with a canonical item after it is replaced, so far as they are new. -/
def newConflictSets (sets : List ConflictSet) (canonicalItem : ConflictItem)
    (subs : List ConflictItem) : List ConflictSet :=
  let replaced := (sets.filter fun set => canonicalItem ∈ set).flatMap fun set =>
    subs.filterMap fun sub => (set.replacedItem canonicalItem sub).toOption
  (replaced.filter fun set => set ∉ sets).dedup

variable (expansion : Expansion) (table : List (ConflictItem × ConflictItem))

def substitute (sets : List ConflictSet) (canonicalItem : ConflictItem) : List ConflictSet :=
  let subs := (table.filter fun entry => entry.1 = canonicalItem).map Prod.snd
  IndexSet.extend sets (expansion.setOrder.arrange (newConflictSets sets canonicalItem subs))

def conflictSets (seeded : List ConflictSet) :
    List ConflictSet :=
  (expansion.canonicalOrder.arrange (table.map Prod.fst).dedup).foldl
    (expansion.substitute table) seeded

def expandTransitiveGroupIncludes (conflicts : List ConflictSet) (package : PackageName)
    (groups : DependencyGroups) : List ConflictSet :=
  if ¬(conflicts.any fun set => set.iter.any isGroup) then conflicts
  else if ¬(groups.entries.any fun entry => entry.2.any isInclude) then conflicts
  else
    let graph := IncludeGraph.build conflicts package groups
    match expansion.toposort graph with
    | none => conflicts
    | some order =>
      let seeded := IndexSet.extend [] conflicts
      let sets := expansion.conflictSets (substitutions graph order) seeded
      conflicts ++ sets.drop seeded.length

end Expansion

end Uv.PypiTypes
