import Uv.Library.UnixPath

namespace Uv.CacheInfo

open Library List
open UnixPath (Component components)

/-!
# Globs grouped by directory

A glob is split into a base and a pattern, and the bases go into a trie whose edges
are components.  A node with patterns starts a group, which takes in what is reached
from it through ordinary names.  Paths are lists of components here, so that a buffer
is extended at its end.
-/

abbrev Path := List Component

/-- The bytes `*`, `{`, `}`, `?`, `[` and `]`. -/
def globSymbols : List UInt8 := [42, 123, 125, 63, 91, 93]

def isNormal : Component -> Bool
  | .normal _ => true
  | _ => false

def isGlobLike : Component -> Bool
  | .normal name => globSymbols.any fun symbol => name.1.contains symbol
  | _ => false

structure GlobParts where
  base : Path := []
  pattern : Path := []

namespace GlobParts

variable (glob : GlobParts) (globbing : Bool)

def push (part : Component) : GlobParts :=
  if globbing then { glob with pattern := glob.pattern ++ [part] }
  else { glob with base := glob.base ++ [part] }

/-- A component is handled one round late, when it is known not to be the last one. -/
def handle : Option Component -> GlobParts
  | some last => if last != .curDir then glob.push globbing last else glob
  | none => glob

/-- The pattern joined to the base. -/
def path : Path := glob.base ++ glob.pattern

end GlobParts

def splitLoop (glob : GlobParts) (globbing : Bool) (last : Option Component) : Path -> GlobParts
  | [] =>
    match last with
    | some last => glob.push (globbing || isNormal last) last
    | none => glob
  | part :: rest =>
    splitLoop (glob.handle globbing last) (globbing || isGlobLike part) (some part) rest

def splitGlob (pattern : UnixPath) : GlobParts := splitLoop {} false none (components pattern)

/-- Add an edge in its place, unless it is there. -/
def insertEdge (part : Component) (edges : List Component) : List Component :=
  if part ∈ edges then edges else edges.orderedInsert (fun left right => left.key <= right.key) part

/-- The edges are different and in order. -/
def Ordered (edges : List Component) : Prop := (edges.map Component.key).SortedLT

lemma Ordered.insertEdge {edges : List Component} (ordered : Ordered edges) (part : Component) :
    Ordered (insertEdge part edges) := by
  rw [CacheInfo.insertEdge]
  split
  next => exact ordered
  next fresh =>
    have sorted := (ordered.sortedLE.pairwise.orderedInsert part.key _).sortedLE
    have different := nodup_cons.mpr
      ⟨(mem_map_of_injective Component.key_injective).not.mpr fresh, ordered.nodup⟩
    rw [Ordered, map_orderedInsert _ (· <= ·) _ _ _ (fun _ _ => Iff.rfl) fun _ _ => Iff.rfl]
    exact sorted.sortedLT_of_nodup ((perm_orderedInsert _ _ _).nodup_iff.mpr different)

/-- A trie without children and patterns, or one with edges in their order. -/
inductive Trie where
  | default
  | node (edges : List Component) (ordered : Ordered edges) (child : Component -> Trie)
      (patterns : List Path)

abbrev Group := Path × List Path

namespace Trie

def insert (pattern : Path) : Path -> Trie -> Trie
  | [], .default => .node [] (by simp [Ordered, sortedLT_iff_pairwise]) (fun _ => .default) [pattern]
  | [], .node edges ordered child patterns => .node edges ordered child (patterns ++ [pattern])
  | part :: rest, .default =>
    .node [part] (by simp [Ordered, sortedLT_iff_pairwise]) (fun _ => insert pattern rest .default) []
  | part :: rest, .node edges ordered child patterns =>
    .node (insertEdge part edges) (ordered.insertEdge part) (Function.update child part
      (insert pattern rest (if part ∈ edges then child part else .default))) patterns

/-- What is collected at a node from its own patterns and from below its edges. -/
def collectNode (edges : List Component) (patterns : List Path) (patternPrefix : Path)
    (patternsBelow : Component -> List Path × List Group) (groupsBelow : Component -> List Group) :
    List Path × List Group :=
  (patterns.map (patternPrefix ++ ·) ++ edges.flatMap fun part =>
      if isNormal part then (patternsBelow part).1 else [],
    edges.flatMap fun part => if isNormal part then (patternsBelow part).2 else groupsBelow part)

mutual

/-- The patterns that are reached through ordinary names, and the groups behind other edges. -/
def collectPatterns : Trie -> Path -> Path -> List Path × List Group
  | .default, _, _ => ([], [])
  | .node edges _ child patterns, patternPrefix, groupPrefix =>
    collectNode edges patterns patternPrefix
      (fun part => collectPatterns (child part) (patternPrefix ++ [part]) (groupPrefix ++ [part]))
      fun part => collectGroups (child part) (groupPrefix ++ [part])

def collectGroups : Trie -> Path -> List Group
  | .default, _ => []
  | .node edges _ child patterns, groupPrefix =>
    if patterns.isEmpty then
      edges.flatMap fun part => collectGroups (child part) (groupPrefix ++ [part])
    else
      -- `collectPatterns` of this node
      let collected := collectNode edges patterns []
        (fun part => collectPatterns (child part) ([] ++ [part]) (groupPrefix ++ [part]))
        fun part => collectGroups (child part) (groupPrefix ++ [part])
      collected.2 ++ [(groupPrefix, collected.1)]

end

end Trie

def clusterGlobs (patterns : List UnixPath) : List Group :=
  ((patterns.map splitGlob).foldl (fun trie glob => .insert glob.pattern glob.base trie)
    Trie.default).collectGroups []

/-- The base of every group joined with its patterns. -/
def joined (groups : List Group) : List Path :=
  groups.flatMap fun group => group.2.map (group.1 ++ ·)

/-- One or more ordinary components lead from one path to the other. -/
def Reaches (base path : Path) : Prop :=
  ∃ names, names ≠ [] /\ names.all isNormal /\ path = base ++ names

/-! ## Splitting -/

def dropCurDir (path : Path) : Path := path.filter (· != .curDir)

def Plain (path : Path) : Prop := ∀ part ∈ path, isGlobLike part = false

namespace GlobParts

variable {glob : GlobParts} {globbing : Bool} {last : Option Component} {part : Component}

/-- The state of the loop.  Before the first glob the pattern is empty. -/
structure Splits (glob : GlobParts) (globbing : Bool) (last : Option Component) : Prop where
  plain : Plain glob.base
  early : globbing = false -> glob.pattern = [] /\ Plain last.toList

lemma Splits.push (splits : glob.Splits globbing (some part)) :
    (glob.push globbing part).Splits globbing none /\
      (glob.push globbing part).path = glob.path ++ [part] := by
  cases globbing with
  | true => exact ⟨⟨splits.plain, fun off => by cases off⟩, (append_assoc _ _ _).symm⟩
  | false =>
    rcases splits.early rfl with ⟨none, plain⟩
    refine ⟨⟨forall_mem_append.mpr ⟨splits.plain, plain⟩, fun _ => ⟨none, forall_mem_nil _⟩⟩, ?_⟩
    simp [GlobParts.push, path, none]

lemma Splits.handle (splits : glob.Splits globbing last) :
    (glob.handle globbing last).Splits globbing none /\
      dropCurDir (glob.handle globbing last).path = dropCurDir (glob.path ++ last.toList) := by
  have kept : glob.Splits globbing none :=
    ⟨splits.plain, fun off => ⟨(splits.early off).1, forall_mem_nil _⟩⟩
  cases last with
  | none => exact ⟨kept, by rw [GlobParts.handle, Option.toList_none, append_nil]⟩
  | some last =>
    by_cases dot : last = .curDir
    · subst dot
      exact ⟨kept, by simp [GlobParts.handle, dropCurDir]⟩
    · rw [GlobParts.handle, if_pos (bne_iff_ne.mpr dot)]
      exact ⟨splits.push.1, congrArg dropCurDir splits.push.2⟩

end GlobParts

lemma splitLoop_spec (rest : Path) : ∀ {glob : GlobParts} {globbing : Bool}
    {last : Option Component}, glob.Splits globbing last ->
    Plain (splitLoop glob globbing last rest).base /\
      dropCurDir (splitLoop glob globbing last rest).path =
        dropCurDir (glob.path ++ last.toList ++ rest) := by
  induction rest with
  | nil =>
    intro glob globbing last splits
    cases last with
    | none => exact ⟨splits.plain, by simp [splitLoop]⟩
    | some last =>
      have pushed := (⟨splits.plain, fun both => splits.early (Bool.or_eq_false_iff.mp both).1⟩ :
        glob.Splits (globbing || isNormal last) (some last)).push
      exact ⟨pushed.1.plain, by rw [append_nil]; exact congrArg dropCurDir pushed.2⟩
  | cons part rest ih =>
    intro glob globbing last splits
    rcases splits.handle with ⟨handled, same⟩
    have next : (glob.handle globbing last).Splits (globbing || isGlobLike part) (some part) :=
      ⟨handled.plain, fun both => ⟨(handled.early (Bool.or_eq_false_iff.mp both).1).1,
        forall_mem_singleton.mpr (Bool.or_eq_false_iff.mp both).2⟩⟩
    refine ⟨(ih next).1, (ih next).2.trans ?_⟩
    rw [show part :: rest = [part] ++ rest from rfl]
    simp only [dropCurDir, filter_append, Option.toList_some] at same ⊢
    rw [same, append_assoc _ _ (filter _ rest)]

lemma splitGlob_spec (pattern : UnixPath) : Plain (splitGlob pattern).base /\
    dropCurDir (splitGlob pattern).path = dropCurDir (components pattern) :=
  splitLoop_spec _ ⟨forall_mem_nil _, fun _ => ⟨rfl, forall_mem_nil _⟩⟩

/-! ## The trie as a list of entries -/

namespace Trie

/-- The patterns of a trie, each with the path to its node. -/
def entries : Trie -> List (Path × Path)
  | .default => []
  | .node edges _ child patterns =>
    patterns.map (fun pattern => ([], pattern)) ++
      edges.flatMap fun part => (child part).entries.map (Prod.map (part :: ·) id)

lemma entries_update {edges : List Component} {part : Component} (fresh : part ∉ edges)
    (child : Component -> Trie) (changed : Trie) :
    ((part :: edges).flatMap fun edge =>
      (Function.update child part changed edge).entries.map (Prod.map (edge :: ·) id)) =
    changed.entries.map (Prod.map (part :: ·) id) ++
      edges.flatMap fun edge => (child edge).entries.map (Prod.map (edge :: ·) id) := by
  rw [flatMap_cons, Function.update_self]
  refine congrArg _ (flatMap_congr fun edge mem => ?_)
  rw [Function.update_of_ne (ne_of_mem_of_not_mem mem fresh)]

lemma entries_insert (pattern path : Path) :
    ∀ trie : Trie, (trie.insert pattern path).entries.Perm ((path, pattern) :: trie.entries) := by
  induction path with
  | nil =>
    intro trie
    cases trie with
    | default => exact .refl _
    | node edges ordered child patterns =>
      rw [insert, entries, map_append, append_assoc]
      exact perm_middle
  | cons part rest ih =>
    intro trie
    have grown (old : Trie) := (ih old).map (Prod.map (part :: ·) id)
    cases trie with
    | default => simpa [insert, entries] using grown .default
    | node edges ordered child patterns =>
      refine (Perm.append_left _ ?_).trans perm_middle
      by_cases known : part ∈ edges
      · -- The edge is moved to the front of the others.
        have front := perm_cons_erase known
        have back := (front.flatMap_right fun edge =>
          (child edge).entries.map (Prod.map (edge :: ·) id)).symm
        rw [insertEdge, if_pos known, if_pos known]
        refine (front.flatMap_right _).trans ?_
        rw [entries_update (Nodup.of_map _ ordered.nodup).not_mem_erase]
        exact ((grown _).append_right _).trans (back.cons (part :: rest, pattern))
      · rw [insertEdge, if_neg known, if_neg known]
        refine ((perm_orderedInsert _ part edges).flatMap_right _).trans ?_
        rw [entries_update known]
        exact (grown _).append_right _

/-! ## Where groups start -/

structure IsStart (trie : Trie) (path : Path) : Prop where
  listed : ∃ pattern, (path, pattern) ∈ trie.entries
  unreached : ∀ entry ∈ trie.entries, ¬ Reaches entry.1 path

variable {edges : List Component} {ordered : Ordered edges} {child : Component -> Trie}
  {patterns : List Path}

lemma IsStart.cons {part : Component} {path : Path} (start : (child part).IsStart path)
    (mem : part ∈ edges) (free : patterns = [] \/ (part :: path).all isNormal = false) :
    (node edges ordered child patterns).IsStart (part :: path) := by
  rcases start with ⟨⟨pattern, listed⟩, unreached⟩
  refine ⟨⟨pattern, mem_append_right _ (mem_flatMap_of_mem mem (mem_map_of_mem listed))⟩, ?_⟩
  simp only [entries, mem_append, mem_flatMap, mem_map]
  rintro _ (⟨pattern, own, rfl⟩ | ⟨other, _, entry, given, rfl⟩) ⟨names, some, normal, same⟩
  · rcases free with none | other
    · simp [none] at own
    · rw [same, nil_append, normal] at other
      cases other
  · obtain ⟨rfl, rfl⟩ := List.cons.inj same
    exact unreached entry given ⟨names, some, normal, rfl⟩

lemma isStart_nil (some : patterns ≠ []) : (node edges ordered child patterns).IsStart [] := by
  obtain ⟨pattern, rest, rfl⟩ := exists_cons_of_ne_nil some
  refine ⟨⟨pattern, mem_append_left _ mem_cons_self⟩, ?_⟩
  rintro entry _ ⟨names, some, _, same⟩
  exact some (append_eq_nil_iff.mp same.symm).2

/-! ## What is collected -/

/-- The paths of all entries behind the path to the trie. -/
def paths (groupPrefix : Path) (trie : Trie) : List Path :=
  trie.entries.map fun entry => groupPrefix ++ (entry.1 ++ entry.2)

lemma paths_node (groupPrefix : Path) :
    paths groupPrefix (node edges ordered child patterns) = patterns.map (groupPrefix ++ ·) ++
      edges.flatMap fun part => paths (groupPrefix ++ [part]) (child part) := by
  simp [paths, entries, map_flatMap, Function.comp_def]

/-- All paths are in the groups, which start where groups may start. -/
structure Grouped (trie : Trie) (groupPrefix : Path) (groups : List Group) : Prop where
  joined : (joined groups).Perm (paths groupPrefix trie)
  starts : ∀ group ∈ groups, ∃ path, group.1 = groupPrefix ++ path /\ trie.IsStart path

/-- All paths are in the groups or belong to the base, which reaches no group. -/
structure Collected (trie : Trie) (base groupPrefix : Path)
    (collected : List Path × List Group) : Prop where
  joined : (collected.1.map (base ++ ·) ++ CacheInfo.joined collected.2).Perm (paths groupPrefix trie)
  starts : ∀ group ∈ collected.2, ∃ path, group.1 = groupPrefix ++ path /\ trie.IsStart path /\
    path.all isNormal = false

lemma Collected.node {base patternPrefix : Path}
    {patternsBelow : Component -> List Path × List Group} {groupsBelow : Component -> List Group}
    (normal : ∀ part, (child part).Collected base (base ++ patternPrefix ++ [part])
      (patternsBelow part))
    (other : ∀ part, (child part).Grouped (base ++ patternPrefix ++ [part]) (groupsBelow part)) :
    (Trie.node edges ordered child patterns).Collected base (base ++ patternPrefix)
      (collectNode edges patterns patternPrefix patternsBelow groupsBelow) := by
  constructor
  · rw [paths_node]
    simp only [collectNode, CacheInfo.joined, map_append, map_map, map_flatMap, flatMap_assoc,
      append_assoc, Function.comp_def]
    refine .append_left _ ((flatMap_append_perm edges _ _).trans (.flatMap_left _ fun part _ => ?_))
    rw [<- append_assoc]
    cases isNormal part with
    | true => exact (normal part).joined
    | false => exact (other part).joined
  · intro group mem
    obtain ⟨part, edge, mem⟩ := mem_flatMap.mp mem
    have found : ∃ path, group.1 = base ++ patternPrefix ++ [part] ++ path /\
        (child part).IsStart path /\ (part :: path).all isNormal = false := by
      split at mem
      next =>
        obtain ⟨path, same, start, stops⟩ := (normal part).starts group mem
        exact ⟨path, same, start, by rw [all_cons, stops, Bool.and_false]⟩
      next stops =>
        obtain ⟨path, same, start⟩ := (other part).starts group mem
        exact ⟨path, same, start, by rw [all_cons, Bool.eq_false_iff.mpr stops, Bool.false_and]⟩
    obtain ⟨path, same, start, stops⟩ := found
    exact ⟨part :: path, same.trans (append_assoc _ _ _), start.cons edge (.inr stops), stops⟩

lemma collected_grouped (trie : Trie) :
    (∀ base patternPrefix, trie.Collected base (base ++ patternPrefix)
      (trie.collectPatterns patternPrefix (base ++ patternPrefix))) /\
    ∀ groupPrefix, trie.Grouped groupPrefix (trie.collectGroups groupPrefix) := by
  induction trie with
  | default => exact ⟨fun _ _ => ⟨.refl _, forall_mem_nil _⟩, fun _ => ⟨.refl _, forall_mem_nil _⟩⟩
  | node edges ordered child patterns ih =>
    have all (base patternPrefix : Path) :=
      @Collected.node edges ordered child patterns base patternPrefix _ _
        (fun part => append_assoc base _ _ ▸ (ih part).1 base (patternPrefix ++ [part]))
        fun part => (ih part).2 _
    refine ⟨all, fun groupPrefix => ?_⟩
    rw [collectGroups]
    split
    next none =>
      rw [List.isEmpty_iff] at none
      constructor
      · rw [paths_node, none, joined, flatMap_assoc]
        exact .flatMap_left _ fun part _ => ((ih part).2 _).joined
      · intro group mem
        obtain ⟨part, edge, mem⟩ := mem_flatMap.mp mem
        obtain ⟨path, same, start⟩ := ((ih part).2 _).starts group mem
        exact ⟨part :: path, same.trans (append_assoc _ _ _), start.cons edge (.inl none)⟩
    next some =>
      have own := all groupPrefix []
      simp only [append_nil] at own
      constructor
      · simpa [joined] using perm_append_comm.trans own.joined
      · intro group mem
        rcases mem_append.mp mem with mem | mem
        · obtain ⟨path, same, start, _⟩ := own.starts group mem
          exact ⟨path, same, start⟩
        · rw [mem_singleton.mp mem]
          exact ⟨[], (append_nil _).symm, isStart_nil fun none => some (isEmpty_iff.mpr none)⟩

lemma entries_foldl (globs : List GlobParts) : ∀ trie : Trie,
    (globs.foldl (fun trie glob => trie.insert glob.pattern glob.base) trie).entries.Perm
      (trie.entries ++ globs.map fun glob => (glob.base, glob.pattern)) := by
  induction globs with
  | nil => exact fun trie => .of_eq (append_nil _).symm
  | cons glob globs ih =>
    intro trie
    exact (ih _).trans (((entries_insert _ _ trie).append_right _).trans perm_middle.symm)

end Trie

/-- The groups hold the globs that were given, their bases are plain, and no base lies
below another one. -/
theorem clusterGlobs_spec (globs : List UnixPath) :
    ((joined (clusterGlobs globs)).map dropCurDir).Perm
        (globs.map fun glob => dropCurDir (components glob)) /\
      (∀ group ∈ clusterGlobs globs, ∀ part ∈ group.1, isGlobLike part = false) /\
      ∀ group ∈ clusterGlobs globs, ∀ other ∈ clusterGlobs globs,
        ¬ Reaches group.1 other.1 := by
  let trie := (globs.map splitGlob).foldl (fun trie glob => .insert glob.pattern glob.base trie)
    Trie.default
  have listed : trie.entries.Perm
      ((globs.map splitGlob).map fun glob => (glob.base, glob.pattern)) :=
    Trie.entries_foldl _ .default
  have starts : ∀ group ∈ clusterGlobs globs, trie.IsStart group.1 := by
    intro group mem
    obtain ⟨path, same, start⟩ := ((Trie.collected_grouped trie).2 []).starts group mem
    rwa [same]
  refine ⟨?_, fun group mem => ?_, fun group mem other mem' => ?_⟩
  · refine (((Trie.collected_grouped trie).2 []).joined.trans (listed.map _)).map dropCurDir |>.trans ?_
    simp only [map_map]
    exact .of_eq (map_congr_left fun glob _ => (splitGlob_spec glob).2)
  · obtain ⟨pattern, entry⟩ := (starts group mem).listed
    obtain ⟨parts, given, same⟩ := mem_map.mp (listed.mem_iff.mp entry)
    obtain ⟨glob, _, rfl⟩ := mem_map.mp given
    rw [<- congrArg Prod.fst same]
    exact (splitGlob_spec glob).1
  · obtain ⟨pattern, entry⟩ := (starts group mem).listed
    exact (starts other mem').unreached _ entry

/-- The groups of `b/*` and `a/*` come in the order of their bases. -/
example : (clusterGlobs [[98, 47, 42], [97, 47, 42]]).map (fun group => group.1.map Component.bytes) =
    [[[97]], [[98]]] := by
  decide +kernel

end Uv.CacheInfo
