import Mathlib

namespace Uv.Library

open List

/-!
# Items that flow through an acyclic graph

Every node holds some items.  The nodes are visited in topological order; a visit
hands the items of the node on to each neighbor, and records that the items got there.

No node is visited before its predecessors, so its items are complete by then.  Hence
an item is recorded at a node exactly when some nonempty path leads there from a node
that held it in the beginning.
-/

/-- The items at each node, and the items recorded with the labels of nodes. -/
structure Flow (Node Item Label : Type) where
  weight : Node -> List Item
  found : List (Item × Label)

namespace Flow

variable {Node Item Label : Type} [DecidableEq Node] [DecidableEq Item] [DecidableEq Label]

section

variable (label : Node -> Label) (neighbors : Node -> List Node)

def handOn (node : Node) (flow : Flow Node Item Label) (neighbor : Node) :
    Flow Node Item Label :=
  { weight := Function.update flow.weight neighbor (flow.weight neighbor ∪ flow.weight node)
    found := flow.found ∪ (flow.weight node).map fun item => (item, label neighbor) }

def visit (flow : Flow Node Item Label) (node : Node) : Flow Node Item Label :=
  (neighbors node).foldl (handOn label node) flow

def run (order : List Node) (flow : Flow Node Item Label) : Flow Node Item Label :=
  order.foldl (visit label neighbors) flow

end

variable {label : Node -> Label} {neighbors : Node -> List Node}

/-! ## One visit -/

variable {node : Node} {flow : Flow Node Item Label} {item : Item}

lemma mem_weight_handOn {neighbor other : Node} :
    item ∈ (handOn label node flow neighbor).weight other <->
      item ∈ flow.weight other \/ other = neighbor /\ item ∈ flow.weight node := by
  by_cases same : other = neighbor
  · subst other
    simp only [handOn, Function.update_self, mem_union_iff, true_and]
  · simp only [handOn, Function.update_of_ne same, same, false_and, or_false]

variable {entry : Item × Label}

lemma mem_found_handOn {neighbor : Node} :
    entry ∈ (handOn label node flow neighbor).found <->
      entry ∈ flow.found \/ entry.1 ∈ flow.weight node /\ label neighbor = entry.2 := by
  rcases entry with ⟨item, name⟩
  simp only [handOn, mem_union_iff, mem_map, Prod.mk.injEq]
  constructor
  · rintro (before | ⟨source, held, rfl, same⟩)
    · exact .inl before
    · exact .inr ⟨held, same⟩
  · rintro (before | ⟨held, same⟩)
    · exact .inl before
    · exact .inr ⟨item, held, rfl, same⟩

variable {targets : List Node}

lemma mem_weight_foldl_handOn {other : Node} (irreflexive : node ∉ targets) :
    item ∈ (targets.foldl (handOn label node) flow).weight other <->
      item ∈ flow.weight other \/ other ∈ targets /\ item ∈ flow.weight node := by
  induction targets generalizing flow with
  | nil => simp only [foldl_nil, not_mem_nil, false_and, or_false]
  | cons target targets ih =>
    rw [mem_cons, not_or] at irreflexive
    rw [foldl_cons, ih irreflexive.2, mem_weight_handOn, mem_weight_handOn, mem_cons]
    simp only [irreflexive.1, false_and, or_false]
    tauto

lemma mem_found_foldl_handOn (irreflexive : node ∉ targets) :
    entry ∈ (targets.foldl (handOn label node) flow).found <->
      entry ∈ flow.found \/ entry.1 ∈ flow.weight node /\
        ∃ target ∈ targets, label target = entry.2 := by
  induction targets generalizing flow with
  | nil => simp only [foldl_nil, not_mem_nil, false_and, exists_false, and_false, or_false]
  | cons target targets ih =>
    rw [mem_cons, not_or] at irreflexive
    rw [foldl_cons, ih irreflexive.2, mem_found_handOn, mem_weight_handOn]
    simp only [irreflexive.1, false_and, or_false, exists_mem_cons_iff, and_or_left, or_assoc]

variable (irreflexive : ∀ node, node ∉ neighbors node)

include irreflexive

lemma mem_weight_visit {other : Node} :
    item ∈ (visit label neighbors flow node).weight other <->
      item ∈ flow.weight other \/ other ∈ neighbors node /\ item ∈ flow.weight node :=
  mem_weight_foldl_handOn (irreflexive node)

lemma mem_found_visit :
    entry ∈ (visit label neighbors flow node).found <->
      entry ∈ flow.found \/ entry.1 ∈ flow.weight node /\
        ∃ target ∈ neighbors node, label target = entry.2 :=
  mem_found_foldl_handOn (irreflexive node)

omit irreflexive

/-! ## Whole runs -/

/-- The items come along paths from where they were in the beginning. -/
structure Sound (label : Node -> Label) (neighbors : Node -> List Node)
    (start : Node -> List Item) (flow : Flow Node Item Label) : Prop where
  weight : ∀ node item, item ∈ flow.weight node -> ∃ source,
    item ∈ start source /\ Relation.ReflTransGen (fun node next => next ∈ neighbors node) source node
  found : ∀ entry ∈ flow.found, ∃ source target,
    entry.1 ∈ start source /\ label target = entry.2 /\
      Relation.TransGen (fun node next => next ∈ neighbors node) source target

/-- The visited nodes have handed on all that they hold. -/
structure Complete (label : Node -> Label) (neighbors : Node -> List Node) (done : List Node)
    (start : Node -> List Item) (flow : Flow Node Item Label) : Prop where
  start : ∀ node item, item ∈ start node -> item ∈ flow.weight node
  weight : ∀ node ∈ done, ∀ next ∈ neighbors node,
    ∀ item ∈ flow.weight node, item ∈ flow.weight next
  found : ∀ node ∈ done, ∀ next ∈ neighbors node,
    ∀ item ∈ flow.weight node, (item, label next) ∈ flow.found

section

variable {start : Node -> List Item} {flow : Flow Node Item Label}

lemma Sound.visit (irreflexive : ∀ node, node ∉ neighbors node)
    (sound : Sound label neighbors start flow) (node : Node) :
    Sound label neighbors start (visit label neighbors flow node) where
  weight other item held := by
    rcases (mem_weight_visit irreflexive).mp held with before | ⟨next, held⟩
    · exact sound.weight other item before
    · rcases sound.weight node item held with ⟨source, origin, path⟩
      exact ⟨source, origin, path.tail next⟩
  found entry recorded := by
    rcases (mem_found_visit irreflexive).mp recorded with before | ⟨held, target, next, same⟩
    · exact sound.found entry before
    · rcases sound.weight node entry.1 held with ⟨source, origin, path⟩
      exact ⟨source, target, origin, same, .tail' path next⟩

lemma Sound.run (irreflexive : ∀ node, node ∉ neighbors node)
    (sound : Sound label neighbors start flow) (order : List Node) :
    Sound label neighbors start (run label neighbors order flow) := by
  induction order generalizing flow with
  | nil => exact sound
  | cons node order ih => exact ih (sound.visit irreflexive node)

variable {done : List Node}

/-- The earlier nodes are not neighbors of the one that is visited, so they keep what
they had handed on. -/
lemma Complete.visit (irreflexive : ∀ node, node ∉ neighbors node)
    (complete : Complete label neighbors done start flow)
    (later : ∀ earlier ∈ done, earlier ∉ neighbors node) :
    Complete label neighbors (done ++ [node]) start (visit label neighbors flow node) := by
  have unchanged : ∀ earlier ∈ done ++ [node], ∀ item,
      item ∈ (Flow.visit label neighbors flow node).weight earlier ->
      item ∈ flow.weight earlier := by
    intro earlier visited item held
    rcases (mem_weight_visit irreflexive).mp held with before | ⟨next, _⟩
    · exact before
    rcases mem_append.mp visited with old | new
    · exact absurd next (later earlier old)
    · exact absurd (mem_singleton.mp new ▸ next) (irreflexive node)
  refine ⟨fun other item held => ?_, fun earlier visited next adjacent item held => ?_,
    fun earlier visited next adjacent item held => ?_⟩
  · exact (mem_weight_visit irreflexive).mpr (.inl (complete.start other item held))
  · have before := unchanged earlier visited item held
    rcases mem_append.mp visited with old | new
    · exact (mem_weight_visit irreflexive).mpr
        (.inl (complete.weight earlier old next adjacent item before))
    · rw [mem_singleton.mp new] at adjacent before
      exact (mem_weight_visit irreflexive).mpr (.inr ⟨adjacent, before⟩)
  · have before := unchanged earlier visited item held
    rcases mem_append.mp visited with old | new
    · exact (mem_found_visit irreflexive).mpr
        (.inl (complete.found earlier old next adjacent item before))
    · rw [mem_singleton.mp new] at adjacent before
      exact (mem_found_visit irreflexive).mpr (.inr ⟨before, next, adjacent, rfl⟩)

lemma Complete.run (irreflexive : ∀ node, node ∉ neighbors node) {order : List Node}
    (complete : Complete label neighbors done start flow)
    (sorted : (done ++ order).Pairwise fun earlier node => earlier ∉ neighbors node) :
    Complete label neighbors (done ++ order) start (run label neighbors order flow) := by
  induction order generalizing flow done with
  | nil => exact (append_nil done).symm ▸ complete
  | cons node order ih =>
    have later : ∀ earlier ∈ done, earlier ∉ neighbors node :=
      fun earlier old => (pairwise_append.mp sorted).2.2 earlier old node mem_cons_self
    rw [append_cons] at sorted ⊢
    exact ih (complete.visit irreflexive later) sorted

omit [DecidableEq Node] [DecidableEq Item] [DecidableEq Label] in
/-- A complete flow carries the items along every path. -/
lemma Complete.along (complete : Complete label neighbors done start flow)
    (covers : ∀ node next, next ∈ neighbors node -> node ∈ done) {source : Node}
    (origin : item ∈ start source)
    (path : Relation.ReflTransGen (fun node next => next ∈ neighbors node) source node) :
    item ∈ flow.weight node := by
  induction path with
  | refl => exact complete.start source item origin
  | tail _ adjacent ih =>
    exact complete.weight _ (covers _ _ adjacent) _ adjacent item ih

lemma mem_found_run_iff (irreflexive : ∀ node, node ∉ neighbors node)
    {order : List Node} (sorted : order.Pairwise fun earlier node => earlier ∉ neighbors node)
    (covers : ∀ node next, next ∈ neighbors node -> node ∈ order) :
    entry ∈ (run label neighbors order ⟨start, []⟩).found <->
      ∃ source target, entry.1 ∈ start source /\ label target = entry.2 /\
          Relation.TransGen (fun node next => next ∈ neighbors node) source target := by
  have sound : Sound label neighbors start ⟨start, []⟩ :=
    ⟨fun node item held => ⟨node, held, .refl⟩, forall_mem_nil _⟩
  have begun : Complete label neighbors [] start ⟨start, []⟩ :=
    ⟨fun _ _ held => held, forall_mem_nil _,
      forall_mem_nil _⟩
  have complete := begun.run irreflexive sorted
  constructor
  · exact (sound.run irreflexive order).found entry
  · rintro ⟨source, target, origin, same, path⟩
    rcases Relation.TransGen.tail'_iff.mp path with ⟨last, before, adjacent⟩
    have held := complete.along covers origin before
    have recorded := complete.found last (covers last target adjacent) target adjacent _ held
    rwa [same] at recorded

end

end Flow

end Uv.Library
