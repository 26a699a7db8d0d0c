import Mathlib

namespace Uv.Library

open List

/-!
# Dropping items one after the other

A list is walked once.  Each item is dropped if it is removable in view of all
the others that are still there, the ones kept so far and the ones to come.  A
property that every single removal keeps holds of the result.  If a removal never
makes an item removable that was not, the result is settled: no item of it can be
dropped, in whatever order its items are listed.
-/

variable {α : Type} (removable : List α -> α -> Bool)

/-- The walk over the items to come, after some items that were kept. -/
def pruneFrom (kept : List α) : List α -> List α
  | [] => kept
  | item :: rest =>
    if removable (kept ++ rest) item then pruneFrom kept rest
    else pruneFrom (kept ++ [item]) rest

def prune (items : List α) : List α := pruneFrom removable [] items

/-- No item is removable in view of the others. -/
def Settled (items : List α) : Prop :=
  ∀ item others, items.Perm (item :: others) -> removable others item = false

/-- The order of the others does not matter, and among valid items a removal does
not make another item removable. -/
structure Stable (valid : α -> Prop) : Prop where
  perm {others others' : List α} (item : α) (same : others.Perm others') :
    removable others item = removable others' item
  remove {item other : α} {others : List α} (own : valid item) (given : valid other)
    (needed : removable (other :: others) item = false)
    (dropped : removable (item :: others) other = true) : removable others item = false

section

variable {removable} {property : List α -> Prop}

/-- What each removal keeps holds of the result. -/
lemma pruneFrom_induct (step : ∀ before item after, property (before ++ item :: after) ->
      removable (before ++ after) item -> property (before ++ after)) (todo : List α) :
    ∀ kept, property (kept ++ todo) -> property (pruneFrom removable kept todo) := by
  induction todo with
  | nil =>
    intro kept holds
    rw [append_nil] at holds
    exact holds
  | cons item rest ih =>
    intro kept holds
    rw [pruneFrom]
    split
    next dropped => exact ih kept (step kept item rest holds dropped)
    · apply ih
      rw [append_assoc]
      exact holds

variable {items : List α}

lemma prune_induct (step : ∀ before item after, property (before ++ item :: after) ->
      removable (before ++ after) item -> property (before ++ after))
    (holds : property items) : property (prune removable items) :=
  pruneFrom_induct step items [] holds

lemma pruneFrom_sublist (todo : List α) :
    ∀ kept, (pruneFrom removable kept todo).Sublist (kept ++ todo) := by
  intro kept
  refine @pruneFrom_induct α removable (fun list => list.Sublist (kept ++ todo)) ?_ todo kept
    (List.Sublist.refl _)
  intro before item after sublist _
  exact ((sublist_cons_self item after).append_left before).trans sublist

lemma prune_sublist (items : List α) : (prune removable items).Sublist items :=
  pruneFrom_sublist items []

lemma exists_perm_cons {item : α} (mem : item ∈ items) :
    ∃ others, items.Perm (item :: others) := by
  rcases append_of_mem mem with ⟨before, after, split⟩
  exact ⟨before ++ after, split ▸ perm_middle⟩

/-- The items that were kept stay needed while the walk goes on. -/
lemma settled_pruneFrom {valid : α -> Prop} (stable : Stable removable valid) (todo : List α) :
    ∀ kept, (∀ item ∈ kept ++ todo, valid item) ->
      (∀ item others, kept.Perm (item :: others) -> removable (others ++ todo) item = false) ->
      Settled removable (pruneFrom removable kept todo) := by
  induction todo with
  | nil =>
    intro kept _ needed item others same
    have last := needed item others same
    rw [append_nil] at last
    exact last
  | cons next rest ih =>
    intro kept all needed
    have nextValid := all next (mem_append_right _ mem_cons_self)
    rw [pruneFrom]
    split
    next dropped =>
      apply ih
      · intro item mem
        apply all
        rcases mem_append.mp mem with early | late
        · exact mem_append_left _ early
        · exact mem_append_right _ (mem_cons_of_mem _ late)
      · intro item others same
        have own := all item
          (mem_append_left _ (same.mem_iff.mpr mem_cons_self))
        have before := needed item others same
        rw [stable.perm item perm_middle] at before
        rw [stable.perm next (same.append_right rest)] at dropped
        exact stable.remove own nextValid before dropped
    next kept' =>
      apply ih
      · rw [append_assoc]
        exact all
      · intro item others same
        rw [Bool.not_eq_true] at kept'
        rcases mem_append.mp (same.mem_iff.mpr mem_cons_self) with mem | last
        · rcases exists_perm_cons mem with ⟨less, split⟩
          have swapped : others.Perm (less ++ [next]) :=
            (same.symm.trans (split.append_right [next])).cons_inv
          rw [stable.perm item (swapped.append_right rest), append_assoc]
          exact needed item less split
        · rw [mem_singleton.mp last] at same ⊢
          have unchanged : others.Perm kept :=
            (same.symm.trans perm_append_comm).cons_inv
          rw [stable.perm next (unchanged.append_right rest)]
          exact kept'

lemma settled_prune {valid : α -> Prop} (stable : Stable removable valid)
    (all : ∀ item ∈ items, valid item) : Settled removable (prune removable items) := by
  refine settled_pruneFrom stable items [] all ?_
  intro item others same
  exact absurd same (not_perm_nil_cons item others)

lemma pruneFrom_of_settled (todo : List α) :
    ∀ kept, Settled removable (kept ++ todo) -> pruneFrom removable kept todo = kept ++ todo := by
  induction todo with
  | nil => exact fun kept _ => (append_nil kept).symm
  | cons item rest ih =>
    intro kept settled
    have needed := settled item (kept ++ rest) perm_middle
    rw [pruneFrom, needed, if_neg Bool.false_ne_true, ih, append_assoc, singleton_append]
    rw [append_assoc]
    exact settled

/-- A settled list is left as it is. -/
lemma prune_of_settled (settled : Settled removable items) :
    prune removable items = items :=
  pruneFrom_of_settled items [] settled

lemma Settled.perm {items' : List α} (settled : Settled removable items)
    (same : items.Perm items') : Settled removable items' :=
  fun item others split => settled item others (same.trans split)

end

end Uv.Library
