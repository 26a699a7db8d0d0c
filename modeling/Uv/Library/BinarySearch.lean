import Mathlib

namespace Uv.Library

open List Option

/-!
# Binary search by a comparison with a target

The search answers with the index of an element that compares equal, or with the index
at which the target can be inserted.  What it needs of the list is stated for pairs: of
two elements, the earlier one is below the target or the later one is above it.  In a
strictly increasing list this holds for every target, and then there is one answer only.
-/

variable {α : Type}

variable (compareTo : α -> Ordering)

/-- `ok` with the index that compares equal, or `error` with the place to insert at. -/
def binarySearchBy (list : List α) : Except Nat Nat :=
  let place := (list.takeWhile fun element => compareTo element == .lt).length
  if list[place]?.map compareTo = some .eq then .ok place else .error place

/-- Of two elements, the earlier one is below the target or the later one above it. -/
def Separated (list : List α) : Prop :=
  list.Pairwise fun first second => compareTo first = .lt \/ compareTo second = .gt

section

variable {compareTo : α -> Ordering} {list : List α} {index : Nat}

/-- The place to insert at splits the list into what is below and what is above. -/
structure InsertionPoint (compareTo : α -> Ordering) (list : List α) (index : Nat) : Prop where
  inside : index <= list.length
  below : ∀ element ∈ list.take index, compareTo element = .lt
  above : ∀ element ∈ list.drop index, compareTo element = .gt

lemma binarySearchBy_ok (found : binarySearchBy compareTo list = .ok index) :
    list[index]?.map compareTo = some .eq := by
  rw [binarySearchBy] at found
  split at found
  next equal =>
    cases found
    exact equal
  · cases found

lemma binarySearchBy_error (separated : Separated compareTo list)
    (missing : binarySearchBy compareTo list = .error index) :
    InsertionPoint compareTo list index := by
  rw [binarySearchBy] at missing
  split at missing
  · cases missing
  next different =>
    cases missing
    have whole := @takeWhile_append_dropWhile _ (fun element => compareTo element == .lt) list
    have lower : ∀ element ∈ list.takeWhile fun element => compareTo element == .lt,
        compareTo element = .lt := by
      intro element mem
      have below := mem_takeWhile_imp mem
      exact beq_iff_eq.mp below
    have head := @dropWhile_get_zero_not _ (fun element => compareTo element == .lt) list
    revert whole lower head different
    generalize list.takeWhile (fun element => compareTo element == .lt) = below
    generalize list.dropWhile (fun element => compareTo element == .lt) = rest
    rintro different rfl lower head
    refine ⟨by simp, by simpa using lower, fun element mem => ?_⟩
    rw [drop_left] at mem
    cases rest with
    | nil => cases mem
    | cons first others =>
      have notBelow : compareTo first ≠ .lt := fun less => head (Nat.succ_pos _) (beq_iff_eq.mpr less)
      rcases mem_cons.mp mem with rfl | mem
      · rw [getElem?_append_right le_rfl, Nat.sub_self, getElem?_cons_zero, map_some, some.injEq]
          at different
        cases order : compareTo element with
        | lt => exact absurd order notBelow
        | eq => exact absurd order different
        | gt => rfl
      · have pairs := (pairwise_cons.mp (pairwise_append.mp separated).2.1).1 element mem
        exact pairs.resolve_left notBelow

lemma insertIdx_eq (new : α) : ∀ {list : List α} {index : Nat}, index <= list.length ->
    list.insertIdx index new = list.take index ++ new :: list.drop index
  | _, 0, _ => by simp
  | [], index + 1, inside => absurd inside (Nat.not_succ_le_zero index)
  | head :: tail, index + 1, inside => by
    rw [List.insertIdx_succ_cons, insertIdx_eq new (Nat.le_of_succ_le_succ inside)]
    rfl

/-- Insertion at the place found keeps the list sorted. -/
lemma InsertionPoint.pairwise_insertIdx {related : α -> α -> Prop} {new : α}
    (point : InsertionPoint compareTo list index) (sorted : list.Pairwise related)
    (below : ∀ element, compareTo element = .lt -> related element new)
    (above : ∀ element, compareTo element = .gt -> related new element) :
    (list.insertIdx index new).Pairwise related := by
  rw [insertIdx_eq new point.inside]
  rw [<- take_append_drop index list, pairwise_append] at sorted
  rcases sorted with ⟨lower, upper, across⟩
  refine pairwise_append.mpr ⟨lower, pairwise_cons.mpr ⟨?_, upper⟩, ?_⟩
  · exact fun element mem => above element (point.above element mem)
  · intro element mem other mem'
    rcases mem_cons.mp mem' with rfl | mem'
    · exact below element (point.below element mem)
    · exact across element mem other mem'

end

end Uv.Library
