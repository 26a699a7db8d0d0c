import Mathlib

namespace Uv.Library

open Std

/-!
# Maps that are kept in the order of their keys

An ordered map is the list of its entries.  Looking up and inserting walk along the list
until the key is reached or passed.  Both stop at the same place whatever the list is, so
the laws below hold without assuming that the list is in order; only the order in which
the entries come out needs that.
-/

namespace SortedMap

variable {Key Value : Type} [Ord Key]

def find (key : Key) : List (Key × Value) -> Option Value
  | [] => none
  | entry :: map =>
    match compare key entry.1 with
    | .lt => none
    | .eq => some entry.2
    | .gt => find key map

/-- Insert an entry, or replace the value of its key. -/
def insert (key : Key) (value : Value) : List (Key × Value) -> List (Key × Value)
  | [] => [(key, value)]
  | entry :: map =>
    match compare key entry.1 with
    | .lt => (key, value) :: entry :: map
    | .eq => (key, value) :: map
    | .gt => entry :: insert key value map

variable {key : Key} {value : Value} {map : List (Key × Value)}

lemma mem_insert {entry : Key × Value} (mem : entry ∈ insert key value map) :
    entry = (key, value) \/ entry ∈ map := by
  induction map with
  | nil => exact .inl (List.mem_singleton.mp mem)
  | cons first map ih =>
    rw [insert] at mem
    split at mem
    · exact List.mem_cons.mp mem
    · rcases List.mem_cons.mp mem with same | mem
      · exact .inl same
      · exact .inr (List.mem_cons_of_mem _ mem)
    · rcases List.mem_cons.mp mem with rfl | mem
      · exact .inr List.mem_cons_self
      · exact (ih mem).imp_right (List.mem_cons_of_mem _)

variable [LawfulEqOrd Key]

lemma mem_of_find (found : find key map = some value) : (key, value) ∈ map := by
  induction map with
  | nil => cases found
  | cons first map ih =>
    rw [find] at found
    split at found
    next => cases found
    next same =>
      rw [LawfulEqCmp.compare_eq_iff_eq.mp same, <- Option.some.inj found]
      exact List.mem_cons_self
    next => exact List.mem_cons_of_mem _ (ih found)

@[simp] lemma find_insert_self (key : Key) (value : Value) (map : List (Key × Value)) :
    find key (insert key value map) = some value := by
  induction map with
  | nil => simp [insert, find]
  | cons first map ih =>
    cases order : compare key first.1 with
    | lt => simp [insert, find, order]
    | eq => simp [insert, find, order]
    | gt => simp [insert, find, order, ih]

@[simp] lemma insert_insert_self (key : Key) (first second : Value) (map : List (Key × Value)) :
    insert key second (insert key first map) = insert key second map := by
  induction map with
  | nil => simp [insert]
  | cons entry map ih =>
    cases order : compare key entry.1 with
    | lt => simp [insert, order]
    | eq => simp [insert, order]
    | gt => simp [insert, order, ih]

/-- Writing back what was found changes nothing. -/
lemma insert_of_find (found : find key map = some value) : insert key value map = map := by
  induction map with
  | nil => cases found
  | cons first map ih =>
    rw [find] at found
    split at found
    next => cases found
    next same =>
      rw [insert, same, LawfulEqCmp.compare_eq_iff_eq.mp same, <- Option.some.inj found]
    next order => rw [insert, order, ih found]

variable [TransOrd Key]

lemma find_insert_of_ne {other : Key} (different : other ≠ key) (value : Value)
    (map : List (Key × Value)) : find other (insert key value map) = find other map := by
  have unequal : compare other key ≠ .eq :=
    fun same => different (LawfulEqCmp.compare_eq_iff_eq.mp same)
  induction map with
  | nil =>
    cases order : compare other key with
    | lt => simp [insert, find, order]
    | eq => exact absurd order unequal
    | gt => simp [insert, find, order]
  | cons first map ih =>
    cases order : compare key first.1 with
    | lt =>
      cases others : compare other key with
      | lt => simp [insert, find, order, others, TransCmp.lt_trans others order]
      | eq => exact absurd others unequal
      | gt => simp [insert, find, order, others]
    | eq =>
      rw [insert, order]
      have same : key = first.1 := LawfulEqCmp.compare_eq_iff_eq.mp order
      cases others : compare other first.1 with
      | lt => simp [find, same, others]
      | eq => exact absurd (same ▸ others) unequal
      | gt => simp [find, same, others]
    | gt => simp [insert, find, order, ih]

lemma insert_comm_of_lt {small large : Key} (order : compare small large = .lt)
    (first second : Value) (map : List (Key × Value)) :
    insert small first (insert large second map) =
      insert large second (insert small first map) := by
  have reverse : compare large small = .gt := OrientedCmp.gt_of_lt order
  induction map with
  | nil => simp [insert, order, reverse]
  | cons entry map ih =>
    cases atLarge : compare large entry.1 with
    | lt =>
      have atSmall := TransCmp.lt_trans order atLarge
      simp [insert, atLarge, atSmall, order, reverse]
    | eq =>
      have atSmall : compare small entry.1 = .lt := by
        rwa [<- LawfulEqCmp.compare_eq_iff_eq.mp atLarge]
      simp [insert, atLarge, atSmall, order, reverse]
    | gt =>
      cases atSmall : compare small entry.1 with
      | lt => simp [insert, atLarge, atSmall, reverse]
      | eq => simp [insert, atLarge, atSmall, reverse]
      | gt => simp [insert, atLarge, atSmall, ih]

lemma insert_comm {one other : Key} (different : one ≠ other) (first second : Value)
    (map : List (Key × Value)) :
    insert one first (insert other second map) = insert other second (insert one first map) := by
  cases order : compare one other with
  | lt => exact insert_comm_of_lt order first second map
  | eq => exact absurd (LawfulEqCmp.compare_eq_iff_eq.mp order) different
  | gt => exact (insert_comm_of_lt (OrientedCmp.gt_iff_lt.mp order) second first map).symm

end SortedMap
end Uv.Library
