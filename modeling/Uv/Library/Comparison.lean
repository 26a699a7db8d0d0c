import Mathlib

namespace Uv.Library

/-!
# Comparison functions given by a key

A comparison function that returns an `Ordering` is a total preorder when it
compares the images of its arguments under a map into a linear order.  Such a
map is called a key.  Keys compose: a chain of comparisons has the
lexicographic product as its key, an optional component has a key with a new
least element, and a list has the list of the keys.
-/

variable {α β κ μ : Type*}

/-- The comparison of two values is that of their keys. -/
def OrderedBy [LinearOrder κ] (cmp : α -> α -> Ordering) (key : α -> κ) : Prop :=
  ∀ left right, cmp left right = compare (key left) (key right)

namespace OrderedBy

section

variable [LinearOrder κ] {cmp : α -> α -> Ordering} {key : α -> κ} (ordered : OrderedBy cmp key)
include ordered

variable (left right : α)

lemma lt_iff : cmp left right = .lt <-> key left < key right := by
  rw [ordered left right, compare_lt_iff_lt]

lemma eq_iff : cmp left right = .eq <-> key left = key right := by
  rw [ordered left right, compare_eq_iff_eq]

lemma gt_iff : cmp left right = .gt <-> key right < key left := by
  rw [ordered left right, compare_gt_iff_gt]

lemma isLE_iff : (cmp left right).isLE <-> key left <= key right := by
  rw [ordered left right, <- Ordering.ne_gt_iff_isLE]
  exact compare_le_iff_le

lemma swap (left right : α) : (cmp left right).swap = cmp right left := by
  rw [ordered left right, ordered right left]
  exact (Std.OrientedOrd.eq_swap).symm

lemma trans {left middle right : α} (first : (cmp left middle).isLE)
    (second : (cmp middle right).isLE) : (cmp left right).isLE := by
  rw [ordered.isLE_iff] at first second ⊢
  exact first.trans second

lemma comap (map : β -> α) : OrderedBy (fun left right => cmp (map left) (map right))
    (fun value => key (map value)) :=
  fun left right => ordered (map left) (map right)

end

/-- A comparison that falls through to the next one on equality. -/
lemma lex [LinearOrder κ] [LinearOrder μ] {first second : α -> α -> Ordering}
    {firstKey : α -> κ} {secondKey : α -> μ} (ordered : OrderedBy first firstKey)
    (orderedNext : OrderedBy second secondKey) :
    OrderedBy (fun left right => (first left right).then (second left right))
      (fun value => toLex (firstKey value, secondKey value)) := by
  intro left right
  change (first left right).then (second left right) = _
  rw [ordered left right, orderedNext left right]
  rfl

variable {cmp : α -> α -> Ordering} {key : α -> κ}

/-- It is enough that each outcome is the right relation between the keys. -/
lemma of_compares [LinearOrder κ]
    (compares : ∀ left right, (cmp left right).Compares (key left) (key right)) :
    OrderedBy cmp key :=
  fun left right => ((compare_iff _ _).mpr (compares left right)).symm

lemma compares [LinearOrder κ] (ordered : OrderedBy cmp key) (left right : α) :
    (cmp left right).Compares (key left) (key right) :=
  (compare_iff _ _).mp (ordered left right).symm

/-- An optional component, with the missing value first. -/
lemma option [LinearOrder κ]
    (ordered : OrderedBy cmp key) {compareOption : Option α -> Option α -> Ordering}
    (bothNone : compareOption none none = .eq)
    (noneSome : ∀ value, compareOption none (some value) = .lt)
    (someNone : ∀ value, compareOption (some value) none = .gt)
    (bothSome : ∀ left right, compareOption (some left) (some right) = cmp left right) :
    OrderedBy compareOption
      (fun value => value.elim (⊥ : WithBot κ) fun value => (key value : WithBot κ)) := by
  apply of_compares
  intro left right
  cases left with
  | none =>
    cases right with
    | none => exact bothNone ▸ rfl
    | some right => exact noneSome right ▸ WithBot.bot_lt_coe _
  | some left =>
    cases right with
    | none => exact someNone left ▸ WithBot.bot_lt_coe _
    | some right =>
      have given := ordered.compares left right
      rw [bothSome]
      generalize cmp left right = outcome at given ⊢
      cases outcome with
      | lt => exact WithBot.coe_lt_coe.mpr given
      | eq => exact congrArg _ given
      | gt => exact WithBot.coe_lt_coe.mpr given

/-- Lists compared from the front, with a proper prefix first. -/
lemma list [LinearOrder κ] (ordered : OrderedBy cmp key) :
    OrderedBy (List.compareLex cmp) (fun list => list.map key) := by
  apply of_compares
  intro left
  induction left with
  | nil =>
    intro right
    cases right with
    | nil => exact rfl
    | cons head tail => exact List.nil_lt_cons _ _
  | cons head tail ih =>
    intro right
    cases right with
    | nil => exact List.nil_lt_cons _ _
    | cons head' tail' =>
      have heads := ordered.compares head head'
      have tails := ih tail'
      rw [List.compareLex_cons_cons]
      generalize cmp head head' = headOutcome at heads ⊢
      generalize List.compareLex cmp tail tail' = tailOutcome at tails ⊢
      cases headOutcome with
      | lt => exact List.cons_lt_cons_iff.mpr (.inl heads)
      | gt => exact List.cons_lt_cons_iff.mpr (.inl heads)
      | eq =>
        have same : key head = key head' := heads
        cases tailOutcome with
        | lt => exact List.cons_lt_cons_iff.mpr (.inr ⟨same, tails⟩)
        | gt => exact List.cons_lt_cons_iff.mpr (.inr ⟨same.symm, tails⟩)
        | eq => exact congrArg₂ List.cons same tails

/-! ## Sorting -/

section

open List

variable [LinearOrder κ] {cmp : α -> α -> Ordering} {key : α -> κ} (ordered : OrderedBy cmp key)
include ordered

lemma le_trans_total : (∀ left middle right, (cmp left middle).isLE -> (cmp middle right).isLE ->
      (cmp left right).isLE) /\ ∀ left right, (cmp left right).isLE || (cmp right left).isLE := by
  refine ⟨fun _ _ _ => ordered.trans, fun left right => ?_⟩
  rw [Bool.or_eq_true, ordered.isLE_iff, ordered.isLE_iff]
  exact le_total _ _

lemma pairwise_mergeSort (list : List α) :
    (list.mergeSort fun left right => (cmp left right).isLE).Pairwise
      fun left right => key left <= key right := by
  rcases ordered.le_trans_total with ⟨trans, total⟩
  exact (List.pairwise_mergeSort trans total list).imp fun le => (ordered.isLE_iff _ _).mp le

/-- All permutations of a list are sorted to the same keys. -/
lemma map_key_mergeSort {list list' : List α} (perm : list ~ list') :
    (list.mergeSort fun left right => (cmp left right).isLE).map key =
      (list'.mergeSort fun left right => (cmp left right).isLE).map key := by
  have sorted := fun list : List α => pairwise_map.mpr (ordered.pairwise_mergeSort list)
  refine Perm.eq_of_pairwise (fun _ _ _ _ => le_antisymm) (sorted list) (sorted list') (Perm.map key ?_)
  exact (mergeSort_perm list _).trans (perm.trans (mergeSort_perm list' _).symm)

/-- What has the same key stays in its order. -/
lemma filter_mergeSort (list : List α) (value : κ) :
    (list.mergeSort fun left right => (cmp left right).isLE).filter (key · = value) =
      list.filter (key · = value) := by
  rcases ordered.le_trans_total with ⟨trans, total⟩
  have level : (list.filter (key · = value)).Pairwise fun left right => (cmp left right).isLE := by
    refine pairwise_of_forall_mem_list fun left mem right mem' => (ordered.isLE_iff _ _).mpr ?_
    rw [of_decide_eq_true (mem_filter.mp mem).2, of_decide_eq_true (mem_filter.mp mem').2]
  have kept := (sublist_mergeSort trans total level filter_sublist).filter (key · = value)
  simp only [filter_filter, Bool.and_self] at kept
  exact (kept.eq_of_length ((mergeSort_perm list _).symm.filter _).length_eq).symm

/-- What is seen of a sorted list is the same for all permutations exactly when it is the same
for all elements with the same key. -/
lemma map_mergeSort_iff (view : α -> β) (list : List α) :
    (∀ list', list ~ list' ->
      (list'.mergeSort fun left right => (cmp left right).isLE).map view =
        (list.mergeSort fun left right => (cmp left right).isLE).map view) <->
      ∀ a ∈ list, ∀ b ∈ list, key a = key b -> view a = view b := by
  constructor
  · intro all a mem b mem' same
    -- Whichever element is given first also comes first of those with its key.
    have head : ∀ a ∈ list, (((list.mergeSort fun left right => (cmp left right).isLE).map
        fun x => (key x, view x)).filter (·.1 = key a)).head? = some (key a, view a) := by
      intro a mem
      rcases append_of_mem mem with ⟨before, after, split⟩
      have perm : list ~ a :: (before ++ after) := split ▸ perm_middle
      rw [<- zip_map', ordered.map_key_mergeSort perm, <- all _ perm, zip_map', filter_map]
      change (map _ (filter (key · = key a) _)).head? = _
      rw [ordered.filter_mergeSort, filter_cons, if_pos (decide_eq_true rfl)]
      rfl
    have heads := (head a mem).symm.trans (same ▸ head b mem')
    exact (Prod.mk.inj (Option.some.inj heads)).2
  · intro same list' perm
    refine ext_getElem? fun index => ?_
    have keys := congrArg (·[index]?) (ordered.map_key_mergeSort perm)
    simp only [getElem?_map] at keys ⊢
    cases found : (list.mergeSort fun left right => (cmp left right).isLE)[index]? with
    | none =>
      rw [found] at keys
      rw [Option.map_eq_none_iff.mp keys.symm]
    | some a =>
      rw [found] at keys
      rcases Option.map_eq_some_iff.mp keys.symm with ⟨b, found', equal⟩
      rw [found', Option.map_some, Option.map_some, Option.some_inj]
      exact same b (perm.mem_iff.mpr (mem_mergeSort.mp (mem_of_getElem? found')))
        a (mem_mergeSort.mp (mem_of_getElem? found)) equal

end

end OrderedBy

end Uv.Library
