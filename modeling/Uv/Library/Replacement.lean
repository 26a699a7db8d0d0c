import Mathlib

namespace Uv.Library

open Function

/-!
# Replacing members of finite sets

A relation says which items may stand for which.  A set arises from another one when
every member is kept or replaced by an item that may stand for it.

A family can be closed under this one item at a time: all sets with the item are
joined by what they become when it is replaced.  An item that was put in for an
earlier one may be the next to be replaced, and two items that fall together can not
be told apart any more.  The order of the items does not matter nevertheless, because
the items that a set shares with the original can be taken to be kept.
-/

namespace Replacement

variable {Item : Type} [DecidableEq Item]

def replace (old new : Item) (set : Finset Item) : Finset Item :=
  insert new (set.erase old)

variable (standsFor : Item -> Item -> Prop)

/-- Every member of the set is kept or replaced by an item that may stand for it. -/
def Moves (set : Finset Item) (choice : Item -> Item) : Prop :=
  ∀ item ∈ set, choice item = item \/ standsFor item (choice item)

def Arises (set new : Finset Item) : Prop :=
  ∃ choice, Moves standsFor set choice /\ set.image choice = new

variable {standsFor : Item -> Item -> Prop}

lemma Arises.refl (set : Finset Item) : Arises standsFor set set :=
  ⟨id, fun _ _ => .inl rfl, Finset.image_id⟩

variable {set : Finset Item}

/-- Only the members of the set matter. -/
lemma arises_congr {other : Item -> Item -> Prop} {new : Finset Item}
    (agree : ∀ item ∈ set, ∀ next, standsFor item next <-> other item next) :
    Arises standsFor set new <-> Arises other set new := by
  refine exists_congr fun choice => and_congr_left fun _ => ?_
  exact forall₂_congr fun item mem => or_congr_right (agree item mem _)

variable {old : Item}

lemma replace_eq_image (member : old ∈ set) (new : Item) :
    replace old new set = set.image (Function.update id old new) := by
  ext item
  simp only [replace, Finset.mem_insert, Finset.mem_erase, Finset.mem_image]
  constructor
  · rintro (same | ⟨different, mem⟩)
    · exact ⟨old, member, by rw [same, update_self]⟩
    · exact ⟨item, mem, update_of_ne different _ _⟩
  · rintro ⟨source, mem, target⟩
    by_cases same : source = old
    · rw [same, update_self] at target
      exact .inl target.symm
    · rw [update_of_ne same] at target
      exact .inr ⟨target ▸ same, target ▸ mem⟩

/-- Replacing one more item of a set that arises from another one. -/
lemma Arises.replace [IsTrans Item standsFor] {between : Finset Item}
    (arises : Arises standsFor set between) {new : Item} (member : old ∈ between)
    (allowed : standsFor old new) : Arises standsFor set (replace old new between) := by
  rcases arises with ⟨choice, moves, image⟩
  refine ⟨update id old new ∘ choice, fun item mem => ?_, ?_⟩
  · by_cases same : choice item = old
    · rw [comp_apply, same, update_self]
      rcases moves item mem with kept | moved
      · exact .inr (by rw [<- kept, same]; exact allowed)
      · exact .inr (IsTrans.trans _ _ _ (same ▸ moved) allowed)
    · rw [comp_apply, update_of_ne same]
      exact moves item mem
  · rw [<- Finset.image_image, image, replace_eq_image member]

/-! ## Keeping what is shared -/

/-- An item that stays in the set is not replaced itself. -/
def Settled (set : Finset Item) (choice : Item -> Item) : Prop :=
  ∀ item ∈ set, item ∈ set.image choice -> choice item = item

/-- If `first` becomes `second`, and `second` becomes something else, then `second` may
be kept and `first` become the other item. -/
def shorten (choice : Item -> Item) (first second : Item) : Item -> Item :=
  Function.update (Function.update choice second second) first (choice second)

section

variable {set : Finset Item} {choice : Item -> Item} {first second : Item}

lemma shorten_first : shorten choice first second first = choice second :=
  update_self _ _ _

lemma shorten_second (different : second ≠ first) :
    shorten choice first second second = second := by
  rw [shorten, update_of_ne different, update_self]

lemma shorten_other {item : Item} (notFirst : item ≠ first) (notSecond : item ≠ second) :
    shorten choice first second item = choice item := by
  rw [shorten, update_of_ne notFirst, update_of_ne notSecond]

lemma image_shorten (firstListed : first ∈ set) (secondListed : second ∈ set)
    (becomes : choice first = second) (different : second ≠ first) :
    set.image (shorten choice first second) = set.image choice := by
  ext item
  simp only [Finset.mem_image]
  constructor
  · rintro ⟨source, mem, rfl⟩
    by_cases isFirst : source = first
    · exact ⟨second, secondListed, by rw [isFirst, shorten_first]⟩
    by_cases isSecond : source = second
    · exact ⟨first, firstListed, by rw [isSecond, shorten_second different, becomes]⟩
    · exact ⟨source, mem, (shorten_other isFirst isSecond).symm⟩
  · rintro ⟨source, mem, rfl⟩
    by_cases isFirst : source = first
    · exact ⟨second, secondListed, by rw [isFirst, shorten_second different, becomes]⟩
    by_cases isSecond : source = second
    · exact ⟨first, firstListed, by rw [isSecond, shorten_first]⟩
    · exact ⟨source, mem, shorten_other isFirst isSecond⟩

lemma Moves.shorten [IsTrans Item standsFor] (moves : Moves standsFor set choice)
    (firstListed : first ∈ set) (secondListed : second ∈ set) (becomes : choice first = second)
    (different : second ≠ first) (moved : choice second ≠ second) :
    Moves standsFor set (shorten choice first second) := by
  intro item mem
  by_cases isFirst : item = first
  · have early := (moves first firstListed).resolve_left (becomes ▸ different)
    have late := (moves second secondListed).resolve_left moved
    rw [isFirst, shorten_first]
    exact .inr (IsTrans.trans _ _ _ (becomes ▸ early) late)
  by_cases isSecond : item = second
  · exact .inl (by rw [isSecond, shorten_second different])
  · rw [shorten_other isFirst isSecond]
    exact moves item mem

lemma card_moved_shorten (secondListed : second ∈ set) (becomes : choice first = second)
    (different : second ≠ first) (moved : choice second ≠ second) :
    (set.filter fun item => shorten choice first second item ≠ item).card <
      (set.filter fun item => choice item ≠ item).card := by
  apply Finset.card_lt_card
  rw [Finset.ssubset_iff_of_subset]
  · refine ⟨second, Finset.mem_filter.mpr ⟨secondListed, moved⟩, fun still => ?_⟩
    exact (Finset.mem_filter.mp still).2 (shorten_second different)
  · intro item still
    rcases Finset.mem_filter.mp still with ⟨mem, changed⟩
    refine Finset.mem_filter.mpr ⟨mem, ?_⟩
    by_cases isFirst : item = first
    · rw [isFirst, becomes]
      exact different
    by_cases isSecond : item = second
    · rw [isSecond]
      exact moved
    · rwa [shorten_other isFirst isSecond] at changed

end

variable {choice : Item -> Item}

/-- Induction on the number of items that move: a choice that is not settled can be
shortened. -/
lemma exists_settled [IsTrans Item standsFor] (moves : Moves standsFor set choice) :
    ∃ settled, Moves standsFor set settled /\ set.image settled = set.image choice /\
      Settled set settled := by
  induction count : (set.filter fun item => choice item ≠ item).card
    using Nat.strong_induction_on generalizing choice with
  | _ count ih =>
    by_cases done : Settled set choice
    · exact ⟨choice, moves, rfl, done⟩
    simp only [Settled, not_forall] at done
    rcases done with ⟨second, secondListed, inImage, moved⟩
    rcases Finset.mem_image.mp inImage with ⟨first, firstListed, becomes⟩
    have different : second ≠ first := fun same => moved (same ▸ becomes)
    rcases ih _
      (count ▸ card_moved_shorten secondListed becomes different moved)
      (moves.shorten firstListed secondListed becomes different moved) rfl with
      ⟨settled, allowed, image, settles⟩
    exact ⟨settled, allowed,
      image.trans (image_shorten firstListed secondListed becomes different), settles⟩

/-! ## Closing a family -/

/-- The sets with an item are joined by what they become when it is replaced. -/
def Extended (standsFor : Item -> Item -> Prop) (family : Finset Item -> Prop) (old : Item)
    (set : Finset Item) : Prop :=
  family set \/ ∃ between, family between /\ old ∈ between /\
    ∃ new, standsFor old new /\ set = replace old new between

/-- What a choice makes of the items in a list, the others being kept. -/
def restrictTo (done : List Item) (choice : Item -> Item) (item : Item) : Item :=
  if item ∈ done then choice item else item

variable {done : List Item}

lemma restrictTo_concat_of_ne {item : Item} (different : item ≠ old) :
    restrictTo (done ++ [old]) choice item = restrictTo done choice item := by
  simp only [restrictTo, List.mem_append, List.mem_singleton, different, or_false]

lemma image_restrictTo_of_kept (kept : old ∈ set -> old ∈ done \/ choice old = old) :
    set.image (restrictTo (done ++ [old]) choice) = set.image (restrictTo done choice) := by
  refine Finset.image_congr fun item mem => ?_
  by_cases same : item = old
  · subst item
    rcases kept mem with before | fixed
    · simp only [restrictTo, List.mem_append, before, true_or, if_true]
    · simp only [restrictTo, fixed, ite_self]
  · exact restrictTo_concat_of_ne same

/-- No other item has become the one to be replaced, since the choice is settled. -/
lemma image_restrictTo_of_moved
    (settled : Settled set choice) (mem : old ∈ set) (fresh : old ∉ done)
    (moved : choice old ≠ old) :
    set.image (restrictTo (done ++ [old]) choice) =
      replace old (choice old) (set.image (restrictTo done choice)) := by
  have atOld : restrictTo done choice old = old := if_neg fresh
  have onlyOld : ∀ item ∈ set, restrictTo done choice item = old -> item = old := by
    intro item member becomes
    by_cases before : item ∈ done
    · rw [restrictTo, if_pos before] at becomes
      exact absurd (settled old mem (becomes ▸ Finset.mem_image_of_mem _ member)) moved
    · rwa [restrictTo, if_neg before] at becomes
  rw [replace_eq_image (Finset.mem_image.mpr ⟨old, mem, atOld⟩), Finset.image_image]
  refine Finset.image_congr fun item member => ?_
  by_cases same : item = old
  · rw [same, comp_apply, atOld, update_self]
    exact if_pos (List.mem_append_right done (List.mem_singleton_self old))
  · rw [restrictTo_concat_of_ne same, comp_apply,
      update_of_ne fun becomes => same (onlyOld item member becomes), id]

section

variable {family : Finset Item -> Prop}

lemma exists_arises_of_extended [IsTrans Item standsFor]
    {origin : Finset Item -> Prop} (order : List Item)
    (sound : ∀ set, family set -> ∃ given, origin given /\
      Arises standsFor given set) (member : order.foldl (Extended standsFor) family set) :
    ∃ given, origin given /\ Arises standsFor given set := by
  induction order generalizing family with
  | nil => exact sound set member
  | cons old order ih =>
    refine ih (fun set extended => ?_) member
    rcases extended with before | ⟨between, before, mem, new, allowed, rfl⟩
    · exact sound set before
    · rcases sound between before with ⟨given, start, arises⟩
      exact ⟨given, start, arises.replace mem allowed⟩

/-- A run that has treated the items in `done` holds what a settled choice makes of
these; the rest of the run treats the others. -/
lemma extended_of_settled {given : Finset Item}
    (moves : Moves standsFor given choice) (settled : Settled given choice)
    (done order : List Item) (covers : ∀ item ∈ given, choice item ≠ item ->
      item ∈ done ++ order) (reached : family (given.image (restrictTo done choice))) :
    order.foldl (Extended standsFor) family (given.image choice) := by
  induction order generalizing family done with
  | nil =>
    have all : given.image (restrictTo done choice) = given.image choice := by
      refine Finset.image_congr fun item mem => ?_
      by_cases fixed : choice item = item
      · simp only [restrictTo, fixed, ite_self]
      · exact if_pos (List.append_nil done ▸ covers item mem fixed)
    exact all ▸ reached
  | cons old order ih =>
    refine ih (done ++ [old]) (by simpa using covers) ?_
    by_cases treated : old ∈ given /\ old ∉ done /\ choice old ≠ old
    · rcases treated with ⟨mem, fresh, moved⟩
      refine .inr ⟨_, reached, Finset.mem_image.mpr ⟨old, mem, if_neg fresh⟩, choice old,
        (moves old mem).resolve_left moved, image_restrictTo_of_moved settled mem fresh moved⟩
    · have kept : old ∈ given -> old ∈ done \/ choice old = old := by
        intro mem
        by_contra neither
        exact treated ⟨mem, not_or.mp neither⟩
      exact .inl (by rw [image_restrictTo_of_kept kept]; exact reached)

/-- Treating all items that can be replaced, in any order, gives exactly the sets that
arise from the family. -/
lemma extended_iff [IsTrans Item standsFor] (order : List Item)
    (covers : ∀ given, family given -> ∀ item ∈ given, ∀ new,
      standsFor item new -> item ∈ order) (set : Finset Item) :
    order.foldl (Extended standsFor) family set <->
      ∃ given, family given /\ Arises standsFor given set := by
  constructor
  · exact exists_arises_of_extended order fun set member => ⟨set, member, .refl set⟩
  · rintro ⟨given, start, choice, moves, rfl⟩
    rcases exists_settled moves with ⟨settled, allowed, image, settles⟩
    rw [<- image]
    refine extended_of_settled allowed settles [] order (fun item mem moved => ?_) ?_
    · exact covers given start item mem _ ((allowed item mem).resolve_left moved)
    · have kept : given.image (restrictTo [] settled) = given :=
        (Finset.image_congr fun item _ => if_neg List.not_mem_nil).trans Finset.image_id
      exact kept.symm ▸ start

end

end Replacement

end Uv.Library
