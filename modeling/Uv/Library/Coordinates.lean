import Uv.Library.IntervalBounds

namespace Uv.Library

open List

/-!
# Positions as numbered coordinates

A strictly increasing list of endpoints cuts the positions into pieces: each
endpoint is a piece, and so is each gap before, between and after the endpoints.
The pieces are numbered from below.  A segment whose bounds are among the
endpoints is an interval of numbers, and every number is the number of some
position.
-/

variable {V κ : Type}

/-- Drop what equals its predecessor. -/
def dedupBy (same : V -> V -> Bool) : List V -> List V
  | [] => []
  | [value] => [value]
  | value :: next :: rest =>
    if same value next then dedupBy same (value :: rest)
    else value :: dedupBy same (next :: rest)
termination_by list => list.length

variable (cmp : V -> V -> Ordering) (endpoints : List V)

/-- The number of endpoints before the first one that is not below the value. -/
def partitionPoint (value : V) : Nat :=
  endpoints.findIdx fun candidate => !(cmp candidate value).isLT

/-- The number of the first piece above the cut. -/
def cutCoordinate (cut : Cut V) : Nat :=
  2 * partitionPoint cmp endpoints cut.value + if cut.after then 2 else 1

/-- The number of the piece that has the position. -/
def coordinate (cmp : V -> V -> Ordering) : List V -> Position V -> Nat
  | [], _ => 0
  | endpoint :: rest, spot =>
    match Position.compare cmp ⟨endpoint, .exact⟩ spot with
    | .gt => 0
    | .eq => 1
    | .lt => 2 + coordinate cmp rest spot

/-- Every endpoint is below the later ones. -/
abbrev Increasing : Prop :=
  endpoints.Pairwise fun left right => cmp left right = .lt

section

variable [LinearOrder κ] {cmp : V -> V -> Ordering} {key : V -> κ} (ordered : OrderedBy cmp key)
include ordered

/-- A sorted list without repetitions is increasing and has the same keys. -/
lemma dedupBy_spec (list : List V) (sorted : list.Pairwise fun left right => key left <= key right) :
    ((dedupBy (fun left right => cmp left right == .eq) list).Pairwise
        fun left right => cmp left right = .lt) /\
      (∀ value, value ∈ dedupBy (fun left right => cmp left right == .eq) list -> value ∈ list) /\
      ∀ value ∈ list, ∃ kept,
        kept ∈ dedupBy (fun left right => cmp left right == .eq) list /\ key kept = key value := by
  induction list using dedupBy.induct (fun left right => cmp left right == .eq) with
  | case1 =>
    rw [dedupBy]
    exact ⟨.nil, fun value mem => mem, fun value mem => by cases mem⟩
  | case2 value =>
    rw [dedupBy]
    exact ⟨pairwise_singleton _ _, fun value mem => mem,
      fun value mem => ⟨value, mem, rfl⟩⟩
  | case3 value next rest same ih =>
    have equal : key value = key next := (ordered.eq_iff value next).mp (beq_iff_eq.mp same)
    have shorter : (value :: rest).Pairwise fun left right => key left <= key right :=
      sorted.sublist ((sublist_cons_self next rest).cons_cons value)
    rcases ih shorter with ⟨increasing, subset, represented⟩
    rw [dedupBy, if_pos same]
    refine ⟨increasing, fun given mem => ?_, fun given mem => ?_⟩
    · rcases mem_cons.mp (subset given mem) with here | later
      · exact here ▸ mem_cons_self
      · exact mem_cons_of_mem _ (mem_cons_of_mem _ later)
    · rcases mem_cons.mp mem with here | mem
      · exact represented given (here ▸ mem_cons_self)
      · rcases mem_cons.mp mem with here | later
        · rcases represented value mem_cons_self with ⟨kept, found, keys⟩
          exact ⟨kept, found, keys.trans (here ▸ equal)⟩
        · exact represented given (mem_cons_of_mem _ later)
  | case4 value next rest different ih =>
    rcases pairwise_cons.mp sorted with ⟨first, later⟩
    rcases ih later with ⟨increasing, subset, represented⟩
    rw [dedupBy, if_neg different]
    have less : key value < key next := lt_of_le_of_ne (first next mem_cons_self)
      fun equal => different (beq_iff_eq.mpr ((ordered.eq_iff value next).mpr equal))
    refine ⟨pairwise_cons.mpr ⟨fun given mem => ?_, increasing⟩, ?_, ?_⟩
    · have above : key next <= key given := by
        rcases mem_cons.mp (subset given mem) with here | further
        · exact here ▸ le_rfl
        · exact (pairwise_cons.mp later).1 given further
      exact (ordered.lt_iff value given).mpr (less.trans_le above)
    · intro given mem
      rcases mem_cons.mp mem with here | further
      · exact here ▸ mem_cons_self
      · exact mem_cons_of_mem _ (subset given further)
    · intro given mem
      rcases mem_cons.mp mem with here | further
      · exact ⟨value, mem_cons_self, here ▸ rfl⟩
      · rcases represented given further with ⟨kept, found, keys⟩
        exact ⟨kept, mem_cons_of_mem _ found, keys⟩

end

section

variable [LinearOrder κ] {cmp : V -> V -> Ordering} {key : V -> κ} (ordered : OrderedBy cmp key)

lemma coordinate_lt (spot : Position V) :
    coordinate cmp endpoints spot < 2 * endpoints.length + 1 := by
  induction endpoints with
  | nil => exact Nat.one_pos
  | cons endpoint rest ih =>
    rw [coordinate, length_cons]
    split <;> omega

lemma partitionPoint_cons (endpoint : V) (rest : List V) (value : V) :
    partitionPoint cmp (endpoint :: rest) value =
      if cmp endpoint value = .lt then partitionPoint cmp rest value + 1 else 0 := by
  rw [partitionPoint, findIdx_cons]
  cases outcome : cmp endpoint value <;> rfl

include ordered

/-- A position is above a cut at an endpoint exactly when its number is. -/
lemma cutCoordinate_le_iff (cut : Cut V) (spot : Position V) (endpoints : List V)
    (increasing : Increasing cmp endpoints)
    (represented : ∃ endpoint ∈ endpoints, key endpoint = key cut.value) :
    cutCoordinate cmp endpoints cut <= coordinate cmp endpoints spot <->
      cut.passed cmp spot := by
  have positions := Position.compare_orderedBy ordered
  induction endpoints with
  | nil =>
    rcases represented with ⟨endpoint, mem, _⟩
    cases mem
  | cons endpoint rest ih =>
    rcases pairwise_cons.mp increasing with ⟨first, later⟩
    rw [Cut.passed_iff ordered, cutCoordinate, coordinate, partitionPoint_cons]
    by_cases below : cmp endpoint cut.value = .lt
    · -- the endpoint of the cut comes later in the list
      have less := (ordered.lt_iff endpoint cut.value).mp below
      have found : ∃ endpoint ∈ rest, key endpoint = key cut.value := by
        rcases represented with ⟨given, mem, keys⟩
        rcases mem_cons.mp mem with here | further
        · rw [here] at keys
          exact absurd keys less.ne
        · exact ⟨given, further, keys⟩
      have inner := ih later found
      rw [Cut.passed_iff ordered, cutCoordinate] at inner
      rw [if_pos below]
      have before : Position.place key ⟨endpoint, .exact⟩ < cut.start.place key :=
        Prod.Lex.left _ _ less
      cases outcome : Position.compare cmp ⟨endpoint, .exact⟩ spot with
      | lt =>
        refine Iff.trans ?_ inner
        simp only
        constructor <;> intro le <;> omega
      | eq =>
        simp only
        have same := (positions.eq_iff _ _).mp outcome
        refine iff_of_false (by split <;> omega) (not_le.mpr ?_)
        rw [<- same]
        exact before
      | gt =>
        simp only
        have above := (positions.gt_iff _ _).mp outcome
        exact iff_of_false (by split <;> omega) (not_le.mpr (above.trans before))
    · -- the first endpoint is the one of the cut
      have keys : key endpoint = key cut.value := by
        rcases represented with ⟨given, mem, keys⟩
        rcases mem_cons.mp mem with here | further
        · rw [<- here]
          exact keys
        · have less := (ordered.lt_iff endpoint given).mp (first given further)
          rw [keys] at less
          exact absurd ((ordered.lt_iff _ _).mpr less) below
      rw [if_neg below, Nat.mul_zero, Nat.zero_add]
      have start : cut.start.place key =
          toLex (key endpoint, if cut.after then Side.above.rank else Side.exact.rank) := by
        rw [Position.place, Cut.start, keys]
        cases cut.after <;> rfl
      rw [start]
      have central : Position.place key ⟨endpoint, .exact⟩ = toLex (key endpoint, 1) := rfl
      cases outcome : Position.compare cmp ⟨endpoint, .exact⟩ spot with
      | lt =>
        have less := (positions.lt_iff _ _).mp outcome
        refine iff_of_true (by simp only; split <;> omega) ?_
        cases cut.after with
        | false => exact less.le
        | true =>
          rcases Prod.Lex.toLex_lt_toLex.mp less with keyLess | ⟨same, rank⟩
          · exact Prod.Lex.toLex_le_toLex.mpr (.inl keyLess)
          · exact Prod.Lex.toLex_le_toLex.mpr (.inr ⟨same, rank⟩)
      | eq =>
        have same := (positions.eq_iff _ _).mp outcome
        rw [<- same, central]
        cases cut.after with
        | false => exact iff_of_true (Nat.le_refl _) le_rfl
        | true =>
          refine iff_of_false (by simp) (not_le.mpr ?_)
          exact Prod.Lex.right _ (Nat.lt_succ_self 1)
      | gt =>
        have above := (positions.gt_iff _ _).mp outcome
        refine iff_of_false (by simp only; split <;> omega) (not_le.mpr (above.trans_le ?_))
        rw [central]
        cases cut.after with
        | false => exact le_rfl
        | true => exact Prod.Lex.toLex_le_toLex.mpr (.inr ⟨rfl, Nat.le_succ 1⟩)

/-- Above a floor, every number belongs to a position. -/
lemma exists_coordinate_above (endpoints : List V) :
    ∀ {floor : V} {number : Nat}, Increasing cmp (floor :: endpoints) ->
      number < 2 * endpoints.length + 1 ->
      ∃ spot : Position V, Position.compare cmp ⟨floor, .exact⟩ spot = .lt /\
        coordinate cmp endpoints spot = number := by
  have positions := Position.compare_orderedBy ordered
  induction endpoints with
  | nil =>
    intro floor number _ small
    refine ⟨⟨floor, .above⟩, (positions.lt_iff _ _).mpr ?_, ?_⟩
    · exact Prod.Lex.right _ (Nat.lt_succ_self 1)
    · rw [coordinate]
      simp only [length_nil] at small
      omega
  | cons endpoint rest ih =>
    intro floor number increasing small
    rcases pairwise_cons.mp increasing with ⟨first, later⟩
    have less := (ordered.lt_iff floor endpoint).mp (first endpoint mem_cons_self)
    have above : ∀ side, Position.compare cmp ⟨floor, .exact⟩ ⟨endpoint, side⟩ = .lt :=
      fun side => (positions.lt_iff _ _).mpr (Prod.Lex.left _ _ less)
    match number with
    | 0 =>
      refine ⟨⟨endpoint, .below⟩, above _, ?_⟩
      have outcome : Position.compare cmp ⟨endpoint, .exact⟩ ⟨endpoint, .below⟩ = .gt :=
        (positions.gt_iff _ _).mpr (Prod.Lex.right _ Nat.one_pos)
      rw [coordinate, outcome]
    | 1 =>
      refine ⟨⟨endpoint, .exact⟩, above _, ?_⟩
      rw [coordinate, (positions.eq_iff _ _).mpr rfl]
    | number + 2 =>
      rw [length_cons] at small
      rcases ih later (show number < 2 * rest.length + 1 by omega) with
        ⟨spot, beyond, same⟩
      refine ⟨spot, (positions.lt_iff _ _).mpr ?_, ?_⟩
      · exact ((positions.lt_iff _ _).mp (above .exact)).trans ((positions.lt_iff _ _).mp beyond)
      · rw [coordinate, beyond]
        simp only [same]
        omega

lemma exists_coordinate [Inhabited V] {endpoints : List V} (increasing : Increasing cmp endpoints)
    {number : Nat} (small : number < 2 * endpoints.length + 1) :
    ∃ spot : Position V, coordinate cmp endpoints spot = number := by
  have positions := Position.compare_orderedBy ordered
  cases endpoints with
  | nil =>
    refine ⟨⟨default, .exact⟩, ?_⟩
    rw [coordinate]
    simp only [length_nil] at small
    omega
  | cons endpoint rest =>
    match number with
    | 0 =>
      refine ⟨⟨endpoint, .below⟩, ?_⟩
      have outcome : Position.compare cmp ⟨endpoint, .exact⟩ ⟨endpoint, .below⟩ = .gt :=
        (positions.gt_iff _ _).mpr (Prod.Lex.right _ Nat.one_pos)
      rw [coordinate, outcome]
    | 1 =>
      refine ⟨⟨endpoint, .exact⟩, ?_⟩
      rw [coordinate, (positions.eq_iff _ _).mpr rfl]
    | number + 2 =>
      rw [length_cons] at small
      rcases exists_coordinate_above ordered rest increasing
        (show number < 2 * rest.length + 1 by omega) with ⟨spot, beyond, same⟩
      refine ⟨spot, ?_⟩
      rw [coordinate, beyond]
      simp only [same]
      omega

end

end Uv.Library
