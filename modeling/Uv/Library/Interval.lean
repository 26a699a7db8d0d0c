import Uv.Library.Comparison

namespace Uv.Library

/-!
# Sets of intervals over a comparison function

A bound includes a value, excludes it, or is missing.  Between two neighbouring
values there may be no third one, and still the interval that excludes both is a
different set, as a data structure, from the empty one.  Such sets are therefore
read at positions: each value has a place of its own, a place just below it and
a place just above it.  A position decides every bound.

`RangeAlgebra` is the interface of an interval-set data type: its operations, and
the law of each operation in terms of positions.  A development that relies on
such a data type without seeing its code takes an algebra as a parameter.
-/

variable {V κ : Type}

inductive Bound (V : Type) where
  | included (value : V)
  | excluded (value : V)
  | unbounded
  deriving DecidableEq, Repr

/-- Where a position lies relative to its value. -/
inductive Side where
  | below
  | exact
  | above
  deriving DecidableEq, Repr

def Side.rank : Side -> Nat
  | .below => 0
  | .exact => 1
  | .above => 2

structure Position (V : Type) where
  value : V
  side : Side
  deriving DecidableEq, Repr

structure Segment (V : Type) where
  lower : Bound V
  upper : Bound V
  deriving DecidableEq, Repr

section

variable (cmp : V -> V -> Ordering)

def Position.compare (left right : Position V) : Ordering :=
  (cmp left.value right.value).then (Ord.compare left.side.rank right.side.rank)

/-- The bound, read as a lower bound, admits the position. -/
def Bound.admitsAbove : Bound V -> Position V -> Bool
  | .included value, spot => (Position.compare cmp ⟨value, .exact⟩ spot).isLE
  | .excluded value, spot => (Position.compare cmp ⟨value, .above⟩ spot).isLE
  | .unbounded, _ => true

/-- The bound, read as an upper bound, admits the position. -/
def Bound.admitsBelow : Bound V -> Position V -> Bool
  | .included value, spot => (Position.compare cmp spot ⟨value, .exact⟩).isLE
  | .excluded value, spot => (Position.compare cmp spot ⟨value, .below⟩).isLE
  | .unbounded, _ => true

def Segment.admits (segment : Segment V) (spot : Position V) : Bool :=
  segment.lower.admitsAbove cmp spot && segment.upper.admitsBelow cmp spot

/-- Some segment of the list admits the position. -/
def covers (segments : List (Segment V)) (spot : Position V) : Bool :=
  segments.any (·.admits cmp spot)

/-- A position separates the two segments, the first of which lies below it. -/
def Segment.Before (first second : Segment V) : Prop :=
  ∃ gap : Position V,
    (∀ spot, first.admits cmp spot = true -> Position.compare cmp spot gap = .lt) /\
      ∀ spot, second.admits cmp spot = true -> Position.compare cmp gap spot = .lt

end

/-! ## Positions in terms of a key -/

section

variable [LinearOrder κ] {cmp : V -> V -> Ordering} {key : V -> κ}

def Position.place (key : V -> κ) (spot : Position V) : κ ×ₗ Nat :=
  toLex (key spot.value, spot.side.rank)

section

variable (ordered : OrderedBy cmp key)

include ordered

lemma Position.compare_orderedBy :
    OrderedBy (Position.compare cmp) (Position.place key) :=
  (ordered.comap Position.value).lex fun left right =>
    (rfl : Ord.compare left.side.rank right.side.rank = _)

lemma Position.compare_isLE_iff (left right : Position V) :
    (Position.compare cmp left right).isLE <->
      key left.value < key right.value \/
        key left.value = key right.value /\ left.side.rank <= right.side.rank :=
  ((Position.compare_orderedBy ordered).isLE_iff left right).trans Prod.Lex.toLex_le_toLex

lemma Bound.includedAbove_exact (low value : V) :
    (Bound.included low).admitsAbove cmp ⟨value, .exact⟩ <-> key low <= key value := by
  refine (Position.compare_isLE_iff ordered _ _).trans ?_
  simp only [le_refl, and_true, le_iff_lt_or_eq]

lemma Bound.excludedAbove_exact (low value : V) :
    (Bound.excluded low).admitsAbove cmp ⟨value, .exact⟩ <-> key low < key value := by
  refine (Position.compare_isLE_iff ordered _ _).trans ?_
  simp [Side.rank]

lemma Bound.includedBelow_exact (high value : V) :
    (Bound.included high).admitsBelow cmp ⟨value, .exact⟩ <-> key value <= key high := by
  refine (Position.compare_isLE_iff ordered _ _).trans ?_
  simp only [le_refl, and_true, le_iff_lt_or_eq]

lemma Bound.excludedBelow_exact (high value : V) :
    (Bound.excluded high).admitsBelow cmp ⟨value, .exact⟩ <-> key value < key high := by
  refine (Position.compare_isLE_iff ordered _ _).trans ?_
  simp [Side.rank]

end

end

/-! ## The interface -/

/-- An interval-set data type over the order `cmp`.  `segments` is its iterator;
a set is what its segments admit, and the segments are the canonical ones. -/
structure RangeAlgebra (V : Type) (cmp : V -> V -> Ordering) where
  Ranges : Type
  segments : Ranges -> List (Segment V)
  empty : Ranges
  full : Ranges
  singleton : V -> Ranges
  between : V -> V -> Ranges
  higherThan : V -> Ranges
  strictlyHigherThan : V -> Ranges
  lowerThan : V -> Ranges
  strictlyLowerThan : V -> Ranges
  fromRangeBounds : Segment V -> Ranges
  fromIter : List (Segment V) -> Ranges
  complement : Ranges -> Ranges
  union : Ranges -> Ranges -> Ranges
  intersection : Ranges -> Ranges -> Ranges
  difference : Ranges -> Ranges -> Ranges
  contains : Ranges -> V -> Bool
  isEmpty : Ranges -> Bool
  eq : Ranges -> Ranges -> Bool
  isDisjoint : Ranges -> Ranges -> Bool
  subsetOf : Ranges -> Ranges -> Bool
  boundingRange : Ranges -> Option (Segment V)
  /-- No segment is empty. -/
  segment_inhabited (ranges : Ranges) :
    ∀ segment ∈ segments ranges, ∃ spot, segment.admits cmp spot = true
  /-- The segments are sorted and do not touch. -/
  segments_sorted (ranges : Ranges) : (segments ranges).Pairwise (Segment.Before cmp)
  mem_empty (spot : Position V) :
    covers cmp (segments empty) spot = false
  mem_full (spot : Position V) :
    covers cmp (segments full) spot = true
  mem_singleton (value : V) (spot : Position V) :
    covers cmp (segments (singleton value)) spot =
      Segment.admits cmp ⟨.included value, .included value⟩ spot
  /-- The first value is required to be the smaller one. -/
  mem_between (low high : V) (ordered : cmp low high = .lt) (spot : Position V) :
    covers cmp (segments (between low high)) spot =
      Segment.admits cmp ⟨.included low, .excluded high⟩ spot
  mem_higherThan (value : V) (spot : Position V) :
    covers cmp (segments (higherThan value)) spot =
      Segment.admits cmp ⟨.included value, .unbounded⟩ spot
  mem_strictlyHigherThan (value : V) (spot : Position V) :
    covers cmp (segments (strictlyHigherThan value)) spot =
      Segment.admits cmp ⟨.excluded value, .unbounded⟩ spot
  mem_lowerThan (value : V) (spot : Position V) :
    covers cmp (segments (lowerThan value)) spot =
      Segment.admits cmp ⟨.unbounded, .included value⟩ spot
  mem_strictlyLowerThan (value : V) (spot : Position V) :
    covers cmp (segments (strictlyLowerThan value)) spot =
      Segment.admits cmp ⟨.unbounded, .excluded value⟩ spot
  mem_fromRangeBounds (segment : Segment V) (spot : Position V) :
    covers cmp (segments (fromRangeBounds segment)) spot =
      segment.admits cmp spot
  mem_fromIter (list : List (Segment V)) (spot : Position V) :
    covers cmp (segments (fromIter list)) spot =
      covers cmp list spot
  mem_complement (ranges : Ranges) (spot : Position V) :
    covers cmp (segments (complement ranges)) spot =
      !covers cmp (segments ranges) spot
  mem_union (left right : Ranges) (spot : Position V) :
    covers cmp (segments (union left right)) spot =
      (covers cmp (segments left) spot || covers cmp (segments right) spot)
  mem_intersection (left right : Ranges) (spot : Position V) :
    covers cmp (segments (intersection left right)) spot =
      (covers cmp (segments left) spot && covers cmp (segments right) spot)
  mem_difference (left right : Ranges) (spot : Position V) :
    covers cmp (segments (difference left right)) spot =
      (covers cmp (segments left) spot && !covers cmp (segments right) spot)
  contains_eq (ranges : Ranges) (value : V) :
    contains ranges value = covers cmp (segments ranges) ⟨value, .exact⟩
  isEmpty_iff (ranges : Ranges) :
    isEmpty ranges = true <-> segments ranges = []
  eq_iff (left right : Ranges) :
    eq left right = true <-> ∀ spot : Position V,
      covers cmp (segments left) spot = covers cmp (segments right) spot
  isDisjoint_iff (left right : Ranges) :
    isDisjoint left right = true <-> ∀ spot : Position V,
      (covers cmp (segments left) spot && covers cmp (segments right) spot) = false
  subsetOf_iff (left right : Ranges) :
    subsetOf left right = true <-> ∀ spot : Position V,
      covers cmp (segments left) spot = true ->
        covers cmp (segments right) spot = true
  /-- From the first lower bound to the last upper bound. -/
  boundingRange_eq (ranges : Ranges) :
    boundingRange ranges = (segments ranges).head?.bind fun first =>
      (segments ranges).getLast?.map fun last => ⟨first.lower, last.upper⟩

namespace RangeAlgebra

variable {cmp : V -> V -> Ordering} (alg : RangeAlgebra V cmp)

/-- Membership of a position. -/
def mem (ranges : alg.Ranges) (spot : Position V) : Bool :=
  covers cmp (alg.segments ranges) spot

/-! ## Values in a set, in terms of a key -/

section

variable [LinearOrder κ] {key : V -> κ} (ordered : OrderedBy cmp key)

lemma contains_full (value : V) : alg.contains alg.full value := by
  rw [alg.contains_eq, alg.mem_full]

lemma contains_complement (ranges : alg.Ranges) (value : V) :
    alg.contains (alg.complement ranges) value = !alg.contains ranges value := by
  rw [alg.contains_eq, alg.mem_complement, alg.contains_eq]

lemma contains_intersection (left right : alg.Ranges) (value : V) :
    alg.contains (alg.intersection left right) value =
      (alg.contains left value && alg.contains right value) := by
  rw [alg.contains_eq, alg.mem_intersection, alg.contains_eq, alg.contains_eq]

include ordered

lemma contains_singleton (value' value : V) :
    alg.contains (alg.singleton value') value <-> key value = key value' := by
  rw [alg.contains_eq, alg.mem_singleton, Segment.admits, Bool.and_eq_true,
    Bound.includedAbove_exact ordered, Bound.includedBelow_exact ordered, and_comm]
  exact le_antisymm_iff.symm

lemma contains_between {low high : V} (less : key low < key high) (value : V) :
    alg.contains (alg.between low high) value <->
      key low <= key value /\ key value < key high := by
  rw [alg.contains_eq, alg.mem_between low high ((ordered.lt_iff low high).mpr less),
    Segment.admits, Bool.and_eq_true, Bound.includedAbove_exact ordered,
    Bound.excludedBelow_exact ordered]

lemma contains_halfOpen (low high value : V) :
    alg.contains (alg.fromRangeBounds ⟨.included low, .excluded high⟩) value <->
      key low <= key value /\ key value < key high := by
  rw [alg.contains_eq, alg.mem_fromRangeBounds, Segment.admits, Bool.and_eq_true,
    Bound.includedAbove_exact ordered, Bound.excludedBelow_exact ordered]

lemma contains_higherThan (low value : V) :
    alg.contains (alg.higherThan low) value <-> key low <= key value := by
  rw [alg.contains_eq, alg.mem_higherThan, Segment.admits, Bound.admitsBelow,
    Bool.and_true, Bound.includedAbove_exact ordered]

lemma contains_strictlyHigherThan (low value : V) :
    alg.contains (alg.strictlyHigherThan low) value <-> key low < key value := by
  rw [alg.contains_eq, alg.mem_strictlyHigherThan, Segment.admits, Bound.admitsBelow,
    Bool.and_true, Bound.excludedAbove_exact ordered]

lemma contains_lowerThan (high value : V) :
    alg.contains (alg.lowerThan high) value <-> key value <= key high := by
  rw [alg.contains_eq, alg.mem_lowerThan, Segment.admits, Bound.admitsAbove,
    Bool.true_and, Bound.includedBelow_exact ordered]

lemma contains_strictlyLowerThan (high value : V) :
    alg.contains (alg.strictlyLowerThan high) value <-> key value < key high := by
  rw [alg.contains_eq, alg.mem_strictlyLowerThan, Segment.admits, Bound.admitsAbove,
    Bool.true_and, Bound.excludedBelow_exact ordered]

end

end RangeAlgebra

end Uv.Library
