import Uv.Library.IntervalModel

namespace Uv.Library

open List

/-!
# Where the bounds of an interval set come from

The laws of an interval-set data type fix its bounds up to the comparison only.
A program that looks at the bounds themselves also relies on their origin: no
operation invents a boundary, each one is a boundary of an operand or one that
the caller gave.
-/

variable {V κ : Type}

/-- The boundary below what the bound admits, as a lower bound. -/
def Bound.lowerCuts : Bound V -> List (Cut V)
  | .included value => [⟨value, false⟩]
  | .excluded value => [⟨value, true⟩]
  | .unbounded => []

/-- The boundary above what the bound admits, as an upper bound. -/
def Bound.upperCuts : Bound V -> List (Cut V)
  | .included value => [⟨value, true⟩]
  | .excluded value => [⟨value, false⟩]
  | .unbounded => []

def Segment.cuts (segment : Segment V) : List (Cut V) :=
  segment.lower.lowerCuts ++ segment.upper.upperCuts

namespace RangeAlgebra

variable {cmp : V -> V -> Ordering} (alg : RangeAlgebra V cmp)

/-- The boundaries of the segments. -/
def cuts (ranges : alg.Ranges) : List (Cut V) :=
  (alg.segments ranges).flatMap Segment.cuts

/-- Every boundary of a result is one of an operand or of the given values. -/
structure Traced : Prop where
  empty : alg.cuts alg.empty ⊆ []
  full : alg.cuts alg.full ⊆ []
  singleton (value : V) :
    alg.cuts (alg.singleton value) ⊆ Segment.cuts ⟨.included value, .included value⟩
  between (low high : V) :
    alg.cuts (alg.between low high) ⊆ Segment.cuts ⟨.included low, .excluded high⟩
  higherThan (value : V) :
    alg.cuts (alg.higherThan value) ⊆ Segment.cuts ⟨.included value, .unbounded⟩
  strictlyHigherThan (value : V) :
    alg.cuts (alg.strictlyHigherThan value) ⊆ Segment.cuts ⟨.excluded value, .unbounded⟩
  lowerThan (value : V) :
    alg.cuts (alg.lowerThan value) ⊆ Segment.cuts ⟨.unbounded, .included value⟩
  strictlyLowerThan (value : V) :
    alg.cuts (alg.strictlyLowerThan value) ⊆ Segment.cuts ⟨.unbounded, .excluded value⟩
  fromRangeBounds (segment : Segment V) :
    alg.cuts (alg.fromRangeBounds segment) ⊆ segment.cuts
  fromIter (list : List (Segment V)) :
    alg.cuts (alg.fromIter list) ⊆ list.flatMap Segment.cuts
  complement (ranges : alg.Ranges) :
    alg.cuts (alg.complement ranges) ⊆ alg.cuts ranges
  union (left right : alg.Ranges) :
    alg.cuts (alg.union left right) ⊆ alg.cuts left ++ alg.cuts right
  intersection (left right : alg.Ranges) :
    alg.cuts (alg.intersection left right) ⊆ alg.cuts left ++ alg.cuts right
  difference (left right : alg.Ranges) :
    alg.cuts (alg.difference left right) ⊆ alg.cuts left ++ alg.cuts right

variable {alg}

lemma mem_cuts {ranges : alg.Ranges} {segment : Segment V}
    (mem : segment ∈ alg.segments ranges) {cut : Cut V} (found : cut ∈ segment.cuts) :
    cut ∈ alg.cuts ranges :=
  mem_flatMap.mpr ⟨segment, mem, found⟩

end RangeAlgebra

/-! ## Cut sets keep their cuts -/

namespace CutSet

variable {cmp : V -> V -> Ordering}

lemma lowerCuts_lower (cut : Cut V) : cut.lower.lowerCuts = [cut] := by
  rcases cut with ⟨value, after⟩
  cases after <;> rfl

lemma upperCuts_upper (cut : Cut V) : cut.upper.upperCuts = [cut] := by
  rcases cut with ⟨value, after⟩
  cases after <;> rfl

lemma segmentsFrom_cuts (cuts : List (Cut V)) :
    (segmentsFrom none cuts).flatMap Segment.cuts = cuts /\
      ∀ lower : Bound V,
        (segmentsFrom (some lower) cuts).flatMap Segment.cuts = lower.lowerCuts ++ cuts := by
  induction cuts with
  | nil =>
    refine ⟨rfl, fun lower => ?_⟩
    simp only [segmentsFrom, flatMap_cons, flatMap_nil, Segment.cuts, Bound.upperCuts,
      append_nil]
  | cons cut rest ih =>
    constructor
    · rw [segmentsFrom, ih.2 cut.lower, lowerCuts_lower, singleton_append]
    · intro lower
      rw [segmentsFrom, flatMap_cons, Segment.cuts, upperCuts_upper, ih.1,
        append_assoc, singleton_append]

lemma segments_cuts (set : CutSet V cmp) : set.segments.flatMap Segment.cuts = set.cuts := by
  unfold segments
  cases set.inside with
  | false => exact (segmentsFrom_cuts set.cuts).1
  | true => exact (segmentsFrom_cuts set.cuts).2 .unbounded

lemma mem_foldr_insertCut {mem : Cut V} (left : List (Cut V)) {right : List (Cut V)}
    (found : mem ∈ left.foldr (insertCut cmp) right) : mem ∈ left \/ mem ∈ right := by
  induction left with
  | nil => exact .inr found
  | cons cut rest ih =>
    rcases mem_insertCut found with same | found
    · exact .inl (mem_cons.mpr (.inl same))
    · rcases ih found with mem | mem
      · exact .inl (mem_cons_of_mem _ mem)
      · exact .inr mem

section

variable [LinearOrder κ] {key : V -> κ} (ordered : OrderedBy cmp key)

lemma cuts_combine (operation : Bool -> Bool -> Bool) (left right : CutSet V cmp) :
    (combine ordered operation left right).cuts ⊆ left.cuts ++ right.cuts := by
  intro cut found
  exact mem_append.mpr (mem_foldr_insertCut left.cuts (mem_of_mem_filter found))

lemma cuts_ofSegment (segment : Segment V) :
    (ofSegment ordered segment).cuts ⊆ segment.cuts := by
  rcases segment with ⟨lower, upper⟩
  have parts := cuts_combine ordered and (ofLower lower) (ofUpper upper)
  have lowers : (ofLower lower : CutSet V cmp).cuts = lower.lowerCuts := by cases lower <;> rfl
  have uppers : (ofUpper upper : CutSet V cmp).cuts = upper.upperCuts := by cases upper <;> rfl
  rw [lowers, uppers] at parts
  exact parts

lemma cuts_ofSegments (list : List (Segment V)) :
    (ofSegments ordered list).cuts ⊆ list.flatMap Segment.cuts := by
  induction list with
  | nil => exact List.Subset.refl _
  | cons segment rest ih =>
    intro cut found
    rw [flatMap_cons]
    rcases mem_append.mp (cuts_combine ordered or _ _ found) with here | later
    · exact mem_append_left _ (cuts_ofSegment ordered segment here)
    · exact mem_append_right _ (ih later)

/-- The cut sets do not invent boundaries. -/
lemma algebra_traced [Inhabited V] : (algebra ordered).Traced := by
  have own : ∀ set : CutSet V cmp, (algebra ordered).cuts set = set.cuts := segments_cuts
  have ofSegment' : ∀ segment : Segment V,
      (algebra ordered).cuts (ofSegment ordered segment) ⊆ segment.cuts := by
    intro segment
    rw [own]
    exact cuts_ofSegment ordered segment
  have combine' : ∀ (operation : Bool -> Bool -> Bool) (left right : CutSet V cmp),
      (algebra ordered).cuts (combine ordered operation left right) ⊆
        (algebra ordered).cuts left ++ (algebra ordered).cuts right := by
    intro operation left right
    rw [own, own, own]
    exact cuts_combine ordered operation left right
  have complement' : ∀ set : CutSet V cmp,
      (algebra ordered).cuts set.complement ⊆ (algebra ordered).cuts set := by
    intro set
    rw [own, own]
    exact List.Subset.refl _
  have fromIter' : ∀ list : List (Segment V),
      (algebra ordered).cuts (ofSegments ordered list) ⊆ list.flatMap Segment.cuts := by
    intro list
    rw [own]
    exact cuts_ofSegments ordered list
  exact
    { empty := List.Subset.refl []
      full := List.Subset.refl []
      singleton := fun value => ofSegment' _
      between := fun low high => ofSegment' _
      higherThan := fun value => ofSegment' _
      strictlyHigherThan := fun value => ofSegment' _
      lowerThan := fun value => ofSegment' _
      strictlyLowerThan := fun value => ofSegment' _
      fromRangeBounds := ofSegment'
      fromIter := fromIter'
      complement := complement'
      union := combine' or
      intersection := combine' and
      difference := combine' fun left right => left && !right }

end

end CutSet

end Uv.Library
