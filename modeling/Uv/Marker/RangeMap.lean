import Uv.Library.Tiling
import Uv.Marker.Variable

namespace Uv.Marker

open Pep440 Library List

/-!
# Range maps

The values of a version or of a string are cut into ranges, and a range map gives
each range a child.  Where an operation gives two neighbouring ranges the same
child it joins them, so that equal decisions have equal maps.
-/

section

variable {V : Type} {cmp : V -> V -> Ordering} (alg : RangeAlgebra V cmp) {N M O : Type}

/-- Compare the starts of two ranges that are known to be disjoint. -/
def compareStart (cmp : V -> V -> Ordering) : Bound V -> Bound V -> Ordering
  | .unbounded, _ => .lt
  | _, .unbounded => .gt
  | .included value, .excluded value' => if cmp value value' == .eq then .lt else cmp value value'
  | .excluded value, .included value' => if cmp value value' == .eq then .gt else cmp value value'
  | .included value, .included value' => cmp value value'
  | .excluded value, .excluded value' => cmp value value'

/-- The start of a range.  No range is empty where the source asks for it. -/
def startOf (range : alg.Ranges) : Bound V :=
  match alg.boundingRange range with
  | some bounds => bounds.lower
  | none => .unbounded

variable (range range' : alg.Ranges)

def compareDisjointRangeStart : Ordering :=
  compareStart cmp (startOf alg range) (startOf alg range')

/-- Two disjoint ranges can be joined without a gap. -/
def canConjoin : Bool :=
  match alg.boundingRange range, alg.boundingRange range' with
  | some bounds, some bounds' =>
    match bounds.upper, bounds'.lower with
    | .included value, .excluded value' => cmp value value' == .eq
    | .excluded value, .included value' => cmp value value' == .eq
    | _, _ => false
  | _, _ => false

/-- One edge for each segment of a range and one for each gap. -/
def fromRange (leaf : Bool -> N) (range : alg.Ranges) : List (alg.Ranges × N) :=
  let trueEdges := (alg.segments range).map fun segment =>
    (alg.fromRangeBounds segment, leaf true)
  let falseEdges := (alg.segments (alg.complement range)).map fun segment =>
    (alg.fromRangeBounds segment, leaf false)
  (trueEdges ++ falseEdges).insertionSort fun edge edge' =>
    (compareDisjointRangeStart alg edge.1 edge'.1).isLE

/-- Add an edge at the end, or extend the last one if it has the same child. -/
def pushEdge (same : N -> N -> Bool) :
    List (alg.Ranges × N) -> alg.Ranges -> N -> List (alg.Ranges × N)
  | [], range, node => [(range, node)]
  | [(previousRange, previous)], range, node =>
    if same previous node && canConjoin alg previousRange range then
      [(alg.union previousRange range, previous)]
    else [(previousRange, previous), (range, node)]
  | first :: second :: rest, range, node => first :: pushEdge same (second :: rest) range node

def mapRanges (same : M -> M -> Bool) (map : N -> M) (edges : List (alg.Ranges × N)) :
    List (alg.Ranges × M) :=
  edges.foldl (fun mapped edge => pushEdge alg same mapped edge.1 (map edge.2)) []

/-- Combine the children wherever two ranges intersect. -/
def applyRanges (same : O -> O -> Bool) (apply : N -> M -> O)
    (left : List (alg.Ranges × N)) (right : List (alg.Ranges × M)) :
    List (alg.Ranges × O) :=
  left.foldl (fun combined edge =>
    right.foldl (fun combined edge' =>
      let intersection := alg.intersection edge'.1 edge.1
      if alg.isEmpty intersection then combined
      else pushEdge alg same combined intersection (apply edge.2 edge'.2)) combined) []

end

/-! ## What the range maps compute -/

section

variable {V κ : Type} [LinearOrder κ] {cmp : V -> V -> Ordering} {key : V -> κ}
  (alg : RangeAlgebra V cmp) (ordered : OrderedBy cmp key) {N M O D : Type}

include ordered

lemma compareStart_isLE_iff (bound bound' : Bound V) :
    (compareStart cmp bound bound').isLE <-> bound.lowest key <= bound'.lowest key := by
  have placeLE : ∀ value value' side side',
      ((Position.place key ⟨value, side⟩ : WithBot (κ ×ₗ Nat)) <= Position.place key ⟨value', side'⟩) <->
        key value < key value' \/ key value = key value' /\ side.rank <= side'.rank :=
    fun value value' side side' => WithBot.coe_le_coe.trans Prod.Lex.toLex_le_toLex
  have isLE := fun value value' => ordered.isLE_iff value value'
  have isEq := fun value value' => ordered.eq_iff value value'
  cases bound with
  | unbounded => exact iff_of_true rfl bot_le
  | included value =>
    cases bound' with
    | unbounded => exact iff_of_false Bool.false_ne_true (WithBot.not_coe_le_bot _)
    | included value' =>
      refine (isLE _ _).trans (Iff.trans ?_ (placeLE _ _ _ _).symm)
      simp only [le_refl, and_true, le_iff_lt_or_eq]
    | excluded value' =>
      refine Iff.trans ?_ (placeLE value value' .exact .above).symm
      rw [compareStart]
      split
      next same => simp [(isEq _ _).mp (beq_iff_eq.mp same), Side.rank]
      next different =>
        rw [isLE, le_iff_lt_or_eq]
        simp [Side.rank]
  | excluded value =>
    cases bound' with
    | unbounded => exact iff_of_false Bool.false_ne_true (WithBot.not_coe_le_bot _)
    | included value' =>
      refine Iff.trans ?_ (placeLE value value' .above .exact).symm
      rw [compareStart]
      split
      next same => simp [(isEq _ _).mp (beq_iff_eq.mp same), Side.rank]
      next different =>
        have apart : key value ≠ key value' := fun same => different
          (beq_iff_eq.mpr ((isEq _ _).mpr same))
        rw [isLE, le_iff_lt_or_eq]
        simp [Side.rank, apart]
    | excluded value' =>
      refine (isLE _ _).trans (Iff.trans ?_ (placeLE _ _ _ _).symm)
      simp only [le_refl, and_true, le_iff_lt_or_eq]

/-- Neighbouring ranges of a tiling can always be joined. -/
lemma canConjoin_of_adjacent {range range' : alg.Ranges}
    (adjacent : Adjacent (Position.place key) alg.mem range range')
    (inhabited : ∃ spot, alg.mem range spot)
    (inhabited' : ∃ spot, alg.mem range' spot) :
    canConjoin alg range range' := by
  rcases inhabited with ⟨spot, inside⟩
  rcases inhabited' with ⟨spot', inside'⟩
  rcases alg.boundingRange_isSome inside with ⟨bounds, bounding⟩
  rcases alg.boundingRange_isSome inside' with ⟨bounds', bounding'⟩
  rcases alg.ends_meet ordered adjacent bounding bounding' with ⟨value, value', same, shape⟩
  have equal : (cmp value value' == .eq) := beq_iff_eq.mpr ((ordered.eq_iff _ _).mpr same)
  rw [canConjoin, bounding, bounding']
  rcases shape with ⟨upper, lower⟩ | ⟨upper, lower⟩ <;> simp only [upper, lower, equal]

omit [LinearOrder κ] ordered in
lemma pushEdge_concat (same : N -> N -> Bool) (initial : List (alg.Ranges × N))
    (previousRange range : alg.Ranges) (previous node : N) :
    pushEdge alg same (initial ++ [(previousRange, previous)]) range node =
      initial ++
        if same previous node && canConjoin alg previousRange range then
          [(alg.union previousRange range, previous)]
        else [(previousRange, previous), (range, node)] := by
  induction initial with
  | nil => rfl
  | cons first initial ih =>
    cases initial with
    | nil => exact congrArg (cons first) ih
    | cons second initial => exact congrArg (cons first) ih

/-- The step of the loops: the edges so far and the edges to come tile the line,
and joining the next edge to the last one does not change what they denote. -/
lemma pushEdge_step {same : N -> N -> Bool} {den : N -> D}
    {edges rest : List (alg.Ranges × N)} {range : alg.Ranges} {node : N}
    (agree : ∀ child ∈ edges.map Prod.snd, (same child node <-> den child = den node))
    (tiled : Tiled (Position.place key) alg.mem (fun _ => True) (edges ++ (range, node) :: rest))
    (distinct : Distinct den edges) :
    Tiled (Position.place key) alg.mem (fun _ => True)
        (pushEdge alg same edges range node ++ rest) /\
      Distinct den (pushEdge alg same edges range node) /\
      (∀ spot,
        (tileAt alg.mem (pushEdge alg same edges range node ++ rest) spot).map den =
          (tileAt alg.mem (edges ++ (range, node) :: rest) spot).map den) /\
      (pushEdge alg same edges range node).map Prod.snd ⊆ edges.map Prod.snd ++ [node] := by
  rcases eq_nil_or_concat' edges with rfl | ⟨initial, last, rfl⟩
  · exact ⟨tiled, isChain_singleton _, fun _ => rfl, Subset.refl _⟩
  · rcases last with ⟨previousRange, previous⟩
    have isSame := agree previous (by simp)
    have shape : initial ++ [(previousRange, previous)] ++ (range, node) :: rest =
        initial ++ (previousRange, previous) :: (range, node) :: rest := by simp
    rw [pushEdge_concat]
    rw [shape] at tiled ⊢
    have conjoin := canConjoin_of_adjacent alg ordered tiled.adjacent
      (tiled.inhabited _ (by simp)) (tiled.inhabited (range, node) (by simp))
    rw [conjoin, Bool.and_true]
    cases equal : same previous node with
    | true =>
      have denotes := isSame.mp equal
      rw [if_pos rfl, append_assoc, singleton_append]
      have union : ∀ spot, alg.mem (alg.union previousRange range) spot =
          (alg.mem previousRange spot || alg.mem range spot) :=
        alg.mem_union previousRange range
      refine ⟨tiled.join union, ?_, tileAt_join union denotes, ?_⟩
      · rw [Distinct, isChain_append] at distinct ⊢
        exact ⟨distinct.1, isChain_singleton _, fun first isLast second isNext => by
          cases isNext
          exact distinct.2.2 first isLast (previousRange, previous) rfl⟩
      · rw [map_append, map_append]
        exact subset_append_left _ _
    | false =>
      have denotes : den previous ≠ den node := fun denotes =>
        Bool.false_ne_true (equal.symm.trans (isSame.mpr denotes))
      rw [if_neg Bool.false_ne_true]
      refine ⟨by simpa using tiled, ?_, fun spot => by simp, ?_⟩
      · rw [Distinct, isChain_append] at distinct ⊢
        exact ⟨distinct.1, isChain_cons_cons.mpr ⟨denotes, isChain_singleton _⟩,
          fun first isLast second isNext => by
            cases isNext
            exact distinct.2.2 first isLast (previousRange, previous) rfl⟩
      · rw [map_append, map_append, append_assoc]
        exact Subset.refl _

omit [LinearOrder κ] ordered in
/-- The two loops run over the common refinement. -/
lemma applyRanges_eq (same : O -> O -> Bool) (apply : N -> M -> O)
    (left : List (alg.Ranges × N)) (right : List (alg.Ranges × M)) :
    applyRanges alg same apply left right =
      (refine alg.intersection alg.isEmpty apply left right).foldl
        (fun edges edge => pushEdge alg same edges edge.1 edge.2) [] := by
  rw [applyRanges, refine, foldl_flatMap]
  congr 1
  funext combined edge
  rw [foldl_filterMap]
  congr 1
  funext combined edge'
  by_cases empty : alg.isEmpty (alg.intersection edge'.1 edge.1)
  · simp only [if_pos empty]
  · simp only [if_neg empty]

section

variable {same : N -> N -> Bool} {den : N -> D} {valid : N -> Prop}
  (agree : ∀ node node', valid node -> valid node' ->
    (same node node' = true <-> den node = den node'))

include agree

/-- The loop that pushes the edges of a tiling one after the other. -/
lemma foldl_pushEdge {pending : List (alg.Ranges × N)} :
    ∀ {edges : List (alg.Ranges × N)},
      (∀ node ∈ (edges ++ pending).map Prod.snd, valid node) ->
      Tiled (Position.place key) alg.mem (fun _ => True) (edges ++ pending) ->
      Distinct den edges ->
      let pushed := pending.foldl (fun edges edge => pushEdge alg same edges edge.1 edge.2) edges
      Tiled (Position.place key) alg.mem (fun _ => True) pushed /\ Distinct den pushed /\
        (∀ spot, (tileAt alg.mem pushed spot).map den =
          (tileAt alg.mem (edges ++ pending) spot).map den) /\
        pushed.map Prod.snd ⊆ (edges ++ pending).map Prod.snd := by
  induction pending with
  | nil =>
    intro edges _ tiled distinct
    rw [append_nil] at tiled ⊢
    exact ⟨tiled, distinct, fun _ => rfl, Subset.refl _⟩
  | cons next pending ih =>
    intro edges allValid tiled distinct
    have shape : (edges ++ next :: pending).map Prod.snd =
        edges.map Prod.snd ++ [next.2] ++ pending.map Prod.snd := by simp
    rw [shape] at allValid ⊢
    rcases pushEdge_step alg ordered (fun node mem => agree node next.2
      (allValid node (mem_append_left _ (mem_append_left _ mem))) (allValid _ (by simp)))
      tiled distinct with ⟨stepTiled, stepDistinct, stepSame, stepNodes⟩
    have origin : (pushEdge alg same edges next.1 next.2 ++ pending).map Prod.snd ⊆
        edges.map Prod.snd ++ [next.2] ++ pending.map Prod.snd := by
      rw [map_append]
      exact append_subset.mpr ⟨fun _ mem => mem_append_left _ (stepNodes mem),
        subset_append_right _ _⟩
    rcases ih (fun node mem => allValid node (origin mem)) stepTiled stepDistinct with
      ⟨tiled, distinct, reads, nodes⟩
    exact ⟨tiled, distinct, fun spot => (reads spot).trans (stepSame spot),
      fun _ mem => origin (nodes mem)⟩

/-- What a range map denotes after its children have been mapped. -/
lemma mapRanges_spec {map : M -> N} {edges : List (alg.Ranges × M)}
    (allValid : ∀ node ∈ edges.map Prod.snd, valid (map node))
    (tiled : Tiled (Position.place key) alg.mem (fun _ => True) edges) :
    let mapped := mapRanges alg same map edges
    Tiled (Position.place key) alg.mem (fun _ => True) mapped /\ Distinct den mapped /\
      (∀ spot, (tileAt alg.mem mapped spot).map den =
        (tileAt alg.mem edges spot).map fun node => den (map node)) /\
      ∀ node ∈ mapped.map Prod.snd, ∃ node' ∈ edges.map Prod.snd, map node' = node := by
  have loop : mapRanges alg same map edges =
      (edges.map fun edge => (edge.1, map edge.2)).foldl
        (fun edges edge => pushEdge alg same edges edge.1 edge.2) [] := by
    rw [mapRanges, foldl_map]
  rw [loop]
  have values : (edges.map fun edge => (edge.1, map edge.2)).map Prod.snd =
      (edges.map Prod.snd).map map := by
    rw [map_map, map_map]
    rfl
  have mappedValid : ∀ node ∈ (edges.map fun edge => (edge.1, map edge.2)).map Prod.snd,
      valid node := by
    rw [values]
    exact forall_mem_map.mpr allValid
  rcases foldl_pushEdge alg ordered agree mappedValid (tiled.mapValues map) isChain_nil with
    ⟨tiled, distinct, reads, nodes⟩
  refine ⟨tiled, distinct, ?_, ?_⟩
  · intro spot
    rw [reads, nil_append, tileAt_mapValues, Option.map_map]
    rfl
  · rw [nil_append, values] at nodes
    exact fun node mem => mem_map.mp (nodes mem)

/-- What two range maps denote after they have been combined. -/
lemma applyRanges_spec {apply : M -> O -> N} {left : List (alg.Ranges × M)}
    {right : List (alg.Ranges × O)}
    (allValid : ∀ node ∈ left.map Prod.snd, ∀ node' ∈ right.map Prod.snd, valid (apply node node'))
    (tiled : Tiled (Position.place key) alg.mem (fun _ => True) left)
    (tiled' : Tiled (Position.place key) alg.mem (fun _ => True) right) :
    let combined := applyRanges alg same apply left right
    Tiled (Position.place key) alg.mem (fun _ => True) combined /\ Distinct den combined /\
      (∀ spot node node', tileAt alg.mem left spot = some node ->
        tileAt alg.mem right spot = some node' ->
        (tileAt alg.mem combined spot).map den = some (den (apply node node'))) /\
      ∀ node ∈ combined.map Prod.snd, ∃ node' ∈ left.map Prod.snd,
        ∃ node'' ∈ right.map Prod.snd, apply node' node'' = node := by
  have meets := alg.mem_intersection
  have origin : ∀ node ∈ (refine alg.intersection alg.isEmpty apply left right).map Prod.snd,
      ∃ node' ∈ left.map Prod.snd, ∃ node'' ∈ right.map Prod.snd, apply node' node'' = node := by
    intro node mem
    rcases mem_map.mp mem with ⟨piece, pieceListed, rfl⟩
    rcases (mem_refine_iff apply meets alg.isEmpty_iff_mem).mp pieceListed with
      ⟨edge, edgeListed, edge', edgeListed', _, rfl⟩
    exact ⟨_, mem_map_of_mem edgeListed, _, mem_map_of_mem edgeListed', rfl⟩
  rw [applyRanges_eq]
  have refinedValid : ∀ node ∈
      ([] ++ refine alg.intersection alg.isEmpty apply left right).map Prod.snd, valid node := by
    intro node mem
    rcases origin node mem with ⟨node', mem', node'', mem'', rfl⟩
    exact allValid node' mem' node'' mem''
  rcases foldl_pushEdge alg ordered agree refinedValid
    (tiled.refine apply meets alg.isEmpty_iff_mem tiled') isChain_nil with
    ⟨outTiled, distinct, reads, nodes⟩
  refine ⟨outTiled, distinct, ?_, ?_⟩
  · intro spot node node' found found'
    rw [reads, nil_append,
      tiled.tileAt_refine apply meets alg.isEmpty_iff_mem tiled' found found', Option.map_some]
  · exact fun node mem => origin node (nodes mem)

end

/-! ## The edges of a range -/

section

variable (leaf : Bool -> N) (range : alg.Ranges)

omit [LinearOrder κ] ordered in
/-- Each edge is a segment of the range or of its complement. -/
lemma mem_fromRange_iff {edge : alg.Ranges × N} :
    edge ∈ fromRange alg leaf range <-> ∃ segment, ∃ inside : Bool,
      segment ∈ alg.segments (if inside then range else alg.complement range) /\
        edge = (alg.fromRangeBounds segment, leaf inside) := by
  rw [fromRange, (perm_insertionSort _ _).mem_iff, mem_append, mem_map, mem_map]
  constructor
  · rintro (⟨segment, mem, rfl⟩ | ⟨segment, mem, rfl⟩)
    · exact ⟨segment, true, mem, rfl⟩
    · exact ⟨segment, false, mem, rfl⟩
  · rintro ⟨segment, inside, mem, rfl⟩
    cases inside with
    | true => exact .inl ⟨segment, mem, rfl⟩
    | false => exact .inr ⟨segment, mem, rfl⟩

omit [LinearOrder κ] ordered in
lemma mem_side (inside : Bool) (spot : Position V) :
    alg.mem (if inside then range else alg.complement range) spot <->
      alg.mem range spot = inside := by
  cases inside with
  | true => exact Iff.rfl
  | false =>
    change covers cmp (alg.segments (alg.complement range)) spot <-> _
    rw [alg.mem_complement, Bool.not_eq_true']
    exact Iff.rfl

omit [LinearOrder κ] ordered in
lemma mem_of_segment {ranges : alg.Ranges} {segment : Segment V}
    (mem : segment ∈ alg.segments ranges) {spot : Position V}
    (inside : alg.mem (alg.fromRangeBounds segment) spot) :
    alg.mem ranges spot := by
  rw [RangeAlgebra.mem, alg.mem_fromRangeBounds] at inside
  exact any_eq_true.mpr ⟨segment, mem, inside⟩

/-- Different segments of one set have no position in common. -/
lemma segments_apart (ranges : alg.Ranges) :
    (alg.segments ranges).Pairwise fun segment segment' => ∀ spot,
      segment.admits cmp spot -> segment'.admits cmp spot -> False := by
  refine (alg.segments_sorted ranges).imp ?_
  intro segment segment' before spot inside inside'
  exact lt_irrefl _ (before.place_lt ordered inside inside')

lemma fromRange_disjoint :
    (fromRange alg leaf range).Pairwise fun edge edge' => ∀ spot,
      alg.mem edge.1 spot -> alg.mem edge'.1 spot -> False := by
  rw [fromRange, (perm_insertionSort _ _).pairwise_iff
    fun apart spot inside inside' => apart spot inside' inside]
  have side : ∀ (ranges : alg.Ranges) (inside : Bool),
      ((alg.segments ranges).map fun segment =>
        (alg.fromRangeBounds segment, leaf inside)).Pairwise fun edge edge' => ∀ spot,
          alg.mem edge.1 spot -> alg.mem edge'.1 spot -> False := by
    intro ranges inside
    refine pairwise_map.mpr ((segments_apart alg ordered ranges).imp ?_)
    intro segment segment' apart spot here here'
    rw [RangeAlgebra.mem, alg.mem_fromRangeBounds] at here here'
    exact apart spot here here'
  refine pairwise_append.mpr ⟨side range true, side (alg.complement range) false, ?_⟩
  intro edge mem edge' mem' spot inside inside'
  rcases mem_map.mp mem with ⟨segment, segmentListed, rfl⟩
  rcases mem_map.mp mem' with ⟨segment', segmentListed', rfl⟩
  have here := (mem_side alg range true spot).mp (mem_of_segment alg segmentListed inside)
  have there := (mem_side alg range false spot).mp
    (mem_of_segment alg segmentListed' inside')
  exact Bool.false_ne_true (there.symm.trans here)

lemma fromRange_sorted :
    (fromRange alg leaf range).Pairwise fun edge edge' =>
      (startOf alg edge.1).lowest key <= (startOf alg edge'.1).lowest key := by
  have isLE : ∀ edge edge' : alg.Ranges × N,
      (compareDisjointRangeStart alg edge.1 edge'.1).isLE <->
        (startOf alg edge.1).lowest key <= (startOf alg edge'.1).lowest key :=
    fun edge edge' => compareStart_isLE_iff ordered _ _
  have trans : IsTrans (alg.Ranges × N) fun edge edge' =>
      (compareDisjointRangeStart alg edge.1 edge'.1).isLE :=
    ⟨fun first second third le le' => by
      rw [isLE] at le le' ⊢
      exact le.trans le'⟩
  have total : Std.Total fun edge edge' : alg.Ranges × N =>
      (compareDisjointRangeStart alg edge.1 edge'.1).isLE :=
    ⟨fun first second => by
      rw [isLE, isLE]
      exact le_total _ _⟩
  exact (pairwise_insertionSort _ _).imp fun {edge edge'} le => (isLE edge edge').mp le

lemma fromRange_tiled :
    Tiled (Position.place key) alg.mem (fun _ => True) (fromRange alg leaf range) where
  inhabited edge mem := by
    rcases (mem_fromRange_iff alg leaf range).mp mem with ⟨segment, inside, mem', rfl⟩
    rcases alg.segment_inhabited _ segment mem' with ⟨spot, admitted⟩
    exact ⟨spot, (alg.mem_fromRangeBounds segment spot).trans admitted⟩
  sorted := by
    refine ((fromRange_sorted alg ordered leaf range).and
      (fromRange_disjoint alg ordered leaf range)).imp_of_mem ?_
    intro edge edge' mem mem' related spot spot' inside inside'
    rcases alg.boundingRange_isSome inside with ⟨bounds, bounding⟩
    rcases alg.boundingRange_isSome inside' with ⟨bounds', bounding'⟩
    have le := related.1
    rw [startOf, startOf, bounding, bounding'] at le
    refine alg.precedes_of_lower_le ordered ?_ related.2 bounding bounding' le _ _ inside inside'
    rcases (mem_fromRange_iff alg leaf range).mp mem with ⟨segment, side, _, rfl⟩
    intro low middle high lowInside highInside above below
    rw [RangeAlgebra.mem, alg.mem_fromRangeBounds,
      RangeAlgebra.segment_admits_iff ordered] at lowInside highInside ⊢
    exact ⟨lowInside.1.trans (WithBot.coe_le_coe.mpr above),
      (WithTop.coe_le_coe.mpr below).trans highInside.2⟩
  covers spot := by
    refine iff_of_true trivial ?_
    have inside := (mem_side alg range (alg.mem range spot) spot).mpr rfl
    rcases any_eq_true.mp inside with ⟨segment, mem, admitted⟩
    exact ⟨_, (mem_fromRange_iff alg leaf range).mpr ⟨segment, _, mem, rfl⟩,
      (alg.mem_fromRangeBounds segment spot).trans admitted⟩

lemma tileAt_fromRange (spot : Position V) :
    tileAt alg.mem (fromRange alg leaf range) spot =
      some (leaf (alg.mem range spot)) := by
  have inside := (mem_side alg range (alg.mem range spot) spot).mpr rfl
  rcases any_eq_true.mp inside with ⟨segment, mem, admitted⟩
  exact (fromRange_tiled alg ordered leaf range).tileAt_of_mem
    ((mem_fromRange_iff alg leaf range).mpr ⟨segment, _, mem, rfl⟩)
    ((alg.mem_fromRangeBounds segment spot).trans admitted)

/-- Neighbouring edges lie on different sides, for a gap separates two segments of
one side. -/
lemma fromRange_distinct {den : N -> D} (different : den (leaf true) ≠ den (leaf false)) :
    Distinct den (fromRange alg leaf range) := by
  rw [Distinct, isChain_iff_forall_rel_of_append_cons_cons]
  intro edge edge' initial rest shape same
  have tiled := fromRange_tiled alg ordered leaf range
  have mem : edge ∈ fromRange alg leaf range := by simp [shape]
  have mem' : edge' ∈ fromRange alg leaf range := by simp [shape]
  rcases tiled.inhabited edge mem with ⟨low, lowInside⟩
  rcases tiled.inhabited edge' mem' with ⟨high, highInside⟩
  rw [shape] at tiled
  rcases tiled.adjacent with ⟨before, between⟩
  rcases (mem_fromRange_iff alg leaf range).mp mem with ⟨segment, side, segmentListed, rfl⟩
  rcases (mem_fromRange_iff alg leaf range).mp mem' with
    ⟨segment', side', segmentListed', rfl⟩
  have sameSide : side = side' := by
    cases side <;> cases side' <;> first | rfl | exact absurd same different | exact absurd same.symm different
  subst sameSide
  have admits : ∀ segment spot, alg.mem (alg.fromRangeBounds segment) spot =
      segment.admits cmp spot := fun segment spot => alg.mem_fromRangeBounds segment spot
  have less := before low high lowInside highInside
  simp only [admits] at between lowInside highInside
  have related : segment = segment' \/ Segment.Before cmp segment segment' \/
      Segment.Before cmp segment' segment := by
    have sorted := alg.segments_sorted (if side then range else alg.complement range)
    have forward := sorted.imp fun {first second} (before : Segment.Before cmp first second) =>
      (.inr (.inl before) :
        first = second \/ Segment.Before cmp first second \/ Segment.Before cmp second first)
    have backward := sorted.imp fun {first second} (before : Segment.Before cmp first second) =>
      (.inr (.inr before) : flip (fun first second => first = second \/
        Segment.Before cmp first second \/ Segment.Before cmp second first) first second)
    exact forward.forall_of_forall_of_flip (fun _ _ => .inl rfl) backward segmentListed segmentListed'
  have placeLT := (Position.compare_orderedBy ordered).lt_iff
  rcases related with rfl | ⟨gap, below, above⟩ | after
  · exact lt_irrefl _ (before low low ((admits _ _).trans lowInside) ((admits _ _).trans lowInside))
  · rcases between gap with ⟨spot, inside, le⟩ | ⟨spot, inside, le⟩
    · exact lt_irrefl _ (le.trans_lt ((placeLT _ _).mp (below spot inside)))
    · exact lt_irrefl _ (((placeLT _ _).mp (above spot inside)).trans_le le)
  · exact lt_irrefl _ (less.trans (after.place_lt ordered highInside lowInside))

end

end

/-! ## Properties of ranges -/

section

variable {V : Type} {cmp : V -> V -> Ordering} (alg : RangeAlgebra V cmp) {N M O : Type}
  {holds : alg.Ranges -> Prop}
  (unions : ∀ range range', holds range -> holds range' -> holds (alg.union range range'))

include unions

variable {edges : List (alg.Ranges × N)} {same : N -> N -> Bool}

lemma pushEdge_closed {range : alg.Ranges} {node : N} (all : ∀ edge ∈ edges, holds edge.1)
    (next : holds range) :
    ∀ edge ∈ pushEdge alg same edges range node, holds edge.1 := by
  intro edge mem
  rcases eq_nil_or_concat' edges with rfl | ⟨initial, last, rfl⟩
  · rw [mem_singleton.mp mem]
    exact next
  · have lastHolds := all last (mem_append_right _ mem_cons_self)
    rw [pushEdge_concat] at mem
    rcases mem_append.mp mem with earlier | final
    · exact all edge (mem_append_left _ earlier)
    · split at final
      · rw [mem_singleton.mp final]
        exact unions _ _ lastHolds next
      · rcases mem_cons.mp final with rfl | final
        · exact lastHolds
        · rw [mem_singleton.mp final]
          exact next

lemma foldl_pushEdge_closed {α : Type} {pending : List α}
    {rangeOf : α -> alg.Ranges} {nodeOf : α -> N} : ∀ {edges : List (alg.Ranges × N)},
      (∀ edge ∈ edges, holds edge.1) ->
      (∀ next ∈ pending, holds (rangeOf next)) ->
      ∀ edge, edge ∈ pending.foldl
        (fun edges next => pushEdge alg same edges (rangeOf next) (nodeOf next)) edges ->
        holds edge.1 := by
  induction pending with
  | nil => exact fun all _ => all
  | cons next pending ih =>
    intro edges all pendingHold
    exact ih (pushEdge_closed alg unions all (pendingHold next mem_cons_self))
      (forall_mem_cons.mp pendingHold).2

lemma mapRanges_closed {same : M -> M -> Bool} {map : N -> M} (all : ∀ edge ∈ edges, holds edge.1) :
    ∀ edge ∈ mapRanges alg same map edges, holds edge.1 :=
  foldl_pushEdge_closed alg unions (forall_mem_nil _) all

lemma applyRanges_closed {same : O -> O -> Bool} {apply : N -> M -> O}
    {left : List (alg.Ranges × N)} {right : List (alg.Ranges × M)}
    (intersections : ∀ range range', holds range -> holds range' ->
      holds (alg.intersection range range')) (all : ∀ edge ∈ left, holds edge.1)
    (all' : ∀ edge ∈ right, holds edge.1) :
    ∀ edge ∈ applyRanges alg same apply left right, holds edge.1 := by
  rw [applyRanges_eq]
  refine foldl_pushEdge_closed alg unions (forall_mem_nil _) ?_
  intro piece mem
  rcases mem_flatMap.mp mem with ⟨edge, edgeListed, mem⟩
  rcases mem_filterMap.mp mem with ⟨edge', edgeListed', found⟩
  split at found
  · exact absurd found (Option.some_ne_none _).symm
  · rw [<- Option.some.inj found]
    exact intersections _ _ (all' edge' edgeListed') (all edge edgeListed)

end

end Uv.Marker
