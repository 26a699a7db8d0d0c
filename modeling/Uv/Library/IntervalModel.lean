import Uv.Library.Interval

namespace Uv.Library

open List Bool

/-!
# Interval sets as sorted cuts

A model of the interface of interval sets.  A set is stored as its membership
below all cuts and a strictly increasing list of cuts, at each of which the
membership changes.  Binary operations collect the cuts of both sets and keep
those at which the result changes.
-/

variable {V κ : Type}

/-- The boundary just before a value, or just after it. -/
structure Cut (V : Type) where
  value : V
  after : Bool

variable {cut : Cut V} {spot : Position V}

namespace Cut

/-- The first position above the cut. -/
def start (cut : Cut V) : Position V := ⟨cut.value, if cut.after then .above else .exact⟩

/-- The last position below the cut. -/
def stop (cut : Cut V) : Position V := ⟨cut.value, if cut.after then .exact else .below⟩

/-- The cut as a lower bound. -/
def lower (cut : Cut V) : Bound V :=
  if cut.after then .excluded cut.value else .included cut.value

/-- The cut as an upper bound. -/
def upper (cut : Cut V) : Bound V :=
  if cut.after then .included cut.value else .excluded cut.value

variable (cmp : V -> V -> Ordering)

/-- The position lies above the cut. -/
def passed (cut : Cut V) (spot : Position V) : Bool :=
  (Position.compare cmp cut.start spot).isLE

lemma admitsAbove_lower (cut : Cut V) (spot : Position V) :
    cut.lower.admitsAbove cmp spot = cut.passed cmp spot := by
  unfold lower passed start
  cases cut.after <;> rfl

section

variable [LinearOrder κ] {cmp : V -> V -> Ordering} {key : V -> κ} (ordered : OrderedBy cmp key)
include ordered

lemma passed_iff (cut : Cut V) (spot : Position V) :
    cut.passed cmp spot <->
      cut.start.place key <= spot.place key :=
  (Position.compare_orderedBy ordered).isLE_iff cut.start spot

/-- There is no position between the two sides of a cut. -/
lemma stop_le_iff (cut : Cut V) (spot : Position V) :
    spot.place key <= cut.stop.place key <-> cut.passed cmp spot = false := by
  have next : cut.start.side.rank = cut.stop.side.rank + 1 := by
    unfold start stop
    cases cut.after <;> rfl
  rw [<- not_eq_true, passed_iff ordered, not_le, Position.place, Position.place,
    Position.place, Prod.Lex.toLex_le_toLex, Prod.Lex.toLex_lt_toLex, next, Nat.lt_succ_iff]
  rfl

lemma passed_mono {spot' : Position V}
    (le : spot.place key <= spot'.place key) (above : cut.passed cmp spot) :
    cut.passed cmp spot' := by
  rw [passed_iff ordered] at above ⊢
  exact above.trans le

lemma passed_start (cut : Cut V) : cut.passed cmp cut.start :=
  (passed_iff ordered cut cut.start).mpr le_rfl

lemma passed_stop (cut : Cut V) : cut.passed cmp cut.stop = false :=
  (stop_le_iff ordered cut cut.stop).mp le_rfl

lemma stop_lt_start (cut : Cut V) : cut.stop.place key < cut.start.place key := by
  rw [<- not_le, <- passed_iff ordered, passed_stop ordered]
  exact false_ne_true

lemma not_passed_start {later : Cut V} (less : Position.compare cmp cut.start later.start = .lt) :
    later.passed cmp cut.start = false := by
  rw [(Position.compare_orderedBy ordered).lt_iff] at less
  rw [<- not_eq_true, passed_iff ordered, not_le]
  exact less

/-- Cuts in strict order: both sides of the later one are above the earlier one. -/
lemma passed_stop_of_lt {later : Cut V} (less : Position.compare cmp cut.start later.start = .lt) :
    cut.passed cmp later.stop := by
  rw [passed_iff ordered, stop_le_iff ordered]
  exact not_passed_start ordered less

lemma admitsBelow_upper (cut : Cut V) (spot : Position V) :
    cut.upper.admitsBelow cmp spot = !cut.passed cmp spot := by
  rw [Bool.eq_iff_iff, Bool.not_eq_true', <- stop_le_iff ordered]
  unfold upper stop
  cases cut.after <;> exact (Position.compare_orderedBy ordered).isLE_iff _ _

end

end Cut

/-! ## Membership -/

/-- Membership after the cuts of a list, which it meets in order. -/
def memFrom (cmp : V -> V -> Ordering) : Bool -> List (Cut V) -> Position V -> Bool
  | inside, [], _ => inside
  | inside, cut :: rest, spot =>
    if cut.passed cmp spot then memFrom cmp (!inside) rest spot else inside

abbrev Sorted (cmp : V -> V -> Ordering) (cuts : List (Cut V)) : Prop :=
  cuts.Pairwise fun cut later => Position.compare cmp cut.start later.start = .lt

variable {cuts : List (Cut V)}

section

variable [LinearOrder κ] {cmp : V -> V -> Ordering} {key : V -> κ}

lemma memFrom_not (inside : Bool) (cuts : List (Cut V)) (spot : Position V) :
    memFrom cmp (!inside) cuts spot = !memFrom cmp inside cuts spot := by
  induction cuts generalizing inside with
  | nil => rfl
  | cons cut rest ih =>
    rw [memFrom, memFrom]
    split
    · exact ih (!inside)
    · rfl

/-- Below all cuts nothing changes. -/
lemma memFrom_of_not_passed {inside : Bool} (below : ∀ cut ∈ cuts, cut.passed cmp spot = false) :
    memFrom cmp inside cuts spot = inside := by
  cases cuts with
  | nil => rfl
  | cons cut rest => rw [memFrom, below cut mem_cons_self, if_neg Bool.false_ne_true]

/-- Membership depends only on the cuts that are passed. -/
lemma memFrom_congr {inside : Bool} {spot' : Position V}
    (same : ∀ cut ∈ cuts, cut.passed cmp spot = cut.passed cmp spot') :
    memFrom cmp inside cuts spot = memFrom cmp inside cuts spot' := by
  induction cuts generalizing inside with
  | nil => rfl
  | cons cut rest ih =>
    rw [memFrom, memFrom, same cut mem_cons_self,
      ih (forall_mem_cons.mp same).2]

variable (ordered : OrderedBy cmp key)
include ordered

lemma not_passed_later {later : Cut V} (less : Position.compare cmp cut.start later.start = .lt)
    (below : cut.passed cmp spot = false) : later.passed cmp spot = false := by
  rw [(Position.compare_orderedBy ordered).lt_iff] at less
  rw [<- not_eq_true, Cut.passed_iff ordered] at below ⊢
  exact fun above => below (less.le.trans above)

/-- A function that changes at cuts only, read back from the cuts at which it
does change.  `above` holds after the cuts that were met before. -/
theorem memFrom_changes {function : Position V -> Bool} (cuts : List (Cut V)) :
    ∀ (above : Position V -> Prop) (value : Bool), Sorted cmp cuts ->
      (∀ spot spot', above spot -> above spot' ->
        (∀ cut ∈ cuts, cut.passed cmp spot = cut.passed cmp spot') ->
        function spot = function spot') ->
      (∀ cut ∈ cuts, above cut.start /\ above cut.stop) ->
      (∀ spot, above spot -> (∀ cut ∈ cuts, cut.passed cmp spot = false) ->
        function spot = value) ->
      ∀ spot, above spot ->
        memFrom cmp value
          (cuts.filter fun cut => function cut.stop != function cut.start) spot =
            function spot := by
  induction cuts with
  | nil =>
    intro above value _ _ _ initial spot holds
    exact (initial spot holds fun _ mem => absurd mem not_mem_nil).symm
  | cons cut rest ih =>
    intro above value sorted agrees sides initial spot holds
    rcases pairwise_cons.mp sorted with ⟨earlier, sortedRest⟩
    have belowAll : ∀ spot, cut.passed cmp spot = false ->
        ∀ later ∈ cut :: rest, later.passed cmp spot = false := by
      intro spot below later mem
      rcases mem_cons.mp mem with same | mem
      · rw [same]
        exact below
      · exact not_passed_later ordered (earlier later mem) below
    have beforeCut : function cut.stop = value :=
      initial cut.stop (sides cut mem_cons_self).2
        (belowAll cut.stop (Cut.passed_stop ordered cut))
    by_cases passes : cut.passed cmp spot = true
    · have tails := ih (fun spot => above spot /\ cut.passed cmp spot = true)
        (function cut.start) sortedRest ?_ ?_ ?_ spot ⟨holds, passes⟩
      · rw [<- tails, filter_cons]
        by_cases changes : function cut.stop = function cut.start
        · rw [if_neg (by rw [changes, bne_self_eq_false]; exact false_ne_true), <- changes,
            beforeCut]
        · have flipped : function cut.start = !value := by
            rw [beforeCut] at changes
            exact eq_not.mpr (Ne.symm changes)
          rw [if_pos (bne_iff_ne.mpr changes), memFrom, if_pos passes, flipped]
      · rintro spot spot' ⟨holds, passed⟩ ⟨holds', passed'⟩ same
        apply agrees spot spot' holds holds'
        intro later mem
        rcases mem_cons.mp mem with eq | mem
        · rw [eq, passed, passed']
        · exact same later mem
      · intro later mem
        rcases sides later (mem_cons_of_mem _ mem) with ⟨startAbove, stopAbove⟩
        have stopPassed := Cut.passed_stop_of_lt ordered (earlier later mem)
        exact ⟨⟨startAbove, Cut.passed_mono ordered (Cut.stop_lt_start ordered later).le stopPassed⟩,
          stopAbove, stopPassed⟩
      · rintro spot ⟨holds, passed⟩ below
        apply agrees spot cut.start holds (sides cut mem_cons_self).1
        intro later mem
        rcases mem_cons.mp mem with eq | mem
        · rw [eq, passed, Cut.passed_start ordered]
        · rw [below later mem, Cut.not_passed_start ordered (earlier later mem)]
    · rw [not_eq_true] at passes
      rw [initial spot holds (belowAll spot passes)]
      apply memFrom_of_not_passed
      intro later mem
      exact belowAll spot passes later (mem_of_mem_filter mem)

end

/-! ## Segments -/

/-- The segments between the cuts.  The state is the lower bound of the segment
that is being read, if there is one. -/
def segmentsFrom : Option (Bound V) -> List (Cut V) -> List (Segment V)
  | none, [] => []
  | some lower, [] => [⟨lower, .unbounded⟩]
  | none, cut :: rest => segmentsFrom (some cut.lower) rest
  | some lower, cut :: rest => ⟨lower, cut.upper⟩ :: segmentsFrom none rest

section

variable [LinearOrder κ] {cmp : V -> V -> Ordering} {key : V -> κ} (ordered : OrderedBy cmp key)
include ordered

/-- A lower bound below all cuts of a list admits what lies above any of them. -/
def BelowCuts (cmp : V -> V -> Ordering) (lower : Bound V) (cuts : List (Cut V)) : Prop :=
  ∀ cut ∈ cuts, ∀ spot, cut.passed cmp spot = true -> lower.admitsAbove cmp spot = true

lemma covers_segmentsFrom (cuts : List (Cut V)) (spot : Position V) :
    Sorted cmp cuts ->
      covers cmp (segmentsFrom none cuts) spot = memFrom cmp false cuts spot /\
        ∀ lower, BelowCuts cmp lower cuts ->
          covers cmp (segmentsFrom (some lower) cuts) spot =
            (lower.admitsAbove cmp spot && memFrom cmp true cuts spot) := by
  induction cuts with
  | nil =>
    intro _
    refine ⟨rfl, fun lower _ => ?_⟩
    rw [segmentsFrom, covers, any_cons, any_nil, Bool.or_false, Segment.admits,
      Bound.admitsBelow, memFrom]
  | cons cut rest ih =>
    intro sorted
    rcases pairwise_cons.mp sorted with ⟨earlier, sortedRest⟩
    rcases ih sortedRest with ⟨outside, inside⟩
    have below : BelowCuts cmp cut.lower rest := by
      intro later mem spot passed
      rw [Cut.admitsAbove_lower]
      by_contra notPassed
      rw [Bool.not_eq_true] at notPassed
      rw [not_passed_later ordered (earlier later mem) notPassed] at passed
      cases passed
    constructor
    · rw [segmentsFrom, inside cut.lower below, Cut.admitsAbove_lower, memFrom, Bool.not_false]
      cases cut.passed cmp spot <;> rfl
    · intro lower belowCuts
      rw [segmentsFrom, covers, any_cons, <- covers, outside, Segment.admits,
        Cut.admitsBelow_upper ordered, memFrom, Bool.not_true]
      cases passes : cut.passed cmp spot with
      | true =>
        rw [belowCuts cut mem_cons_self spot passes]
        rfl
      | false =>
        rw [memFrom_of_not_passed fun later mem =>
          not_passed_later ordered (earlier later mem) passes]
        simp

lemma segmentsFrom_inhabited (cuts : List (Cut V)) :
    Sorted cmp cuts ->
      (∀ segment ∈ segmentsFrom none cuts, ∃ spot, segment.admits cmp spot) /\
        ∀ (lower : Bound V) (witness : Position V), lower.admitsAbove cmp witness ->
          (∀ cut ∈ cuts, cut.passed cmp witness = false) ->
          ∀ segment ∈ segmentsFrom (some lower) cuts,
            ∃ spot, segment.admits cmp spot := by
  induction cuts with
  | nil =>
    intro _
    refine ⟨forall_mem_nil _, ?_⟩
    intro lower witness admitted _ segment mem
    rw [segmentsFrom, mem_singleton] at mem
    refine ⟨witness, ?_⟩
    rw [mem, Segment.admits, admitted]
    rfl
  | cons cut rest ih =>
    intro sorted
    rcases pairwise_cons.mp sorted with ⟨earlier, sortedRest⟩
    rcases ih sortedRest with ⟨outside, inside⟩
    constructor
    · apply inside cut.lower cut.start
      · rw [Cut.admitsAbove_lower, Cut.passed_start ordered]
      · exact fun later mem => Cut.not_passed_start ordered (earlier later mem)
    · intro lower witness admitted below segment mem
      rw [segmentsFrom] at mem
      rcases mem_cons.mp mem with same | mem
      · refine ⟨witness, ?_⟩
        rw [same, Segment.admits, admitted, Cut.admitsBelow_upper ordered, below cut mem_cons_self]
        rfl
      · exact outside segment mem

/-- All segments read after a cut lie above it. -/
lemma segmentsFrom_above {start : Position V} (cuts : List (Cut V)) :
    (∀ cut ∈ cuts, Position.compare cmp start cut.start = .lt) ->
      (∀ segment ∈ segmentsFrom none cuts, ∀ spot,
        segment.admits cmp spot -> Position.compare cmp start spot = .lt) /\
        ∀ lower : Bound V,
          (∀ spot, lower.admitsAbove cmp spot ->
            Position.compare cmp start spot = .lt) ->
          ∀ segment ∈ segmentsFrom (some lower) cuts, ∀ spot,
            segment.admits cmp spot -> Position.compare cmp start spot = .lt := by
  induction cuts with
  | nil =>
    intro _
    refine ⟨forall_mem_nil _, ?_⟩
    intro lower above segment mem spot admitted
    rw [segmentsFrom, mem_singleton] at mem
    rw [mem, Segment.admits, and_eq_true] at admitted
    exact above spot admitted.1
  | cons cut rest ih =>
    intro later
    rcases ih (forall_mem_cons.mp later).2 with ⟨outside, inside⟩
    constructor
    · apply inside cut.lower
      intro spot admitted
      have less := later cut mem_cons_self
      rw [Cut.admitsAbove_lower, Cut.passed_iff ordered] at admitted
      rw [(Position.compare_orderedBy ordered).lt_iff] at less ⊢
      exact less.trans_le admitted
    · intro lower above segment mem spot admitted
      rw [segmentsFrom] at mem
      rcases mem_cons.mp mem with same | mem
      · rw [same, Segment.admits, and_eq_true] at admitted
        exact above spot admitted.1
      · exact outside segment mem spot admitted

lemma segmentsFrom_pairwise (cuts : List (Cut V)) :
    Sorted cmp cuts -> ∀ state : Option (Bound V),
      (segmentsFrom state cuts).Pairwise (Segment.Before cmp) := by
  induction cuts with
  | nil =>
    intro _ state
    cases state with
    | none => exact List.Pairwise.nil
    | some lower => exact pairwise_singleton _ _
  | cons cut rest ih =>
    intro sorted state
    rcases pairwise_cons.mp sorted with ⟨earlier, sortedRest⟩
    cases state with
    | none => exact ih sortedRest (some cut.lower)
    | some lower =>
      refine pairwise_cons.mpr ⟨?_, ih sortedRest none⟩
      intro segment mem
      refine ⟨cut.start, ?_, (segmentsFrom_above ordered rest earlier).1 segment mem⟩
      intro spot admitted
      rw [Segment.admits, and_eq_true, Cut.admitsBelow_upper ordered, not_eq_true',
        <- not_eq_true, Cut.passed_iff ordered, not_le] at admitted
      exact ((Position.compare_orderedBy ordered).lt_iff _ _).mpr admitted.2

end

/-! ## Sets -/

/-- A set by its membership below all cuts and by its cuts. -/
structure CutSet (V : Type) (cmp : V -> V -> Ordering) where
  inside : Bool
  cuts : List (Cut V)
  sorted : Sorted cmp cuts

/-- Insert a cut, unless the list has an equal one. -/
def insertCut (cmp : V -> V -> Ordering) (cut : Cut V) : List (Cut V) -> List (Cut V)
  | [] => [cut]
  | next :: rest =>
    match Position.compare cmp cut.start next.start with
    | .lt => cut :: next :: rest
    | .eq => next :: rest
    | .gt => next :: insertCut cmp cut rest

namespace CutSet

variable {cmp : V -> V -> Ordering}

def mem (set : CutSet V cmp) (spot : Position V) : Bool :=
  memFrom cmp set.inside set.cuts spot

def segments (set : CutSet V cmp) : List (Segment V) :=
  segmentsFrom (if set.inside then some .unbounded else none) set.cuts

def isEmpty (set : CutSet V cmp) : Bool := !set.inside && set.cuts.isEmpty

end CutSet

lemma mem_insertCut {cmp : V -> V -> Ordering} {mem : Cut V}
    (found : mem ∈ insertCut cmp cut cuts) : mem = cut \/ mem ∈ cuts := by
  induction cuts with
  | nil => exact .inl (mem_singleton.mp found)
  | cons next rest ih =>
    rw [insertCut] at found
    split at found
    · exact mem_cons.mp found
    · exact .inr found
    · rcases mem_cons.mp found with same | found
      · exact .inr (mem_cons.mpr (.inl same))
      · rcases ih found with same | found
        · exact .inl same
        · exact .inr (mem_cons_of_mem _ found)

section

variable [LinearOrder κ] {cmp : V -> V -> Ordering} {key : V -> κ} (ordered : OrderedBy cmp key)
include ordered

lemma sorted_insertCut (cut : Cut V) (sorted : Sorted cmp cuts) :
    Sorted cmp (insertCut cmp cut cuts) := by
  induction cuts with
  | nil => exact pairwise_singleton _ _
  | cons next rest ih =>
    rcases pairwise_cons.mp sorted with ⟨earlier, sortedRest⟩
    rw [insertCut]
    split
    next less =>
      refine pairwise_cons.mpr ⟨?_, sorted⟩
      intro later mem
      rcases mem_cons.mp mem with same | mem
      · rw [same]
        exact less
      · have nextLess := earlier later mem
        rw [(Position.compare_orderedBy ordered).lt_iff] at less nextLess ⊢
        exact less.trans nextLess
    · exact sorted
    next greater =>
      refine pairwise_cons.mpr ⟨?_, ih sortedRest⟩
      intro later mem
      rcases mem_insertCut mem with same | mem
      · rw [same, (Position.compare_orderedBy ordered).lt_iff]
        exact ((Position.compare_orderedBy ordered).gt_iff _ _).mp greater
      · exact earlier later mem

/-- Each cut is passed together with one that is kept. -/
lemma insertCut_represents (cut : Cut V) (cuts : List (Cut V)) {given : Cut V}
    (mem : given = cut \/ given ∈ cuts) :
    ∃ kept ∈ insertCut cmp cut cuts, ∀ spot, kept.passed cmp spot = given.passed cmp spot := by
  induction cuts with
  | nil =>
    rcases mem with same | mem
    · exact ⟨cut, mem_singleton_self cut, fun _ => by rw [same]⟩
    · cases mem
  | cons next rest ih =>
    rw [insertCut]
    split
    · refine ⟨given, ?_, fun _ => rfl⟩
      rcases mem with same | mem
      · rw [same]
        exact mem_cons_self
      · exact mem_cons_of_mem _ mem
    next equal =>
      rcases mem with same | mem
      · refine ⟨next, mem_cons_self, fun spot => ?_⟩
        rw [(Position.compare_orderedBy ordered).eq_iff] at equal
        rw [Bool.eq_iff_iff, Cut.passed_iff ordered, Cut.passed_iff ordered, same, equal]
      · exact ⟨given, mem, fun _ => rfl⟩
    · rcases mem with same | mem
      · rcases ih (.inl same) with ⟨kept, found, passes⟩
        exact ⟨kept, mem_cons_of_mem _ found, passes⟩
      · rcases mem_cons.mp mem with same | mem
        · exact ⟨given, mem_cons.mpr (.inl same), fun _ => rfl⟩
        · rcases ih (.inr mem) with ⟨kept, found, passes⟩
          exact ⟨kept, mem_cons_of_mem _ found, passes⟩

lemma sorted_foldr_insertCut (left : List (Cut V)) {right : List (Cut V)}
    (sorted : Sorted cmp right) : Sorted cmp (left.foldr (insertCut cmp) right) := by
  induction left with
  | nil => exact sorted
  | cons cut rest ih => exact sorted_insertCut ordered cut ih

lemma foldr_insertCut_represents (left right : List (Cut V)) {given : Cut V}
    (mem : given ∈ left \/ given ∈ right) :
    ∃ kept ∈ left.foldr (insertCut cmp) right,
      ∀ spot, kept.passed cmp spot = given.passed cmp spot := by
  induction left with
  | nil =>
    rcases mem with mem | mem
    · cases mem
    · exact ⟨given, mem, fun _ => rfl⟩
  | cons cut rest ih =>
    have earlier : given = cut \/ given ∈ rest \/ given ∈ right := by
      rcases mem with mem | mem
      · rcases mem_cons.mp mem with same | mem
        · exact .inl same
        · exact .inr (.inl mem)
      · exact .inr (.inr mem)
    rcases earlier with same | mem
    · exact insertCut_represents ordered cut _ (.inl same)
    · rcases ih mem with ⟨kept, found, passes⟩
      rcases insertCut_represents ordered cut _ (.inr found) with ⟨kept', found', passes'⟩
      exact ⟨kept', found', fun spot => (passes' spot).trans (passes spot)⟩

end

namespace CutSet

variable [LinearOrder κ] {cmp : V -> V -> Ordering} {key : V -> κ}

/-- The cuts at which either set changes. -/
def candidates (left right : CutSet V cmp) : List (Cut V) :=
  left.cuts.foldr (insertCut cmp) right.cuts

variable (ordered : OrderedBy cmp key) (operation : Bool -> Bool -> Bool)

/-- A binary operation on membership, as one on sets. -/
def combine (left right : CutSet V cmp) : CutSet V cmp where
  inside := operation left.inside right.inside
  cuts := (candidates left right).filter fun cut =>
    operation (left.mem cut.stop) (right.mem cut.stop) !=
      operation (left.mem cut.start) (right.mem cut.start)
  sorted := (sorted_foldr_insertCut ordered left.cuts right.sorted).filter _

lemma mem_combine (left right : CutSet V cmp) (spot : Position V) :
    (combine ordered operation left right).mem spot =
      operation (left.mem spot) (right.mem spot) := by
  refine @memFrom_changes V κ _ cmp key ordered
    (fun spot => operation (left.mem spot) (right.mem spot))
    (candidates left right) (fun _ => True) (operation left.inside right.inside)
    (sorted_foldr_insertCut ordered left.cuts right.sorted) ?_ (fun _ _ => ⟨trivial, trivial⟩) ?_
    spot trivial
  · intro spot spot' _ _ same
    have agree : ∀ cut, cut ∈ left.cuts \/ cut ∈ right.cuts ->
        cut.passed cmp spot = cut.passed cmp spot' := by
      intro cut mem
      rcases foldr_insertCut_represents ordered left.cuts right.cuts mem with
        ⟨kept, found, passes⟩
      rw [<- passes, <- passes]
      exact same kept found
    exact congrArg₂ operation (memFrom_congr fun cut mem => agree cut (.inl mem))
      (memFrom_congr fun cut mem => agree cut (.inr mem))
  · intro spot _ below
    have outside : ∀ cut, cut ∈ left.cuts \/ cut ∈ right.cuts -> cut.passed cmp spot = false := by
      intro cut mem
      rcases foldr_insertCut_represents ordered left.cuts right.cuts mem with
        ⟨kept, found, passes⟩
      rw [<- passes]
      exact below kept found
    exact congrArg₂ operation (memFrom_of_not_passed fun cut mem => outside cut (.inl mem))
      (memFrom_of_not_passed fun cut mem => outside cut (.inr mem))

def complement (set : CutSet V cmp) : CutSet V cmp := { set with inside := !set.inside }

lemma mem_complement (set : CutSet V cmp) (spot : Position V) :
    set.complement.mem spot = !set.mem spot :=
  memFrom_not set.inside set.cuts spot

variable (inside : Bool)

def constant : CutSet V cmp := ⟨inside, [], List.Pairwise.nil⟩

def ofCut (cut : Cut V) : CutSet V cmp := ⟨inside, [cut], List.pairwise_singleton _ _⟩

def ofLower : Bound V -> CutSet V cmp
  | .included value => ofCut false ⟨value, false⟩
  | .excluded value => ofCut false ⟨value, true⟩
  | .unbounded => constant true

def ofUpper : Bound V -> CutSet V cmp
  | .included value => ofCut true ⟨value, true⟩
  | .excluded value => ofCut true ⟨value, false⟩
  | .unbounded => constant true

lemma mem_ofCut (cut : Cut V) (spot : Position V) :
    (ofCut inside cut : CutSet V cmp).mem spot = xor (cut.passed cmp spot) inside := by
  rw [mem, ofCut, memFrom, memFrom]
  cases cut.passed cmp spot <;> cases inside <;> rfl

lemma mem_ofLower (bound : Bound V) (spot : Position V) :
    (ofLower bound : CutSet V cmp).mem spot = bound.admitsAbove cmp spot := by
  cases bound with
  | included value | excluded value =>
    rw [ofLower, mem_ofCut, Bool.xor_false, <- Cut.admitsAbove_lower]
    rfl
  | unbounded => rfl

lemma mem_ofUpper (ordered : OrderedBy cmp key) (bound : Bound V) (spot : Position V) :
    (ofUpper bound : CutSet V cmp).mem spot = bound.admitsBelow cmp spot := by
  cases bound with
  | included value | excluded value =>
    rw [ofUpper, mem_ofCut, Bool.xor_true, <- Cut.admitsBelow_upper ordered]
    rfl
  | unbounded => rfl

section

variable (ordered : OrderedBy cmp key) (segment : Segment V)

def ofSegment : CutSet V cmp :=
  combine ordered and (ofLower segment.lower) (ofUpper segment.upper)

lemma mem_ofSegment (spot : Position V) :
    (ofSegment ordered segment).mem spot = segment.admits cmp spot := by
  rw [ofSegment, mem_combine, mem_ofLower, mem_ofUpper ordered, Segment.admits]

variable (list : List (Segment V))

def ofSegments : CutSet V cmp :=
  list.foldr (fun segment set => combine ordered or (ofSegment ordered segment) set)
    (constant false)

lemma mem_ofSegments (spot : Position V) :
    (ofSegments ordered list).mem spot = covers cmp list spot := by
  induction list with
  | nil => rfl
  | cons segment rest ih =>
    rw [ofSegments, foldr_cons, mem_combine, mem_ofSegment, <- ofSegments, ih, covers,
      covers, any_cons]

include ordered

lemma covers_segments (set : CutSet V cmp) (spot : Position V) :
    covers cmp set.segments spot = set.mem spot := by
  rcases covers_segmentsFrom ordered set.cuts spot set.sorted with ⟨outside, inside⟩
  rw [segments, mem]
  cases set.inside with
  | false => exact outside
  | true => exact inside .unbounded fun _ _ _ _ => rfl

lemma segment_inhabited [Inhabited V] (set : CutSet V cmp) (segment : Segment V)
    (mem : segment ∈ set.segments) :
    ∃ spot, segment.admits cmp spot := by
  rcases segmentsFrom_inhabited ordered set.cuts set.sorted with ⟨outside, inside⟩
  rw [segments] at mem
  cases start : set.inside with
  | false =>
    rw [start] at mem
    exact outside segment mem
  | true =>
    rw [start] at mem
    cases cuts : set.cuts with
    | nil =>
      refine inside .unbounded ⟨default, .exact⟩ rfl ?_ segment mem
      rw [cuts]
      exact forall_mem_nil _
    | cons cut rest =>
      refine inside .unbounded cut.stop rfl ?_ segment mem
      have sorted := set.sorted
      rw [cuts] at sorted ⊢
      intro later found
      rcases mem_cons.mp found with same | found
      · rw [same]
        exact Cut.passed_stop ordered cut
      · exact not_passed_later ordered ((pairwise_cons.mp sorted).1 later found)
          (Cut.passed_stop ordered cut)

omit ordered [LinearOrder κ] in
lemma isEmpty_iff (set : CutSet V cmp) : set.isEmpty <-> set.segments = [] := by
  have started : ∀ (lower : Bound V) (cuts : List (Cut V)),
      segmentsFrom (some lower) cuts ≠ [] := by
    intro lower cuts
    cases cuts with
    | nil => exact cons_ne_nil _ _
    | cons cut rest => exact cons_ne_nil _ _
  rw [isEmpty, segments]
  cases set.inside with
  | true => exact iff_of_false false_ne_true (started _ _)
  | false =>
    cases set.cuts with
    | nil => exact iff_of_true rfl rfl
    | cons cut rest => exact iff_of_false false_ne_true (started _ _)

lemma isEmpty_iff_mem [Inhabited V] (set : CutSet V cmp) :
    set.isEmpty <-> ∀ spot, set.mem spot = false := by
  rw [isEmpty_iff]
  constructor
  · intro empty spot
    rw [<- covers_segments ordered, empty]
    rfl
  · intro nowhere
    rw [eq_nil_iff_forall_not_mem]
    intro segment mem
    rcases segment_inhabited ordered set segment mem with ⟨spot, admitted⟩
    have covered : covers cmp set.segments spot :=
      any_eq_true.mpr ⟨segment, mem, admitted⟩
    rw [covers_segments ordered, nowhere spot] at covered
    cases covered

/-- Cut sets are an interval-set data type. -/
def algebra [Inhabited V] : RangeAlgebra V cmp where
  Ranges := CutSet V cmp
  segments := segments
  empty := constant false
  full := constant true
  singleton value := ofSegment ordered ⟨.included value, .included value⟩
  between low high := ofSegment ordered ⟨.included low, .excluded high⟩
  higherThan value := ofSegment ordered ⟨.included value, .unbounded⟩
  strictlyHigherThan value := ofSegment ordered ⟨.excluded value, .unbounded⟩
  lowerThan value := ofSegment ordered ⟨.unbounded, .included value⟩
  strictlyLowerThan value := ofSegment ordered ⟨.unbounded, .excluded value⟩
  fromRangeBounds := ofSegment ordered
  fromIter := ofSegments ordered
  complement := complement
  union := combine ordered or
  intersection := combine ordered and
  difference := combine ordered fun left right => left && !right
  contains set value := set.mem ⟨value, .exact⟩
  isEmpty := isEmpty
  eq left right := (combine ordered xor left right).isEmpty
  isDisjoint left right := (combine ordered and left right).isEmpty
  subsetOf left right := (combine ordered (fun left right => left && !right) left right).isEmpty
  boundingRange set := set.segments.head?.bind fun first =>
    set.segments.getLast?.map fun last => ⟨first.lower, last.upper⟩
  segment_inhabited := segment_inhabited ordered
  segments_sorted set := segmentsFrom_pairwise ordered set.cuts set.sorted _
  mem_empty _ := rfl
  mem_full spot := covers_segments ordered (constant true) spot
  mem_singleton value spot := by rw [covers_segments ordered, mem_ofSegment]
  mem_between low high _ spot := by rw [covers_segments ordered, mem_ofSegment]
  mem_higherThan value spot := by rw [covers_segments ordered, mem_ofSegment]
  mem_strictlyHigherThan value spot := by rw [covers_segments ordered, mem_ofSegment]
  mem_lowerThan value spot := by rw [covers_segments ordered, mem_ofSegment]
  mem_strictlyLowerThan value spot := by rw [covers_segments ordered, mem_ofSegment]
  mem_fromRangeBounds segment spot := by rw [covers_segments ordered, mem_ofSegment]
  mem_fromIter list spot := by rw [covers_segments ordered, mem_ofSegments]
  mem_complement set spot := by
    rw [covers_segments ordered, covers_segments ordered, mem_complement]
  mem_union left right spot := by simp only [covers_segments ordered, mem_combine]
  mem_intersection left right spot := by simp only [covers_segments ordered, mem_combine]
  mem_difference left right spot := by simp only [covers_segments ordered, mem_combine]
  contains_eq set value := (covers_segments ordered set _).symm
  isEmpty_iff := isEmpty_iff
  eq_iff left right := by
    simp only [isEmpty_iff_mem ordered, mem_combine, covers_segments ordered, bne_eq_false_iff_eq]
  isDisjoint_iff left right := by
    simp only [isEmpty_iff_mem ordered, mem_combine, covers_segments ordered]
  subsetOf_iff left right := by
    simp only [isEmpty_iff_mem ordered, mem_combine, covers_segments ordered,
      Bool.and_eq_false_iff, Bool.not_eq_false']
    exact forall_congr' fun spot => by rw [or_iff_not_imp_left, Bool.not_eq_false]
  boundingRange_eq _ := rfl

end

end CutSet

end Uv.Library
