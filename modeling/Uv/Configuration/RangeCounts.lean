import Uv.Library.HeapTree

namespace Uv.Configuration

open Library

/-!
# Counts over an interval of coordinates

`RangeCounts` is a segment tree in two arrays.  A range of coordinates is counted
up or down at once, and the least count of a range is asked for.  An increment
stays at the topmost nodes that lie in the range, so the minimum of a node leaves
out what its ancestors hold.  Reading or writing outside the arrays is a panic, and so
is a sum that is no `isize`.
-/

/-- The least count of an empty range. -/
def isizeMax : Int := 2 ^ 63 - 1

/-- How counts are added. -/
abbrev Addition := Int -> Int -> Option Int

/-- The sum of two values of `isize`.  Without checks one that does not fit wraps around. -/
def isizeAdd : Addition := fun left right =>
  if -isizeMax - 1 <= left + right /\ left + right <= isizeMax then some (left + right) else none

/-- The sum without a bound, for counts that do not come near one. -/
def exactAdd : Addition := fun left right => some (left + right)

structure RangeCounts where
  len : Nat
  minimum : Array Int
  lazy : Array Int

namespace RangeCounts

def new (len : Nat) : RangeCounts where
  len := len
  minimum := Array.replicate (4 * len) 0
  lazy := Array.replicate (4 * len) 0

variable {right : Nat} {left start stop : Nat}

lemma first_smaller (meets : ¬ (stop <= left \/ right <= start))
    (partly : ¬ (start <= left /\ right <= stop)) :
    left + (right - left) / 2 - left < right - left := by
  omega

lemma second_smaller (meets : ¬ (stop <= left \/ right <= start))
    (partly : ¬ (start <= left /\ right <= stop)) :
    right - (left + (right - left) / 2) < right - left := by
  omega

variable (plus : Addition)

def addNode (counts : RangeCounts) (node left right start stop : Nat) (delta : Int) :
    Option RangeCounts :=
  if meets : stop <= left \/ right <= start then some counts
  else if partly : start <= left /\ right <= stop then do
    let least <- counts.minimum[node]?
    let least <- plus least delta
    let own <- counts.lazy[node]?
    let own <- plus own delta
    some { counts with
      minimum := counts.minimum.setIfInBounds node least
      lazy := counts.lazy.setIfInBounds node own }
  else do
    let middle := left + (right - left) / 2
    let counts <- addNode counts (node * 2) left middle start stop delta
    let counts <- addNode counts (node * 2 + 1) middle right start stop delta
    let own <- counts.lazy[node]?
    let first <- counts.minimum[node * 2]?
    let second <- counts.minimum[node * 2 + 1]?
    let least <- plus own (min first second)
    if node < counts.minimum.size then
      some { counts with minimum := counts.minimum.setIfInBounds node least }
    else none
termination_by right - left
decreasing_by
  · exact first_smaller meets partly
  · exact second_smaller meets partly

variable (counts : RangeCounts)

def add (start stop : Nat) (delta : Int) : Option RangeCounts :=
  counts.addNode plus 1 0 counts.len start stop delta

def minimumNode (counts : RangeCounts) (node left right start stop : Nat) (parent : Int) :
    Option Int :=
  if meets : stop <= left \/ right <= start then some isizeMax
  else if partly : start <= left /\ right <= stop then do
    let least <- counts.minimum[node]?
    plus parent least
  else do
    let middle := left + (right - left) / 2
    let own <- counts.lazy[node]?
    let parent <- plus parent own
    let first <- counts.minimumNode (node * 2) left middle start stop parent
    let second <- counts.minimumNode (node * 2 + 1) middle right start stop parent
    some (min first second)
termination_by right - left
decreasing_by
  · exact first_smaller meets partly
  · exact second_smaller meets partly

/-- The least count between two coordinates. -/
def minimumOf (start stop : Nat) : Option Int :=
  counts.minimumNode plus 1 0 counts.len start stop 0

/-! ## What the arrays stand for -/

/-- The node and the nodes below it hold the counts of the coordinates from `left`
to `right`, except for what the ancestors of the node hold, which is `parent` together.
Neither what they hold nor the increments on the way from the root exceed the bound. -/
inductive Holds (bound : Nat) (minimum lazy : Array Int) (count : Nat -> Int) :
    Nat -> Nat -> Nat -> Int -> Prop where
  | leaf {node left : Nat} {parent own : Int}
      (readMinimum : minimum[node]? = some own) (readLazy : lazy[node]? = some own)
      (small : own.natAbs <= bound) (reached : (parent + own).natAbs <= bound)
      (counted : count left = parent + own) : Holds bound minimum lazy count node left (left + 1) parent
  | branch {node left right : Nat} {parent own least least' : Int} (wide : left + 2 <= right)
      (below : Holds bound minimum lazy count (node * 2) left (left + (right - left) / 2)
        (parent + own))
      (below' : Holds bound minimum lazy count (node * 2 + 1) (left + (right - left) / 2) right
        (parent + own))
      (readFirst : minimum[node * 2]? = some least)
      (readSecond : minimum[node * 2 + 1]? = some least')
      (readLazy : lazy[node]? = some own)
      (readMinimum : minimum[node]? = some (own + min least least'))
      (small : own.natAbs <= bound) (reached : (parent + own).natAbs <= bound)
      (bounded : ∀ coordinate, left <= coordinate -> coordinate < right ->
        (count coordinate - parent).natAbs <= bound) :
      Holds bound minimum lazy count node left right parent

namespace Holds

variable {bound : Nat} {minimum lazy : Array Int} {node left right : Nat} {parent : Int}
  {count : Nat -> Int}

section

variable (holds : Holds bound minimum lazy count node left right parent)

include holds

lemma nonempty : left < right := by
  cases holds <;> omega

/-- The minimum of a node is the least count below it. -/
lemma least :
    ∃ value, minimum[node]? = some value /\
      (∀ coordinate, left <= coordinate -> coordinate < right ->
        parent + value <= count coordinate) /\
      ∃ coordinate, left <= coordinate /\ coordinate < right /\ count coordinate = parent + value := by
  induction holds with
  | leaf readMinimum readLazy _ _ counted =>
    refine ⟨_, readMinimum, fun coordinate low high => ?_, _, Nat.le_refl _, Nat.lt_succ_self _,
      counted⟩
    have same := Nat.le_antisymm low (Nat.lt_succ_iff.mp high)
    rw [<- same, counted]
  | @branch node left right parent own least least' wide below below' readFirst readSecond readLazy
      readMinimum _ _ _ ih ih' =>
    rcases ih with ⟨value, read, lower, coordinate, low, high, same⟩
    rcases ih' with ⟨value', read', lower', coordinate', low', high', same'⟩
    rw [readFirst] at read
    rw [readSecond] at read'
    cases read
    cases read'
    refine ⟨_, readMinimum, fun coordinate low high => ?_, ?_⟩
    · by_cases early : coordinate < left + (right - left) / 2
      · have bound := lower coordinate low early
        omega
      · have bound := lower' coordinate (Nat.not_lt.mp early) high
        omega
    · by_cases smaller : least <= least'
      · exact ⟨coordinate, low, by omega, by omega⟩
      · exact ⟨coordinate', by omega, high', by omega⟩

lemma bounded {coordinate : Nat} (low : left <= coordinate) (high : coordinate < right) :
    (count coordinate - parent).natAbs <= bound := by
  cases holds with
  | leaf _ _ small _ counted =>
    have same := Nat.le_antisymm low (Nat.lt_succ_iff.mp high)
    rwa [<- same, counted, add_sub_cancel_left]
  | branch _ _ _ _ _ _ _ _ _ bounded => exact bounded coordinate low high

/-- The counts together with what the ancestors hold. -/
lemma reached {coordinate : Nat} (low : left <= coordinate) (high : coordinate < right) :
    (count coordinate).natAbs <= bound := by
  induction holds with
  | leaf _ _ _ reached counted =>
    have same := Nat.le_antisymm low (Nat.lt_succ_iff.mp high)
    rwa [<- same, counted]
  | @branch _ left right _ _ _ _ _ _ _ _ _ _ _ _ _ _ ih ih' =>
    by_cases early : coordinate < left + (right - left) / 2
    · exact ih low early
    · exact ih' (Nat.not_lt.mp early) high

lemma readLazy : ∃ own, lazy[node]? = some own /\ own.natAbs <= bound := by
  cases holds with
  | leaf _ readLazy small => exact ⟨_, readLazy, small⟩
  | branch _ _ _ _ _ readLazy _ small => exact ⟨_, readLazy, small⟩

/-- What is held depends on the nodes below only.  The ancestors add to the counts and to the
bound. -/
lemma frame {bound' : Nat} {minimum' lazy' : Array Int} {parent' : Int} {count' : Nat -> Int}
    (shift : (parent' - parent).natAbs + bound <= bound')
    (sameMinimum : ∀ place, Under node place -> minimum'[place]? = minimum[place]?)
    (sameLazy : ∀ place, Under node place -> lazy'[place]? = lazy[place]?)
    (sameCount : ∀ coordinate, left <= coordinate -> coordinate < right ->
      count' coordinate = count coordinate + (parent' - parent)) :
    Holds bound' minimum' lazy' count' node left right parent' := by
  induction holds generalizing parent' with
  | leaf readMinimum readLazy small reached counted =>
    have same := sameCount _ (Nat.le_refl _) (Nat.lt_succ_self _)
    exact .leaf ((sameMinimum _ (.refl _)).trans readMinimum)
      ((sameLazy _ (.refl _)).trans readLazy) (by omega) (by omega) (by omega)
  | branch wide below below' readFirst readSecond readLazy readMinimum small reached bounded ih ih' =>
    refine .branch wide
      (ih (by omega) (fun place under => sameMinimum place under.of_double)
        (fun place under => sameLazy place under.of_double) fun coordinate low high => ?_)
      (ih' (by omega) (fun place under => sameMinimum place under.of_double_succ)
        (fun place under => sameLazy place under.of_double_succ) fun coordinate low high => ?_)
      ((sameMinimum _ (Under.refl _).of_double).trans readFirst)
      ((sameMinimum _ (Under.refl _).of_double_succ).trans readSecond)
      ((sameLazy _ (.refl _)).trans readLazy)
      ((sameMinimum _ (.refl _)).trans readMinimum) (by omega) (by omega)
      fun coordinate low high => ?_
    · rw [sameCount coordinate low (by omega)]
      omega
    · rw [sameCount coordinate (by omega) high]
      omega
    · have before := bounded coordinate low high
      rw [sameCount coordinate low high]
      omega

end

end Holds

/-! ## The operations -/

lemma holds_new {len : Nat} (size : Nat) :
    ∀ {node left right : Nat}, right - left <= size -> Covers len node left right ->
      Holds 0 (new len).minimum (new len).lazy (fun _ => 0) node left right 0 := by
  have zero : ∀ {node left right : Nat}, Covers len node left right ->
      (Array.replicate (4 * len) (0 : Int))[node]? = some 0 := by
    intro node left right covers
    rw [Array.getElem?_replicate, if_pos covers.lt_size]
  induction size with
  | zero =>
    intro node left right small covers
    have nonempty := covers.nonempty
    omega
  | succ size ih =>
    intro node left right small covers
    have nonempty := covers.nonempty
    by_cases wide : left + 2 <= right
    · exact .branch wide (ih (by omega) (covers.first wide)) (ih (by omega) (covers.second wide))
        (zero (covers.first wide)) (zero (covers.second wide)) (zero covers) (zero covers)
        (Nat.le_refl _) (Nat.le_refl _) fun _ _ _ => Nat.le_refl _
    · have single : right = left + 1 := by omega
      rw [single]
      exact .leaf (zero covers) (zero covers) (Nat.le_refl _) (Nat.le_refl _) rfl

variable {counts : RangeCounts} {count : Nat -> Int} {plus : Addition} {bound : Nat}

/-- Sums up to the bound are exact. -/
def Fits (plus : Addition) (bound : Nat) : Prop :=
  ∀ first second, (first + second).natAbs <= bound -> plus first second = some (first + second)

/-- The least of the counts asked for, or `isize::MAX`. -/
structure IsAnswer (asked : Nat -> Prop) (count : Nat -> Int) (value : Int) : Prop where
  lower (coordinate : Nat) : asked coordinate -> value <= count coordinate
  attained : value = isizeMax \/ ∃ coordinate, asked coordinate /\ count coordinate = value

/-- The answer is at least a bound exactly when all counts asked for are. -/
lemma IsAnswer.le_iff {asked : Nat -> Prop} {value bound : Int}
    (answer : IsAnswer asked count value) (small : bound <= isizeMax) :
    bound <= value <-> ∀ coordinate, asked coordinate -> bound <= count coordinate := by
  constructor
  · intro le coordinate inside
    exact le.trans (answer.lower coordinate inside)
  · intro all
    rcases answer.attained with rfl | ⟨coordinate, inside, rfl⟩
    · exact small
    · exact all coordinate inside

lemma minimumNode_spec (fits : Fits plus bound) (start stop size : Nat) :
    ∀ {node left right : Nat} {parent : Int}, right - left <= size ->
      Holds bound counts.minimum counts.lazy count node left right parent -> ∃ value,
        counts.minimumNode plus node left right start stop parent = some value /\
          IsAnswer (fun place => (left <= place /\ place < right) /\ start <= place /\ place < stop)
            count value := by
  induction size with
  | zero =>
    intro node left right parent small holds
    have nonempty := holds.nonempty
    omega
  | succ size ih =>
    intro node left right parent small holds
    rw [minimumNode]
    by_cases apart : stop <= left \/ right <= start
    · rw [dif_pos apart]
      exact ⟨_, rfl, fun place asked => by omega, .inl rfl⟩
    · rw [dif_neg apart]
      by_cases inside : start <= left /\ right <= stop
      · rcases holds.least with ⟨value, read, lower, place, low, high, same⟩
        simp only [dif_pos inside, read, Option.bind_eq_bind, Option.bind_some]
        exact ⟨_, fits _ _ (same ▸ holds.reached low high),
          fun other asked => lower other asked.1.1 asked.1.2, .inr ⟨place, by omega, same⟩⟩
      · rw [dif_neg inside]
        cases holds with
        | leaf => omega
        | branch wide below below' _ _ readLazy _ _ reached =>
          rcases ih (by omega) below with ⟨value, found, lower, attained⟩
          rcases ih (by omega) below' with ⟨value', found', lower', attained'⟩
          simp only [readLazy, fits _ _ reached, Option.bind_eq_bind, Option.bind_some, found, found']
          refine ⟨_, rfl, fun place asked => ?_, ?_⟩
          · by_cases before : place < left + (right - left) / 2
            · exact min_le_of_left_le (lower place ⟨⟨asked.1.1, before⟩, asked.2⟩)
            · exact min_le_of_right_le (lower' place ⟨⟨Nat.not_lt.mp before, asked.1.2⟩, asked.2⟩)
          · rcases min_choice value value' with same | same
            · rw [same]
              exact attained.imp_right fun ⟨place, asked, reached⟩ => ⟨place, by omega, reached⟩
            · rw [same]
              exact attained'.imp_right fun ⟨place, asked, reached⟩ => ⟨place, by omega, reached⟩

/-- What an update leaves as it was. -/
structure SameOutside (node : Nat) (counts counts' : RangeCounts) : Prop where
  len : counts'.len = counts.len
  size : counts'.minimum.size = counts.minimum.size
  minimum (place : Nat) : ¬ Under node place -> counts'.minimum[place]? = counts.minimum[place]?
  lazy (place : Nat) : ¬ Under node place -> counts'.lazy[place]? = counts.lazy[place]?

/-- The counts after a range was counted up. -/
def raised (count : Nat -> Int) (start stop : Nat) (delta : Int) (coordinate : Nat) : Int :=
  if start <= coordinate /\ coordinate < stop then count coordinate + delta else count coordinate

variable {node : Nat}

lemma getElem?_setIfInBounds_own {values : Array Int} {value : Int}
    (read : values[node]? = some value) (changed : Int) :
    (values.setIfInBounds node changed)[node]? = some changed := by
  have inBounds : node < values.size := (Array.getElem?_eq_some_iff.mp read).choose
  rw [Array.getElem?_setIfInBounds_self_of_lt inBounds]

lemma getElem?_setIfInBounds_outside (values : Array Int) (changed : Int)
    (place : Nat) (outside : ¬ Under node place) :
    (values.setIfInBounds node changed)[place]? = values[place]? := by
  refine Array.getElem?_setIfInBounds_ne ?_
  rintro rfl
  exact outside (.refl _)

/-- The nodes below a node do not change with it. -/
lemma getElem?_setIfInBounds_below (values : Array Int) (changed : Int)
    (positive : 0 < node) (place : Nat)
    (under : Under (node * 2) place \/ Under (node * 2 + 1) place) :
    (values.setIfInBounds node changed)[place]? = values[place]? :=
  Array.getElem?_setIfInBounds_ne (Under.not_parent under positive).symm

section

variable {left right : Nat} {parent own : Int} (positive : 0 < node)

include positive

/-- All coordinates below a node are counted up at the node itself. -/
lemma Holds.raise {least : Int} {count' : Nat -> Int} (delta : Int)
    (holds : Holds bound counts.minimum counts.lazy count node left right parent)
    (readMinimum : counts.minimum[node]? = some least) (readLazy : counts.lazy[node]? = some own)
    (counted' : ∀ coordinate, left <= coordinate -> coordinate < right ->
      count' coordinate = count coordinate + delta) :
    Holds (bound + delta.natAbs) (counts.minimum.setIfInBounds node (least + delta))
      (counts.lazy.setIfInBounds node (own + delta)) count' node left right parent := by
  have below_eq := fun values changed =>
    @getElem?_setIfInBounds_below node values changed positive
  cases holds with
  | leaf read readOwn small reached counted =>
    rw [read] at readMinimum
    rw [readOwn] at readLazy
    cases readMinimum
    cases readLazy
    refine .leaf (getElem?_setIfInBounds_own read _) (getElem?_setIfInBounds_own readOwn _)
      (by omega) (by omega) ?_
    rw [counted' _ (Nat.le_refl _) (Nat.lt_succ_self _), counted, Int.add_assoc]
  | branch wide below below' readFirst readSecond readOwn read small reached bounded =>
    rw [read] at readMinimum
    rw [readOwn] at readLazy
    cases readMinimum
    cases readLazy
    refine .branch wide
      (below.frame (by omega) (fun _ under => below_eq _ _ _ (.inl under))
        (fun _ under => below_eq _ _ _ (.inl under)) fun coordinate above beneath => ?_)
      (below'.frame (by omega) (fun _ under => below_eq _ _ _ (.inr under))
        (fun _ under => below_eq _ _ _ (.inr under)) fun coordinate above beneath => ?_)
      ((below_eq _ _ _ (.inl (.refl _))).trans readFirst)
      ((below_eq _ _ _ (.inr (.refl _))).trans readSecond)
      (getElem?_setIfInBounds_own readOwn _) ?_ (by omega) (by omega)
      fun coordinate above beneath => ?_
    · rw [counted' coordinate above (by omega)]
      omega
    · rw [counted' coordinate (by omega) beneath]
      omega
    · rw [getElem?_setIfInBounds_own read, Int.add_right_comm]
    · have before := bounded coordinate above beneath
      rw [counted' coordinate above beneath]
      omega

/-- The minimum of a node is read off its children.  It is a count less what the ancestors
hold, and so it fits. -/
lemma Holds.rebuild {minimum lazy : Array Int} {old : Int} (wide : left + 2 <= right)
    (below : Holds bound minimum lazy count (node * 2) left (left + (right - left) / 2) (parent + own))
    (below' : Holds bound minimum lazy count (node * 2 + 1) (left + (right - left) / 2) right
      (parent + own))
    (readLazy : lazy[node]? = some own) (readOld : minimum[node]? = some old)
    (small : own.natAbs <= bound) (reached : (parent + own).natAbs <= bound)
    (bounded : ∀ coordinate, left <= coordinate -> coordinate < right ->
      (count coordinate - parent).natAbs <= bound) :
    ∃ low low', minimum[node * 2]? = some low /\ minimum[node * 2 + 1]? = some low' /\
      (own + min low low').natAbs <= bound /\
      Holds bound (minimum.setIfInBounds node (own + min low low')) lazy count node left right
        parent := by
  rcases below.least with ⟨low, readLow, _, place, above, beneath, attained⟩
  rcases below'.least with ⟨low', readLow', _, place', above', beneath', attained'⟩
  have first := bounded place above (by omega)
  have second := bounded place' (by omega) beneath'
  have below_eq := @getElem?_setIfInBounds_below node minimum (own + min low low') positive
  refine ⟨low, low', readLow, readLow', by omega, .branch wide
    (below.frame (by omega) (fun _ under => below_eq _ (.inl under)) (fun _ _ => rfl)
      fun _ _ _ => by omega)
    (below'.frame (by omega) (fun _ under => below_eq _ (.inr under)) (fun _ _ => rfl)
      fun _ _ _ => by omega)
    ((below_eq _ (.inl (.refl _))).trans readLow) ((below_eq _ (.inr (.refl _))).trans readLow')
    readLazy (getElem?_setIfInBounds_own readOld _) small reached bounded⟩

end

lemma addNode_spec (start stop : Nat) (delta : Int) (fits : Fits plus (bound + delta.natAbs))
    (size : Nat) :
    ∀ {counts : RangeCounts} {node left right : Nat} {parent : Int},
      right - left <= size -> 0 < node ->
      Holds bound counts.minimum counts.lazy count node left right parent ->
      ∃ counts', counts.addNode plus node left right start stop delta = some counts' /\
        SameOutside node counts counts' /\ Holds (bound + delta.natAbs) counts'.minimum counts'.lazy
          (raised count start stop delta) node left right parent := by
  induction size with
  | zero =>
    intro counts node left right parent small positive holds
    have nonempty := holds.nonempty
    omega
  | succ size ih =>
    intro counts node left right parent small positive holds
    rw [addNode]
    by_cases apart : stop <= left \/ right <= start
    · rw [dif_pos apart]
      refine ⟨counts, rfl, ⟨rfl, rfl, fun _ _ => rfl, fun _ _ => rfl⟩,
        holds.frame (by omega) (fun _ _ => rfl) (fun _ _ => rfl) fun coordinate above beneath => ?_⟩
      rw [raised, if_neg (by omega)]
      omega
    · rw [dif_neg apart]
      by_cases inside : start <= left /\ right <= stop
      · rcases holds.least with ⟨least, readMinimum, _, place, low, high, same⟩
        rcases holds.readLazy with ⟨own, readLazy, smallOwn⟩
        have smallLeast := holds.bounded low high
        rw [dif_pos inside]
        simp only [readMinimum, readLazy, fits least delta (by omega), fits own delta (by omega),
          Option.bind_eq_bind, Option.bind_some]
        refine ⟨_, rfl, ⟨rfl, Array.size_setIfInBounds, ?_, ?_⟩,
          holds.raise positive delta readMinimum readLazy fun coordinate above beneath => ?_⟩
        · exact getElem?_setIfInBounds_outside _ _
        · exact getElem?_setIfInBounds_outside _ _
        · exact if_pos (by omega)
      · rw [dif_neg inside]
        cases holds with
        | leaf => omega
        | @branch _ _ _ _ own _ _ wide below below' _ _ readLazy readMinimum smallOwn reached bounded =>
          -- the first child, then the second one in the arrays that the first call left
          rcases ih (by omega) (by omega) below with ⟨counts₁, added₁, same₁, below₁⟩
          have kept : Holds bound counts₁.minimum counts₁.lazy count (node * 2 + 1) _ right
              (parent + own) :=
            below'.frame (by omega)
              (fun place under => same₁.minimum place fun under' => under'.siblings positive under)
              (fun place under => same₁.lazy place fun under' => under'.siblings positive under)
              fun _ _ _ => by omega
          rcases ih (by omega) (by omega) kept with ⟨counts₂, added₂, same₂, below₂⟩
          have kept₁ : Holds (bound + delta.natAbs) counts₂.minimum counts₂.lazy
              (raised count start stop delta) (node * 2) left _ (parent + own) :=
            below₁.frame (by omega) (fun place under => same₂.minimum place (under.siblings positive))
              (fun place under => same₂.lazy place (under.siblings positive)) fun _ _ _ => by omega
          have notFirst : ¬ Under (node * 2) node := fun under =>
            Under.not_parent (.inl under) positive rfl
          have notSecond : ¬ Under (node * 2 + 1) node := fun under =>
            Under.not_parent (.inr under) positive rfl
          have ownLazy : counts₂.lazy[node]? = some own := by
            rw [same₂.lazy node notSecond, same₁.lazy node notFirst, readLazy]
          have readOld := (same₂.minimum node notSecond).trans ((same₁.minimum node notFirst).trans
            readMinimum)
          have inBounds : node < counts₂.minimum.size :=
            (Array.getElem?_eq_some_iff.mp readOld).choose
          have boundedRaised : ∀ coordinate, left <= coordinate -> coordinate < right ->
              (raised count start stop delta coordinate - parent).natAbs <= bound + delta.natAbs := by
            intro coordinate above beneath
            have before := bounded coordinate above beneath
            rw [raised]
            split <;> omega
          rcases kept₁.rebuild positive wide below₂ ownLazy readOld (by omega) (by omega)
            boundedRaised with ⟨low, low', readLow, readLow', fit, rebuilt⟩
          simp only [added₁, added₂, ownLazy, readLow, readLow', fits _ _ fit, Option.bind_eq_bind,
            Option.bind_some, if_pos inBounds]
          refine ⟨_, rfl, ⟨same₂.len.trans same₁.len, ?_, ?_, ?_⟩, rebuilt⟩
          · rw [Array.size_setIfInBounds, same₂.size, same₁.size]
          · intro place outside
            rw [getElem?_setIfInBounds_outside _ _ place outside,
              same₂.minimum place fun under => outside under.of_double_succ,
              same₁.minimum place fun under => outside under.of_double]
          · intro place outside
            rw [same₂.lazy place fun under => outside under.of_double_succ,
              same₁.lazy place fun under => outside under.of_double]

/-! ## The whole tree -/

/-- The tree holds the counts of all its coordinates, and nothing in it exceeds the bound. -/
def Counts (counts : RangeCounts) (bound : Nat) (count : Nat -> Int) : Prop :=
  Holds bound counts.minimum counts.lazy count 1 0 counts.len 0

lemma counts_new {len : Nat} (positive : 0 < len) : (new len).Counts 0 fun _ => 0 :=
  holds_new len (Nat.le_refl _) (Covers.root positive)

lemma add_spec (holds : counts.Counts bound count) (start stop : Nat) (delta : Int)
    (fits : Fits plus (bound + delta.natAbs)) :
    ∃ counts', counts.add plus start stop delta = some counts' /\ counts'.len = counts.len /\
      counts'.Counts (bound + delta.natAbs) (raised count start stop delta) := by
  rcases addNode_spec start stop delta fits counts.len (Nat.le_refl _) Nat.one_pos holds with
    ⟨counts', added, same, held⟩
  refine ⟨counts', added, same.len, ?_⟩
  rw [Counts, same.len]
  exact held

lemma minimumOf_spec (holds : counts.Counts bound count) (fits : Fits plus bound)
    (start stop : Nat) :
    ∃ value, counts.minimumOf plus start stop = some value /\
      IsAnswer (fun place => place < counts.len /\ start <= place /\ place < stop) count value := by
  rcases minimumNode_spec fits start stop counts.len (Nat.le_refl _) holds with ⟨value, found, answer⟩
  simp only [Nat.zero_le, true_and] at answer
  exact ⟨value, found, answer⟩

/-! ## Sequences of additions -/

/-- Additions one after the other. -/
def addAll (plus : Addition) (counts : RangeCounts) : List (Nat × Nat × Int) -> Option RangeCounts
  | [] => some counts
  | (start, stop, delta) :: additions => do
    let counts <- counts.add plus start stop delta
    counts.addAll plus additions

/-- The counts after the additions, each coordinate on its own. -/
def naive (count : Nat -> Int) : List (Nat × Nat × Int) -> Nat -> Int
  | [] => count
  | (start, stop, delta) :: additions => naive (raised count start stop delta) additions

/-- The amounts of the additions without their signs. -/
def total (additions : List (Nat × Nat × Int)) : Nat :=
  (additions.map fun addition => addition.2.2.natAbs).sum

lemma Fits.mono {bound' : Nat} (fits : Fits plus bound') (le : bound <= bound') : Fits plus bound :=
  fun first second small => fits first second (small.trans le)

lemma addAll_spec (additions : List (Nat × Nat × Int)) :
    ∀ {counts : RangeCounts} {bound : Nat} {count : Nat -> Int}, counts.Counts bound count ->
      Fits plus (bound + total additions) ->
      ∃ counts', counts.addAll plus additions = some counts' /\ counts'.len = counts.len /\
        counts'.Counts (bound + total additions) (naive count additions) := by
  induction additions with
  | nil =>
    intro counts bound count holds _
    exact ⟨counts, rfl, rfl, holds⟩
  | cons addition additions ih =>
    intro counts bound count holds fits
    have sum : bound + total (addition :: additions) =
        bound + addition.2.2.natAbs + total additions := by
      rw [total, List.map_cons, List.sum_cons, Nat.add_assoc]
      rfl
    rw [sum] at fits ⊢
    rcases add_spec holds addition.1 addition.2.1 addition.2.2 (fits.mono (Nat.le_add_right _ _)) with
      ⟨next, added, len, held⟩
    rcases ih held fits with ⟨counts', ran, len', held'⟩
    refine ⟨counts', ?_, len'.trans len, held'⟩
    rw [addAll, added]
    exact ran

lemma fits_exactAdd (bound : Nat) : Fits exactAdd bound := fun _ _ _ => rfl

lemma fits_isizeAdd (small : (bound : Int) <= isizeMax) : Fits isizeAdd bound := by
  intro first second le
  exact if_pos (by omega)

/-- If the additions amount to an `isize` together, nothing overflows and no index leaves the
arrays, and the answer for a range is the least of its counts. -/
theorem minimumOf_addAll {len : Nat} (positive : 0 < len) (additions : List (Nat × Nat × Int))
    (small : (total additions : Int) <= isizeMax) :
    ∃ counts, (new len).addAll isizeAdd additions = some counts /\
      ∀ start stop, start < stop -> stop <= len ->
        ∃ value, counts.minimumOf isizeAdd start stop = some value /\
          (∀ place < stop, start <= place -> value <= naive (fun _ => 0) additions place) /\
          ∃ place < stop, start <= place /\ naive (fun _ => 0) additions place = value := by
  have fits := fits_isizeAdd small
  rcases addAll_spec additions (counts_new positive) (fits.mono (Nat.zero_add _).le) with
    ⟨counts, ran, same, holds⟩
  refine ⟨counts, ran, fun start stop nonempty inside => ?_⟩
  rcases minimumOf_spec holds (fits.mono (Nat.zero_add _).le) start stop with ⟨value, found, answer⟩
  have len : counts.len = len := same
  have lower : ∀ place < stop, start <= place -> value <= naive (fun _ => 0) additions place :=
    fun place beneath above => answer.lower place ⟨by omega, above, beneath⟩
  refine ⟨value, found, lower, ?_⟩
  rcases answer.attained with greatest | ⟨place, asked, reached⟩
  · -- The first count is at least the answer, which is the greatest value already.
    refine ⟨start, nonempty, Nat.le_refl _, Int.le_antisymm ?_ (lower start nonempty (Nat.le_refl _))⟩
    have bounded := Holds.bounded holds (Nat.zero_le start) (by omega)
    omega
  · exact ⟨place, asked.2.2, asked.2.1, reached⟩

theorem minimumOf_one_up_two_down :
    ∃ counts, (new 3).addAll isizeAdd [(0, 2, 1), (1, 3, -2)] = some counts /\
      counts.minimumOf isizeAdd 1 2 = some (-1) := by
  rcases minimumOf_addAll (by decide : 0 < 3) [(0, 2, 1), (1, 3, -2)] (by decide) with
    ⟨counts, ran, least⟩
  rcases least 1 2 (by decide) (by decide) with ⟨value, found, _, place, beneath, above, reached⟩
  have only : place = 1 := by omega
  refine ⟨counts, ran, found.trans ?_⟩
  rw [<- reached, only]
  rfl

/-- Both positions are counted up, down one by one, and up again: the counts are values of
`isize` at all times, but the increment at the root is not. -/
def upDownUp : List (Nat × Nat × Int) :=
  [(0, 2, isizeMax), (0, 1, -isizeMax), (1, 2, -isizeMax), (0, 2, isizeMax)]

theorem addAll_overflows : (new 2).addAll isizeAdd upDownUp = none /\
    ∀ steps < 5, ∀ place < 2, (naive (fun _ => 0) (upDownUp.take steps) place).natAbs <= isizeMax := by
  constructor
  · exact Option.isNone_iff_eq_none.mp (by decide +kernel)
  · decide

end RangeCounts

end Uv.Configuration
