import Uv.Library.Interval

namespace Uv.Library

open List

/-!
# Tilings of a line

A tiling cuts a line into tiles and gives each tile a value.  It is a way to
write down a function on the points of the line, and when neighbouring tiles
have different values it is the only way: `Tiled.unique`.  The line is any type
of points with a place in a linear order, and a tile is anything that decides
which points it contains.
-/

section

variable {P R N D κ : Type} [LinearOrder κ] (place : P -> κ) (mem : R -> P -> Bool)

def Precedes (first second : R) : Prop :=
  ∀ point point', mem first point = true -> mem second point' = true ->
    place point < place point'

/-- The tiles are inhabited, sorted, and cover exactly the region. -/
structure Tiled (region : P -> Prop) (tiles : List (R × N)) : Prop where
  inhabited : ∀ tile ∈ tiles, ∃ point, mem tile.1 point = true
  sorted : tiles.Pairwise fun first second => Precedes place mem first.1 second.1
  covers : ∀ point, region point <-> ∃ tile ∈ tiles, mem tile.1 point = true

/-- The value of the tile that contains the point. -/
def tileAt (tiles : List (R × N)) (point : P) : Option N :=
  (tiles.find? fun tile => mem tile.1 point).map Prod.snd

/-- Neighbouring tiles have values with different denotations. -/
def Distinct (den : N -> D) (tiles : List (R × N)) : Prop :=
  tiles.IsChain fun first second => den first.2 ≠ den second.2

variable {place mem} {region : P -> Prop}

lemma tileAt_cons (tile : R × N) (tiles : List (R × N)) (point : P) :
    tileAt mem (tile :: tiles) point =
      if mem tile.1 point then some tile.2 else tileAt mem tiles point := by
  rw [tileAt, find?_cons]
  cases mem tile.1 point <;> rfl

lemma tileAt_append (left right : List (R × N)) (point : P) :
    tileAt mem (left ++ right) point =
      (tileAt mem left point).or (tileAt mem right point) := by
  rw [tileAt, find?_append, Option.map_or, tileAt, tileAt]

variable {tiles : List (R × N)} {point : P}

lemma mem_of_tileAt {value : N} (found : tileAt mem tiles point = some value) :
    ∃ tile ∈ tiles, mem tile.1 point /\ tile.2 = value := by
  rcases Option.map_eq_some_iff.mp found with ⟨tile, found, same⟩
  have inside := find?_some found
  exact ⟨tile, mem_of_find?_eq_some found, inside, same⟩

variable {left : List (R × N)}

namespace Tiled

variable {tile : R × N}

section

variable (sorted : tiles.Pairwise fun first second => Precedes place mem first.1 second.1)
  {tile' : R × N} (listed : tile ∈ tiles) (listed' : tile' ∈ tiles)

include sorted listed listed'

/-- Of two different tiles, one precedes the other. -/
lemma precedes_or_precedes (different : tile ≠ tile') :
    Precedes place mem tile.1 tile'.1 \/ Precedes place mem tile'.1 tile.1 := by
  induction tiles with
  | nil => cases listed
  | cons head tail ih =>
    rw [pairwise_cons] at sorted
    rcases mem_cons.mp listed with same | later <;>
      rcases mem_cons.mp listed' with same' | later'
    · exact absurd (same.trans same'.symm) different
    · exact .inl (same ▸ sorted.1 _ later')
    · exact .inr (same' ▸ sorted.1 _ later)
    · exact ih sorted.2 later later'

/-- A point lies in one tile at most. -/
lemma apart (inside : mem tile.1 point) (inside' : mem tile'.1 point) : tile = tile' := by
  by_contra different
  rcases precedes_or_precedes sorted listed listed' different with before | before
  · exact lt_irrefl _ (before _ _ inside inside')
  · exact lt_irrefl _ (before _ _ inside' inside)

end

section

variable {tiles : List (R × N)} (tiled : Tiled place mem region tiles)

include tiled

lemma tileAt_of_mem (listed : tile ∈ tiles)
    (inside : mem tile.1 point) : tileAt mem tiles point = some tile.2 := by
  have found : (tiles.find? fun tile => mem tile.1 point).isSome := by
    rw [find?_isSome]
    exact ⟨tile, listed, inside⟩
  rcases Option.isSome_iff_exists.mp found with ⟨other, found⟩
  have holds := find?_some found
  have same := apart tiled.sorted (mem_of_find?_eq_some found) listed holds inside
  rw [tileAt, found, <- same, Option.map_some]

lemma tileAt_isSome (inside : region point) :
    ∃ value, tileAt mem tiles point = some value := by
  rcases (tiled.covers point).mp inside with ⟨tile, listed, inside⟩
  exact ⟨tile.2, tiled.tileAt_of_mem listed inside⟩

lemma exists_point (listed : tile ∈ tiles) :
    ∃ point, region point /\ tileAt mem tiles point = some tile.2 := by
  rcases tiled.inhabited tile listed with ⟨point, inside⟩
  exact ⟨point, (tiled.covers point).mpr ⟨tile, listed, inside⟩, tiled.tileAt_of_mem listed inside⟩

end

/-- Tiles that cover everything have no holes. -/
lemma convex (tiled : Tiled place mem (fun _ => True) tiles)
    (listed : tile ∈ tiles) {low high : P} (lowInside : mem tile.1 low)
    (highInside : mem tile.1 high) (above : place low <= place point)
    (below : place point <= place high) : mem tile.1 point := by
  rcases (tiled.covers point).mp trivial with ⟨other, otherListed, inside⟩
  by_cases same : tile = other
  · rw [same]
    exact inside
  · rcases precedes_or_precedes tiled.sorted listed otherListed same with before | before
    · exact absurd (before _ _ highInside inside) (not_lt.mpr below)
    · exact absurd (before _ _ inside lowInside) (not_lt.mpr above)

lemma tail (tiled : Tiled place mem region (tile :: tiles)) :
    Tiled place mem (fun point => region point /\ mem tile.1 point = false) tiles where
  inhabited other listed := tiled.inhabited other (mem_cons_of_mem _ listed)
  sorted := (pairwise_cons.mp tiled.sorted).2
  covers point := by
    rw [tiled.covers point]
    constructor
    · rintro ⟨⟨other, listed, inside⟩, outside⟩
      rcases mem_cons.mp listed with rfl | listed
      · exact absurd inside (Bool.eq_false_iff.mp outside)
      · exact ⟨other, listed, inside⟩
    · rintro ⟨other, listed, inside⟩
      refine ⟨⟨other, mem_cons_of_mem _ listed, inside⟩, ?_⟩
      rw [Bool.eq_false_iff]
      intro inside'
      exact lt_irrefl _ ((pairwise_cons.mp tiled.sorted).1 other listed _ _ inside' inside)

/-- Other values on the same tiles. -/
lemma mapValues {M : Type} (tiled : Tiled place mem region tiles) (map : N -> M) :
    Tiled place mem region (tiles.map fun tile => (tile.1, map tile.2)) where
  inhabited := by
    rintro _ image
    rcases mem_map.mp image with ⟨tile, listed, rfl⟩
    exact tiled.inhabited tile listed
  sorted := pairwise_map.mpr tiled.sorted
  covers point := by
    rw [tiled.covers point]
    constructor
    · rintro ⟨tile, listed, inside⟩
      exact ⟨_, mem_map_of_mem listed, inside⟩
    · rintro ⟨_, image, inside⟩
      rcases mem_map.mp image with ⟨tile, listed, rfl⟩
      exact ⟨tile, listed, inside⟩

/-! ## Uniqueness -/

section

variable (den : N -> D)

/-- The first tiles of two tilings of one region that agree.  If the second one
were smaller, its neighbour would start inside the first one. -/
lemma head_subset {first first' : R × N} {rest rest' : List (R × N)}
    (tiled : Tiled place mem region (first :: rest))
    (tiled' : Tiled place mem region (first' :: rest')) (distinct : Distinct den (first' :: rest'))
    (agree : ∀ point value value', tileAt mem (first :: rest) point = some value ->
      tileAt mem (first' :: rest') point = some value' -> den value = den value')
    (inside : mem first.1 point) : mem first'.1 point := by
  by_contra outside
  have below : ∀ point', region point' -> place point' < place point ->
      mem first.1 point' := by
    intro point' covered less
    rcases (tiled.covers point').mp covered with ⟨tile, listed, inside'⟩
    rcases mem_cons.mp listed with rfl | later
    · exact inside'
    · exact absurd ((pairwise_cons.mp tiled.sorted).1 tile later _ _ inside inside')
        less.asymm
  have covered := (tiled.covers point).mpr ⟨first, mem_cons_self, inside⟩
  rcases (tiled'.covers point).mp covered with ⟨tile, listed, inside'⟩
  rcases mem_cons.mp listed with rfl | later
  · exact outside inside'
  have sorted := pairwise_cons.mp tiled'.sorted
  -- The denotations on both sides of the cut are that of the larger tile.
  have reads : ∀ tile' ∈ first' :: rest', ∀ point', mem tile'.1 point' ->
      mem first.1 point' -> den first.2 = den tile'.2 := by
    intro tile' listed' point' here here'
    exact agree point' _ _ (tiled.tileAt_of_mem mem_cons_self here')
      (tiled'.tileAt_of_mem listed' here)
  rcases tiled'.inhabited first' mem_cons_self with ⟨low, lowInside⟩
  have lowCovered := (tiled'.covers low).mpr ⟨first', mem_cons_self, lowInside⟩
  have sameFirst := reads first' mem_cons_self low lowInside
    (below low lowCovered (sorted.1 tile later _ _ lowInside inside'))
  cases rest' with
  | nil => cases later
  | cons second rest' =>
    have listedSecond : second ∈ first' :: second :: rest' :=
      mem_cons_of_mem _ mem_cons_self
    have sameSecond : den first.2 = den second.2 := by
      rcases mem_cons.mp later with rfl | later
      · exact reads tile listedSecond point inside' inside
      · rcases tiled'.inhabited second listedSecond with ⟨next, nextInside⟩
        have nextCovered := (tiled'.covers next).mpr ⟨second, listedSecond, nextInside⟩
        have less := (pairwise_cons.mp sorted.2).1 tile later _ _ nextInside inside'
        exact reads second listedSecond next nextInside (below next nextCovered less)
    exact (isChain_cons_cons.mp distinct).1 (sameFirst.symm.trans sameSecond)

lemma ne_nil_of_cons {tiles' : List (R × N)}
    (tiled : Tiled place mem region (tile :: tiles)) (tiled' : Tiled place mem region tiles') :
    tiles' ≠ [] := by
  rintro rfl
  rcases tiled.inhabited tile mem_cons_self with ⟨point, inside⟩
  rcases (tiled'.covers point).mp
    ((tiled.covers point).mpr ⟨tile, mem_cons_self, inside⟩) with ⟨_, listed, _⟩
  exact not_mem_nil listed

/-- Two tilings with different neighbours that denote the same function have the
same tiles with the same denotations. -/
lemma unique : ∀ {right : List (R × N)} {region : P -> Prop},
    Tiled place mem region left -> Tiled place mem region right ->
    Distinct den left -> Distinct den right ->
    (∀ point value value', tileAt mem left point = some value ->
      tileAt mem right point = some value' -> den value = den value') ->
    List.Forall₂ (fun tile tile' =>
      (∀ point, mem tile.1 point = mem tile'.1 point) /\ den tile.2 = den tile'.2)
      left right := by
  induction left with
  | nil =>
    intro right region tiled tiled' _ _ _
    cases right with
    | nil => exact .nil
    | cons tile' right => exact absurd rfl (ne_nil_of_cons tiled' tiled)
  | cons tile left ih =>
    intro right region tiled tiled' distinct distinct' agree
    cases right with
    | nil => exact absurd rfl (ne_nil_of_cons tiled tiled')
    | cons tile' right =>
      have same : ∀ point, mem tile.1 point = mem tile'.1 point := by
        intro point
        rw [Bool.eq_iff_iff]
        refine ⟨head_subset den tiled tiled' distinct' agree, ?_⟩
        exact head_subset den tiled' tiled distinct
          fun point value value' found found' => (agree point value' value found' found).symm
      have tailTiled' : Tiled place mem
          (fun point => region point /\ mem tile.1 point = false) right := by
        simp only [same]
        exact tiled'.tail
      rcases tiled.inhabited tile mem_cons_self with ⟨point, inside⟩
      refine .cons ⟨same, ?_⟩ (ih tiled.tail tailTiled' distinct.of_cons distinct'.of_cons ?_)
      · refine agree point _ _ (tiled.tileAt_of_mem mem_cons_self inside)
          (tiled'.tileAt_of_mem mem_cons_self ?_)
        rw [<- same, inside]
      · intro point value value' found found'
        rcases mem_of_tileAt found with ⟨other, listed, inside, rfl⟩
        rcases mem_of_tileAt found' with ⟨other', listed', inside', rfl⟩
        exact agree point _ _
          (tiled.tileAt_of_mem (mem_cons_of_mem _ listed) inside)
          (tiled'.tileAt_of_mem (mem_cons_of_mem _ listed') inside')

end

end Tiled

lemma tileAt_mapValues {M : Type} (tiles : List (R × N)) (map : N -> M) (point : P) :
    tileAt mem (tiles.map fun tile => (tile.1, map tile.2)) point =
      (tileAt mem tiles point).map map := by
  induction tiles with
  | nil => rfl
  | cons tile tiles ih =>
    rw [map_cons, tileAt_cons, tileAt_cons, ih]
    cases mem tile.1 point <;> rfl

/-! ## Joining neighbours -/

variable (place mem) in
/-- The first tile lies below the second one and no point lies between them. -/
def Adjacent (first second : R) : Prop :=
  Precedes place mem first second /\ ∀ point,
    (∃ low, mem first low = true /\ place point <= place low) \/
      ∃ high, mem second high = true /\ place high <= place point

lemma Tiled.adjacent {initial rest : List (R × N)} {first second : R × N}
    (tiled : Tiled place mem (fun _ => True) (initial ++ first :: second :: rest)) :
    Adjacent place mem first.1 second.1 := by
  have sorted := pairwise_append.mp tiled.sorted
  have sortedRest := pairwise_cons.mp sorted.2.1
  refine ⟨sortedRest.1 second mem_cons_self, fun point => ?_⟩
  have firstListed : first ∈ initial ++ first :: second :: rest :=
    mem_append_right _ mem_cons_self
  have secondListed : second ∈ initial ++ first :: second :: rest :=
    mem_append_right _ (mem_cons_of_mem _ mem_cons_self)
  rcases (tiled.covers point).mp trivial with ⟨tile, listed, inside⟩
  rcases mem_append.mp listed with earlier | later
  · rcases tiled.inhabited first firstListed with ⟨low, lowInside⟩
    exact .inl ⟨low, lowInside, (sorted.2.2 tile earlier first mem_cons_self _ _ inside lowInside).le⟩
  rcases mem_cons.mp later with rfl | later
  · exact .inl ⟨point, inside, le_rfl⟩
  rcases mem_cons.mp later with rfl | later
  · exact .inr ⟨point, inside, le_rfl⟩
  rcases tiled.inhabited second secondListed with ⟨high, highInside⟩
  exact .inr ⟨high, highInside,
    ((pairwise_cons.mp sortedRest.2).1 tile later _ _ highInside inside).le⟩

section

variable {initial rest : List (R × N)} {first second joined : R} {value value' : N}
  (union : ∀ point, mem joined point = (mem first point || mem second point))

include union

lemma Tiled.join
    (tiled : Tiled place mem region (initial ++ (first, value) :: (second, value') :: rest)) :
    Tiled place mem region (initial ++ (joined, value) :: rest) := by
  have sorted := pairwise_append.mp tiled.sorted
  have sortedFirst := pairwise_cons.mp sorted.2.1
  have sortedSecond := pairwise_cons.mp sortedFirst.2
  have either : ∀ point, mem joined point <->
      mem first point \/ mem second point := by
    intro point
    rw [union, Bool.or_eq_true]
  refine ⟨?_, ?_, ?_⟩
  · intro tile listed
    rcases mem_append.mp listed with earlier | later
    · exact tiled.inhabited tile (mem_append_left _ earlier)
    rcases mem_cons.mp later with rfl | later
    · rcases tiled.inhabited (first, value) (by simp) with ⟨point, inside⟩
      exact ⟨point, (either point).mpr (.inl inside)⟩
    · exact tiled.inhabited tile (by simp [later])
  · refine pairwise_append.mpr ⟨sorted.1, pairwise_cons.mpr ⟨?_, sortedSecond.2⟩, ?_⟩
    · intro tile listed point point' inside inside'
      rcases (either point).mp inside with inside | inside
      · exact sortedFirst.1 tile (mem_cons_of_mem _ listed) _ _ inside inside'
      · exact sortedSecond.1 tile listed _ _ inside inside'
    · intro tile earlier tile' listed point point' inside inside'
      rcases mem_cons.mp listed with rfl | later
      · rcases (either point').mp inside' with inside' | inside'
        · exact sorted.2.2 tile earlier (first, value) (by simp) _ _ inside inside'
        · exact sorted.2.2 tile earlier (second, value') (by simp) _ _ inside inside'
      · exact sorted.2.2 tile earlier tile' (by simp [later]) _ _ inside inside'
  · intro point
    rw [tiled.covers point]
    simp only [mem_append, mem_cons, or_and_right, exists_or, exists_eq_left, either, or_assoc]

lemma tileAt_join {den : N -> D} (same : den value = den value') (point : P) :
    (tileAt mem (initial ++ (joined, value) :: rest) point).map den =
      (tileAt mem (initial ++ (first, value) :: (second, value') :: rest) point).map den := by
  rw [tileAt_append, tileAt_append, tileAt_cons, tileAt_cons, tileAt_cons, union]
  cases tileAt mem initial point with
  | some _ => rfl
  | none => cases mem first point <;> cases mem second point <;> simp [same]

end

/-! ## The common refinement of two tilings -/

section

variable {M O : Type} (meet : R -> R -> R) (isEmpty : R -> Bool) (combine : N -> M -> O)

/-- The tiles of one tiling cut by those of another one. -/
def refine (left : List (R × N)) (right : List (R × M)) : List (R × O) :=
  left.flatMap fun tile => right.filterMap fun tile' =>
    if isEmpty (meet tile'.1 tile.1) then none
    else some (meet tile'.1 tile.1, combine tile.2 tile'.2)

variable {meet isEmpty} (mem_meet : ∀ first second point,
    mem (meet first second) point = (mem first point && mem second point))
  (empty_iff : ∀ tile, isEmpty tile = true <-> ∀ point, mem tile point = false)

include mem_meet empty_iff

variable {right : List (R × M)}

lemma mem_refine_iff {piece : R × O} :
    piece ∈ refine meet isEmpty combine left right <->
      ∃ tile ∈ left, ∃ tile' ∈ right,
        (∃ point, mem tile.1 point /\ mem tile'.1 point) /\
          piece = (meet tile'.1 tile.1, combine tile.2 tile'.2) := by
  have shared : ∀ tile tile' : R, ¬ isEmpty (meet tile' tile) <->
      ∃ point, mem tile point /\ mem tile' point := by
    intro tile tile'
    rw [empty_iff, not_forall]
    simp only [mem_meet, Bool.not_eq_false, Bool.and_eq_true, and_comm]
  simp only [refine, mem_flatMap, mem_filterMap]
  constructor
  · rintro ⟨tile, listed, tile', listed', found⟩
    split at found
    · exact absurd found (Option.some_ne_none _).symm
    · next nonempty =>
        exact ⟨tile, listed, tile', listed', (shared _ _).mp nonempty, (Option.some.inj found).symm⟩
  · rintro ⟨tile, listed, tile', listed', common, rfl⟩
    exact ⟨tile, listed, tile', listed', if_neg ((shared _ _).mpr common)⟩

lemma Tiled.refine (tiled : Tiled place mem region left) (tiled' : Tiled place mem region right) :
    Tiled place mem region (refine meet isEmpty combine left right) where
  inhabited piece listed := by
    rcases (mem_refine_iff combine mem_meet empty_iff).mp listed with
      ⟨tile, _, tile', _, ⟨point, inside, inside'⟩, rfl⟩
    exact ⟨point, by rw [mem_meet, inside, inside', Bool.and_self]⟩
  sorted := by
    have parts : ∀ {tile : R × N} {tile' : R × M} {piece : R × O} {point : P},
        (if isEmpty (meet tile'.1 tile.1) then none
          else some (meet tile'.1 tile.1, combine tile.2 tile'.2)) = some piece ->
        mem piece.1 point -> mem tile'.1 point /\ mem tile.1 point := by
      intro tile tile' piece point found inside
      split at found
      · cases found
      · rwa [<- Option.some.inj found, mem_meet, Bool.and_eq_true] at inside
    refine pairwise_flatMap.mpr ⟨fun tile _ => pairwise_filterMap.mpr (tiled'.sorted.imp ?_),
      tiled.sorted.imp ?_⟩
    · intro first second before piece found piece' found' point point' inside inside'
      exact before _ _ (parts found inside).1 (parts found' inside').1
    · intro first second before piece listed piece' listed' point point' inside inside'
      rcases mem_filterMap.mp listed with ⟨tile, _, found⟩
      rcases mem_filterMap.mp listed' with ⟨tile', _, found'⟩
      exact before _ _ (parts found inside).2 (parts found' inside').2
  covers point := by
    constructor
    · intro covered
      rcases (tiled.covers point).mp covered with ⟨tile, listed, inside⟩
      rcases (tiled'.covers point).mp covered with ⟨tile', listed', inside'⟩
      refine ⟨_, (mem_refine_iff combine mem_meet empty_iff).mpr
        ⟨tile, listed, tile', listed', ⟨point, inside, inside'⟩, rfl⟩, ?_⟩
      rw [mem_meet, inside, inside', Bool.and_self]
    · rintro ⟨piece, cut, inside⟩
      rcases (mem_refine_iff combine mem_meet empty_iff).mp cut with
        ⟨tile, listed, tile', _, _, rfl⟩
      rw [mem_meet, Bool.and_eq_true] at inside
      exact (tiled.covers point).mpr ⟨tile, listed, inside.2⟩

lemma Tiled.tileAt_refine
    (tiled : Tiled place mem region left) (tiled' : Tiled place mem region right)
    {value : N} {value' : M} (found : tileAt mem left point = some value)
    (found' : tileAt mem right point = some value') :
    tileAt mem (Library.refine meet isEmpty combine left right) point =
      some (combine value value') := by
  rcases mem_of_tileAt found with ⟨tile, listed, inside, rfl⟩
  rcases mem_of_tileAt found' with ⟨tile', listed', inside', rfl⟩
  refine (tiled.refine combine mem_meet empty_iff tiled').tileAt_of_mem
    ((mem_refine_iff combine mem_meet empty_iff).mpr
      ⟨tile, listed, tile', listed', ⟨point, inside, inside'⟩, rfl⟩) ?_
  rw [mem_meet, inside, inside', Bool.and_self]

end

end

/-! ## Interval sets as tiles -/

namespace Bound

variable {V κ : Type} [LinearOrder κ] (key : V -> κ)

/-- The first place that a lower bound admits. -/
def lowest : Bound V -> WithBot (κ ×ₗ Nat)
  | .included value => some (Position.place key ⟨value, .exact⟩)
  | .excluded value => some (Position.place key ⟨value, .above⟩)
  | .unbounded => ⊥

/-- The last place that an upper bound admits. -/
def highest : Bound V -> WithTop (κ ×ₗ Nat)
  | .included value => some (Position.place key ⟨value, .exact⟩)
  | .excluded value => some (Position.place key ⟨value, .below⟩)
  | .unbounded => ⊤

variable {key} {cmp : V -> V -> Ordering} (ordered : OrderedBy cmp key)

include ordered

lemma admitsAbove_iff (bound : Bound V) (spot : Position V) :
    bound.admitsAbove cmp spot <-> bound.lowest key <= (spot.place key : WithBot (κ ×ₗ Nat)) := by
  cases bound with
  | included value | excluded value =>
    exact ((Position.compare_orderedBy ordered).isLE_iff _ _).trans WithBot.coe_le_coe.symm
  | unbounded => exact iff_of_true rfl bot_le

lemma admitsBelow_iff (bound : Bound V) (spot : Position V) :
    bound.admitsBelow cmp spot <-> (spot.place key : WithTop (κ ×ₗ Nat)) <= bound.highest key := by
  cases bound with
  | included value | excluded value =>
    exact ((Position.compare_orderedBy ordered).isLE_iff _ _).trans WithTop.coe_le_coe.symm
  | unbounded => exact iff_of_true rfl le_top

end Bound

lemma Segment.Before.place_lt {V κ : Type} [LinearOrder κ] {key : V -> κ} {cmp : V -> V -> Ordering}
    {first second : Segment V} {spot spot' : Position V} (before : Segment.Before cmp first second)
    (ordered : OrderedBy cmp key) (inside : first.admits cmp spot)
    (inside' : second.admits cmp spot') : spot.place key < spot'.place key := by
  rcases before with ⟨gap, below, above⟩
  have places := (Position.compare_orderedBy ordered).lt_iff
  exact ((places _ _).mp (below spot inside)).trans ((places _ _).mp (above spot' inside'))

namespace RangeAlgebra

variable {V κ : Type} [LinearOrder κ] {key : V -> κ} {cmp : V -> V -> Ordering}
  (alg : RangeAlgebra V cmp) (ordered : OrderedBy cmp key)

lemma isEmpty_iff_mem (ranges : alg.Ranges) :
    alg.isEmpty ranges <-> ∀ spot, alg.mem ranges spot = false := by
  rw [alg.isEmpty_iff]
  constructor
  · intro empty spot
    rw [mem, empty]
    rfl
  · intro outside
    by_contra nonempty
    rcases exists_mem_of_ne_nil _ nonempty with ⟨segment, listed⟩
    rcases alg.segment_inhabited ranges segment listed with ⟨spot, inside⟩
    refine Bool.eq_false_iff.mp (outside spot) ?_
    exact any_eq_true.mpr ⟨segment, listed, inside⟩

variable {ranges : alg.Ranges} {spot : Position V}

lemma boundingRange_isSome (inside : alg.mem ranges spot) :
    ∃ bounds, alg.boundingRange ranges = some bounds := by
  rcases any_eq_true.mp inside with ⟨segment, listed, _⟩
  have nonempty := ne_nil_of_mem listed
  rw [alg.boundingRange_eq, head?_eq_some_head nonempty, getLast?_eq_some_getLast nonempty]
  exact ⟨_, rfl⟩

include ordered

lemma segment_admits_iff (segment : Segment V) (spot : Position V) :
    segment.admits cmp spot <->
      segment.lower.lowest key <= (spot.place key : WithBot (κ ×ₗ Nat)) /\
        (spot.place key : WithTop (κ ×ₗ Nat)) <= segment.upper.highest key := by
  rw [Segment.admits, Bool.and_eq_true, Bound.admitsAbove_iff ordered,
    Bound.admitsBelow_iff ordered]

variable {bounds : Segment V}

/-- The lower end of a set: everything in the set is above it, and it is not too
low, for some point of the set is joined to it. -/
lemma lower_spec (bounding : alg.boundingRange ranges = some bounds) :
    (∀ spot, alg.mem ranges spot ->
      bounds.lower.lowest key <= (spot.place key : WithBot (κ ×ₗ Nat))) /\
      ∃ low, alg.mem ranges low /\ ∀ spot,
        bounds.lower.lowest key <= (spot.place key : WithBot (κ ×ₗ Nat)) ->
        spot.place key <= low.place key -> alg.mem ranges spot := by
  rw [alg.boundingRange_eq] at bounding
  rcases Option.bind_eq_some_iff.mp bounding with ⟨first, isFirst, rest⟩
  rcases Option.map_eq_some_iff.mp rest with ⟨last, _, rfl⟩
  have listed := mem_of_head? isFirst
  have sorted := alg.segments_sorted ranges
  have inhabited := alg.segment_inhabited ranges
  rcases inhabited first listed with ⟨low, lowInside⟩
  refine ⟨?_, low, any_eq_true.mpr ⟨first, listed, lowInside⟩, ?_⟩
  · intro spot inside
    rcases any_eq_true.mp inside with ⟨segment, listed', inside⟩
    cases shape : alg.segments ranges with
    | nil => rw [shape] at listed; cases listed
    | cons head tail =>
      rw [shape] at isFirst listed' sorted
      cases isFirst
      rcases mem_cons.mp listed' with rfl | later
      · exact ((segment_admits_iff ordered _ _).mp inside).1
      · have less := ((pairwise_cons.mp sorted).1 segment later).place_lt ordered lowInside inside
        exact ((segment_admits_iff ordered _ _).mp lowInside).1.trans (WithBot.coe_le_coe.mpr less.le)
  · intro spot above below
    refine any_eq_true.mpr ⟨first, listed, (segment_admits_iff ordered _ _).mpr ⟨above, ?_⟩⟩
    exact (WithTop.coe_le_coe.mpr below).trans ((segment_admits_iff ordered _ _).mp lowInside).2

/-- The upper end of a set, likewise. -/
lemma upper_spec (bounding : alg.boundingRange ranges = some bounds) :
    (∀ spot, alg.mem ranges spot ->
      (spot.place key : WithTop (κ ×ₗ Nat)) <= bounds.upper.highest key) /\
      ∃ high, alg.mem ranges high /\ ∀ spot,
        (spot.place key : WithTop (κ ×ₗ Nat)) <= bounds.upper.highest key ->
        high.place key <= spot.place key -> alg.mem ranges spot := by
  rw [alg.boundingRange_eq] at bounding
  rcases Option.bind_eq_some_iff.mp bounding with ⟨first, _, rest⟩
  rcases Option.map_eq_some_iff.mp rest with ⟨last, isLast, rfl⟩
  have listed := mem_of_getLast? isLast
  have sorted := alg.segments_sorted ranges
  have inhabited := alg.segment_inhabited ranges
  rcases inhabited last listed with ⟨high, highInside⟩
  refine ⟨?_, high, any_eq_true.mpr ⟨last, listed, highInside⟩, ?_⟩
  · intro spot inside
    rcases any_eq_true.mp inside with ⟨segment, listed', inside⟩
    rcases getLast?_eq_some_iff.mp isLast with ⟨initial, shape⟩
    rw [shape] at listed' sorted
    rcases mem_append.mp listed' with earlier | final
    · have before := (pairwise_append.mp sorted).2.2 segment earlier last mem_cons_self
      exact (WithTop.coe_le_coe.mpr (before.place_lt ordered inside highInside).le).trans
        ((segment_admits_iff ordered _ _).mp highInside).2
    · rw [List.mem_singleton.mp final] at inside
      exact ((segment_admits_iff ordered _ _).mp inside).2
  · intro spot below above
    refine any_eq_true.mpr ⟨last, listed, (segment_admits_iff ordered _ _).mpr ⟨?_, below⟩⟩
    exact ((segment_admits_iff ordered _ _).mp highInside).1.trans (WithBot.coe_le_coe.mpr above)

/-- Between a segment and a later one there is a place outside the set. -/
lemma exists_gap {before after : List (Segment V)}
    {first second : Segment V} (shape : alg.segments ranges = before ++ first :: after)
    (later : second ∈ after) :
    ∃ gap, alg.mem ranges gap = false /\
      (∀ spot, first.admits cmp spot -> spot.place key < gap.place key) /\
      ∀ spot, second.admits cmp spot -> gap.place key < spot.place key := by
  have places := (Position.compare_orderedBy ordered).lt_iff
  have sorted := alg.segments_sorted ranges
  have inhabited := alg.segment_inhabited ranges
  rw [shape] at sorted inhabited
  cases after with
  | nil => cases later
  | cons next rest =>
    rcases pairwise_append.mp sorted with ⟨_, sortedAfter, across⟩
    rcases pairwise_cons.mp sortedAfter with ⟨afterFirst, sortedNext⟩
    have afterNext := (pairwise_cons.mp sortedNext).1
    rcases afterFirst next mem_cons_self with ⟨gap, below, above⟩
    rcases inhabited first (by simp) with ⟨low, lowInside⟩
    rcases inhabited next (by simp) with ⟨high, highInside⟩
    have belowGap : ∀ spot, first.admits cmp spot ->
        spot.place key < gap.place key :=
      fun spot inside => (places _ _).mp (below spot inside)
    have aboveGap : ∀ segment ∈ next :: rest, ∀ spot,
        segment.admits cmp spot -> gap.place key < spot.place key := by
      intro segment listed spot inside
      rcases mem_cons.mp listed with rfl | listed
      · exact (places _ _).mp (above spot inside)
      · exact ((places _ _).mp (above high highInside)).trans
          ((afterNext segment listed).place_lt ordered highInside inside)
    refine ⟨gap, ?_, belowGap, aboveGap second later⟩
    rw [mem, shape, Bool.eq_false_iff]
    intro covered
    rcases any_eq_true.mp covered with ⟨segment, listed, inside⟩
    rcases mem_append.mp listed with earlier | listed
    · have before := across segment earlier first mem_cons_self
      exact lt_irrefl _ ((before.place_lt ordered inside lowInside).trans (belowGap low lowInside))
    · rcases mem_cons.mp listed with rfl | listed
      · exact lt_irrefl _ (belowGap gap inside)
      · exact lt_irrefl _ (aboveGap segment listed gap inside)

/-- Two segments are the same, or some place outside the set lies between them. -/
lemma eq_or_exists_gap {segment segment' : Segment V}
    (listed : segment ∈ alg.segments ranges) (listed' : segment' ∈ alg.segments ranges)
    {spot' : Position V} (inside : segment.admits cmp spot)
    (inside' : segment'.admits cmp spot') :
    segment = segment' \/ ∃ gap, alg.mem ranges gap = false /\
      (spot.place key < gap.place key /\ gap.place key < spot'.place key \/
        spot'.place key < gap.place key /\ gap.place key < spot.place key) := by
  rcases append_of_mem listed with ⟨before, after, shape⟩
  rw [shape] at listed'
  rcases mem_append.mp listed' with earlier | listed'
  · rcases append_of_mem earlier with ⟨before', between, shape'⟩
    rw [shape', append_assoc] at shape
    rcases alg.exists_gap ordered shape (mem_append_right _ mem_cons_self)
      with ⟨gap, missing, below, above⟩
    exact .inr ⟨gap, missing, .inr ⟨below _ inside', above _ inside⟩⟩
  · rcases mem_cons.mp listed' with rfl | later
    · exact .inl rfl
    · rcases alg.exists_gap ordered shape later with ⟨gap, missing, below, above⟩
      exact .inr ⟨gap, missing, .inl ⟨below _ inside, above _ inside'⟩⟩

/-- A set without holes is its only segment. -/
lemma segment_admits_of_convex (convex : ∀ low spot high, alg.mem ranges low ->
      alg.mem ranges high -> low.place key <= spot.place key ->
      spot.place key <= high.place key -> alg.mem ranges spot)
    {segment : Segment V} (listed : segment ∈ alg.segments ranges)
    (inside : alg.mem ranges spot) : segment.admits cmp spot := by
  rcases alg.segment_inhabited ranges segment listed with ⟨other, otherInside⟩
  have otherMem : alg.mem ranges other :=
    any_eq_true.mpr ⟨segment, listed, otherInside⟩
  rcases any_eq_true.mp inside with ⟨segment', listed', inside'⟩
  rcases alg.eq_or_exists_gap ordered listed listed' otherInside inside'
    with rfl | ⟨gap, missing, ⟨below, above⟩ | ⟨below, above⟩⟩
  · exact inside'
  · exact absurd (convex other gap spot otherMem inside below.le above.le)
      (Bool.eq_false_iff.mp missing)
  · exact absurd (convex spot gap other inside otherMem below.le above.le)
      (Bool.eq_false_iff.mp missing)

variable {left right : alg.Ranges} {bounds' : Segment V}

/-- Where two sets meet, one of them has the value between them and the other
one excludes it. -/
lemma ends_meet (adjacent : Adjacent (Position.place key) alg.mem left right)
    (bounding : alg.boundingRange left = some bounds)
    (bounding' : alg.boundingRange right = some bounds') :
    ∃ value value', key value = key value' /\
      (bounds.upper = .included value /\ bounds'.lower = .excluded value' \/
        bounds.upper = .excluded value /\ bounds'.lower = .included value') := by
  rcases alg.upper_spec ordered bounding with ⟨upper, high, highInside, reachesUp⟩
  rcases alg.lower_spec ordered bounding' with ⟨lower, low, lowInside, reachesDown⟩
  rcases adjacent with ⟨before, between⟩
  have bounded : bounds'.lower ≠ .unbounded := by
    intro shape
    rw [shape] at reachesDown
    have inside := reachesDown high bot_le (before high low highInside lowInside).le
    exact lt_irrefl _ (before high high highInside inside)
  -- The last place of the left set and the first one of the right set are neighbours.
  have neighbours : ∀ value value' side side' middle, Side.rank middle = side.rank + 1 ->
      (Position.place key ⟨value, side⟩ : WithTop (κ ×ₗ Nat)) = bounds.upper.highest key ->
      (Position.place key ⟨value', side'⟩ : WithBot (κ ×ₗ Nat)) = bounds'.lower.lowest key ->
      key value = key value' /\ side'.rank = middle.rank := by
    intro value value' side side' middle next isLast isFirst
    have lastInside := reachesUp ⟨value, side⟩ isLast.le
      (WithTop.coe_le_coe.mp ((upper high highInside).trans isLast.ge))
    have firstInside := reachesDown ⟨value', side'⟩ isFirst.ge
      (WithBot.coe_le_coe.mp (isFirst.le.trans (lower low lowInside)))
    have less := Prod.Lex.toLex_lt_toLex.mp (before _ _ lastInside firstInside)
    have gap : Position.place key ⟨value, middle⟩ <= Position.place key ⟨value, side⟩ \/
        Position.place key ⟨value', side'⟩ <= Position.place key ⟨value, middle⟩ := by
      rcases between ⟨value, middle⟩ with ⟨point, inside, le⟩ | ⟨point, inside, le⟩
      · exact .inl (le.trans (WithTop.coe_le_coe.mp ((upper point inside).trans isLast.ge)))
      · exact .inr ((WithBot.coe_le_coe.mp (isFirst.le.trans (lower point inside))).trans le)
    rw [Position.place, Position.place, Position.place, Prod.Lex.toLex_le_toLex,
      Prod.Lex.toLex_le_toLex] at gap
    grind
  cases upperShape : bounds.upper with
  | unbounded =>
    rw [upperShape] at reachesUp
    have inside := reachesUp low le_top (before high low highInside lowInside).le
    exact absurd (before low low inside lowInside) (lt_irrefl _)
  | included value =>
    cases lowerShape : bounds'.lower with
    | unbounded => exact absurd lowerShape bounded
    | included value' =>
      rw [upperShape, lowerShape] at neighbours
      cases (neighbours value value' .exact .exact .above rfl rfl rfl).2
    | excluded value' =>
      rw [upperShape, lowerShape] at neighbours
      exact ⟨value, value', (neighbours value value' .exact .above .above rfl rfl rfl).1,
        .inl ⟨rfl, rfl⟩⟩
  | excluded value =>
    cases lowerShape : bounds'.lower with
    | unbounded => exact absurd lowerShape bounded
    | included value' =>
      rw [upperShape, lowerShape] at neighbours
      exact ⟨value, value', (neighbours value value' .below .exact .exact rfl rfl rfl).1,
        .inr ⟨rfl, rfl⟩⟩
    | excluded value' =>
      rw [upperShape, lowerShape] at neighbours
      cases (neighbours value value' .below .above .exact rfl rfl rfl).2

/-- Two disjoint sets, the first of which is an interval and starts earlier. -/
lemma precedes_of_lower_le (convex : ∀ low spot high, alg.mem left low ->
      alg.mem left high -> low.place key <= spot.place key ->
      spot.place key <= high.place key -> alg.mem left spot)
    (disjoint : ∀ spot, alg.mem left spot -> alg.mem right spot -> False)
    (bounding : alg.boundingRange left = some bounds)
    (bounding' : alg.boundingRange right = some bounds')
    (le : bounds.lower.lowest key <= bounds'.lower.lowest key) :
    Precedes (Position.place key) alg.mem left right := by
  intro spot spot' inside inside'
  by_contra notLess
  rcases alg.lower_spec ordered bounding with ⟨_, low, lowInside, reaches⟩
  have above := le.trans ((alg.lower_spec ordered bounding').1 spot' inside')
  refine disjoint spot' ?_ inside'
  rcases le_total (spot'.place key) (low.place key) with below | beyond
  · exact reaches spot' above below
  · exact convex low spot' spot lowInside inside beyond (not_lt.mp notLess)

end RangeAlgebra

end Uv.Library
