import Uv.Marker.RangeMap

namespace Uv.Marker

open Pep440 Library List

/-!
# The edges of a decision node

A node decides between its children by the value of its variable: by the range of
a version or of a string, or by a Boolean.  The child that is chosen at a point is
`Edges.read`, and each operation on edges is described by what it reads.
-/

/-- The interval sets of versions and of strings. -/
structure IntervalSets where
  versions : RangeAlgebra Version Version.cmp
  strings : RangeAlgebra String compare

lemma stringCompare_orderedBy : OrderedBy (compare : String -> String -> Ordering) id :=
  fun _ _ => rfl

/-- Interval sets as sorted cuts. -/
noncomputable def IntervalSets.cutSets : IntervalSets :=
  ⟨Version.cutSets, CutSet.algebra stringCompare_orderedBy⟩

inductive Edges (sets : IntervalSets) (N : Type) where
  | version (edges : List (sets.versions.Ranges × N))
  | string (edges : List (sets.strings.Ranges × N))
  | boolean (high low : N)

/-- What a variable can be tested for. -/
inductive Kind where
  | version
  | string
  | boolean
  deriving DecidableEq, Repr

def Variable.kind : Variable -> Kind
  | .string _ => .string
  | .versionString _ => .version
  | .version _ => .version
  | _ => .boolean

/-- A value for a variable of any kind. -/
structure Point where
  version : Position Version
  string : Position String
  boolean : Bool

instance : Inhabited Point := ⟨⟨.new [0] (by decide), .exact⟩, ⟨"", .exact⟩, true⟩

section

variable {V : Type} {cmp : V -> V -> Ordering} (alg : RangeAlgebra V cmp) {N M : Type}

def sameRanges (same : N -> M -> Bool) :
    List (alg.Ranges × N) -> List (alg.Ranges × M) -> Bool
  | [], [] => true
  | edge :: edges, edge' :: edges' =>
    alg.eq edge.1 edge'.1 && same edge.2 edge'.2 && sameRanges same edges edges'
  | _, _ => false

lemma sameRanges_iff {same : N -> M -> Bool} {left : List (alg.Ranges × N)}
    {right : List (alg.Ranges × M)} :
    sameRanges alg same left right <->
      List.Forall₂ (fun edge edge' =>
        (∀ spot, alg.mem edge.1 spot = alg.mem edge'.1 spot) /\
          same edge.2 edge'.2) left right := by
  induction left generalizing right with
  | nil => cases right <;> simp [sameRanges]
  | cons edge left ih =>
    cases right with
    | nil => simp [sameRanges]
    | cons edge' right =>
      rw [sameRanges, Bool.and_eq_true, Bool.and_eq_true, alg.eq_iff, ih, forall₂_cons]
      exact Iff.rfl

end

lemma forall₂_of_mem {α β : Type} {related related' : α -> β -> Prop} {left : List α}
    {right : List β} (implies : ∀ value ∈ left, ∀ value' ∈ right,
      related value value' -> related' value value')
    (pairs : List.Forall₂ related left right) : List.Forall₂ related' left right := by
  induction pairs with
  | nil => exact .nil
  | cons head _ ih =>
    refine .cons (implies _ mem_cons_self _ mem_cons_self head) (ih ?_)
    exact fun value mem value' mem' =>
      implies value (mem_cons_of_mem _ mem) value' (mem_cons_of_mem _ mem')

namespace Edges

variable {sets : IntervalSets} {N M O D : Type}

def kind : Edges sets N -> Kind
  | .version _ => .version
  | .string _ => .string
  | .boolean _ _ => .boolean

/-- The edges of a Boolean variable, or of its negation. -/
def fromBool (leaf : Bool -> N) (complemented : Bool) : Edges sets N :=
  if complemented then .boolean (leaf true) (leaf false) else .boolean (leaf false) (leaf true)

def nodes : Edges sets N -> List N
  | .version edges => edges.map Prod.snd
  | .string edges => edges.map Prod.snd
  | .boolean high low => [high, low]

/-- Replace the children without looking at the ranges. -/
def mapNodes (map : N -> M) : Edges sets N -> Edges sets M
  | .version edges => .version (edges.map fun edge => (edge.1, map edge.2))
  | .string edges => .string (edges.map fun edge => (edge.1, map edge.2))
  | .boolean high low => .boolean (map high) (map low)

/-- Replace the children and join the ranges that now share a child. -/
def map (same : M -> M -> Bool) (map : N -> M) : Edges sets N -> Edges sets M
  | .version edges => .version (mapRanges sets.versions same map edges)
  | .string edges => .string (mapRanges sets.strings same map edges)
  | .boolean high low => .boolean (map high) (map low)

/-- Combine the children wherever the edges intersect.  Edges of one variable are
of one kind, so the last case does not arise. -/
def apply [Inhabited O] (same : O -> O -> Bool) (apply : N -> M -> O) :
    Edges sets N -> Edges sets M -> Edges sets O
  | .version left, .version right => .version (applyRanges sets.versions same apply left right)
  | .string left, .string right => .string (applyRanges sets.strings same apply left right)
  | .boolean high low, .boolean high' low' => .boolean (apply high high') (apply low low')
  | _, _ => .boolean default default

/-- Equality of edges, given equality of nodes. -/
def beq (same : N -> M -> Bool) : Edges sets N -> Edges sets M -> Bool
  | .version left, .version right => sameRanges sets.versions same left right
  | .string left, .string right => sameRanges sets.strings same left right
  | .boolean high low, .boolean high' low' => same high high' && same low low'
  | _, _ => false

/-- The child at a point. -/
def read : Edges sets N -> Point -> Option N
  | .version edges, point => tileAt sets.versions.mem edges point.version
  | .string edges, point => tileAt sets.strings.mem edges point.string
  | .boolean high low, point => some (if point.boolean then high else low)

/-- The ranges are inhabited, sorted and cover every value. -/
def Tiled : Edges sets N -> Prop
  | .version edges =>
    Library.Tiled (Position.place Version.key) sets.versions.mem (fun _ => True) edges
  | .string edges =>
    Library.Tiled (Position.place id) sets.strings.mem (fun _ => True) edges
  | .boolean _ _ => True

/-- Neighbouring ranges have children with different denotations. -/
def Distinct (den : N -> D) : Edges sets N -> Prop
  | .version edges => Library.Distinct den edges
  | .string edges => Library.Distinct den edges
  | .boolean _ _ => True

/-! ## Reading edges -/

variable {edges : Edges sets N}

lemma read_isSome (tiled : edges.Tiled) (point : Point) :
    ∃ node, edges.read point = some node := by
  cases edges with
  | version edges | string edges => exact Library.Tiled.tileAt_isSome tiled trivial
  | boolean high low => exact ⟨_, rfl⟩

lemma mem_nodes_of_read {point : Point} {node : N}
    (found : edges.read point = some node) : node ∈ edges.nodes := by
  cases edges with
  | version edges | string edges =>
    rcases mem_of_tileAt found with ⟨edge, mem, _, rfl⟩
    exact mem_map_of_mem mem
  | boolean high low =>
    rw [<- Option.some.inj found]
    cases point.boolean <;> simp [nodes]

/-- Every child is chosen at some point. -/
lemma exists_read (tiled : edges.Tiled) {node : N} (mem : node ∈ edges.nodes) (default : Point) :
    ∃ point, edges.read point = some node := by
  cases edges with
  | version edges =>
    rcases mem_map.mp mem with ⟨edge, edgeListed, rfl⟩
    rcases Library.Tiled.exists_point tiled edgeListed with ⟨spot, _, found⟩
    exact ⟨{ default with version := spot }, found⟩
  | string edges =>
    rcases mem_map.mp mem with ⟨edge, edgeListed, rfl⟩
    rcases Library.Tiled.exists_point tiled edgeListed with ⟨spot, _, found⟩
    exact ⟨{ default with string := spot }, found⟩
  | boolean high low =>
    rcases mem_cons.mp mem with rfl | mem
    · exact ⟨{ default with boolean := true }, rfl⟩
    · rw [mem_singleton.mp mem]
      exact ⟨{ default with boolean := false }, rfl⟩

variable (map : N -> M)

@[simp] lemma kind_mapNodes (edges : Edges sets N) :
    (edges.mapNodes map).kind = edges.kind := by
  cases edges <;> rfl

@[simp] lemma nodes_mapNodes (edges : Edges sets N) :
    (edges.mapNodes map).nodes = edges.nodes.map map := by
  cases edges <;> simp [mapNodes, nodes, map_map, Function.comp_def]

lemma read_mapNodes (edges : Edges sets N) (point : Point) :
    (edges.mapNodes map).read point = (edges.read point).map map := by
  cases edges with
  | version edges => exact tileAt_mapValues edges map point.version
  | string edges => exact tileAt_mapValues edges map point.string
  | boolean high low => simp only [mapNodes, read, Option.map_some, apply_ite map]

lemma tiled_mapNodes (tiled : edges.Tiled) :
    (edges.mapNodes map).Tiled := by
  cases edges with
  | version edges | string edges => exact Library.Tiled.mapValues tiled map
  | boolean high low => trivial

variable {map : N -> M}

/-- Neighbours stay different under a map that keeps children apart. -/
lemma distinct_mapNodes {den : N -> D} {den' : M -> D}
    (inverse : ∀ node ∈ edges.nodes, ∀ node' ∈ edges.nodes,
      den' (map node) = den' (map node') -> den node = den node')
    (distinct : edges.Distinct den) : (edges.mapNodes map).Distinct den' := by
  have ranges : ∀ {R : Type} {edges : List (R × N)},
      (∀ node ∈ edges.map Prod.snd, ∀ node' ∈ edges.map Prod.snd,
        den' (map node) = den' (map node') -> den node = den node') ->
      Library.Distinct den edges ->
      Library.Distinct den' (edges.map fun edge => (edge.1, map edge.2)) := by
    intro R edges inverse distinct
    rw [Library.Distinct, isChain_iff_forall_rel_of_append_cons_cons] at distinct
    rw [Library.Distinct, isChain_map, isChain_iff_forall_rel_of_append_cons_cons]
    intro edge edge' initial rest shape same
    have mem : edge ∈ edges := by simp [shape]
    have mem' : edge' ∈ edges := by simp [shape]
    exact distinct shape (inverse _ (mem_map_of_mem mem) _ (mem_map_of_mem mem') same)
  cases edges with
  | version edges | string edges => exact ranges inverse distinct
  | boolean high low => trivial

lemma mapNodes_mapNodes (map : N -> M) (map' : M -> O) (edges : Edges sets N) :
    (edges.mapNodes map).mapNodes map' = edges.mapNodes fun node => map' (map node) := by
  cases edges <;> simp [mapNodes, map_map, Function.comp_def]

lemma mapNodes_congr {map' : N -> M} (agree : ∀ node ∈ edges.nodes, map node = map' node) :
    edges.mapNodes map = edges.mapNodes map' := by
  cases edges with
  | version edges =>
    refine congrArg Edges.version (map_congr_left fun edge mem => ?_)
    rw [agree edge.2 (mem_map_of_mem mem)]
  | string edges =>
    refine congrArg Edges.string (map_congr_left fun edge mem => ?_)
    rw [agree edge.2 (mem_map_of_mem mem)]
  | boolean high low =>
    rw [mapNodes, mapNodes, agree high (by simp [nodes]), agree low (by simp [nodes])]

lemma beq_mapNodes (map : N -> M) (same : M -> O -> Bool) (left : Edges sets N)
    (right : Edges sets O) :
    (left.mapNodes map).beq same right = left.beq (fun node => same (map node)) right := by
  have ranges : ∀ {V : Type} {cmp : V -> V -> Ordering} (alg : RangeAlgebra V cmp)
      (left : List (alg.Ranges × N)) (right : List (alg.Ranges × O)),
      sameRanges alg same (left.map fun edge => (edge.1, map edge.2)) right =
        sameRanges alg (fun node => same (map node)) left right := by
    intro V cmp alg left right
    induction left generalizing right with
    | nil => cases right <;> rfl
    | cons edge left ih =>
      cases right with
      | nil => rfl
      | cons edge' right => rw [map_cons, sameRanges, sameRanges, ih]
  cases left <;> cases right <;> first | exact ranges _ _ _ | rfl

/-! ## What the operations read -/

variable {left : Edges sets N}

/-- Edges of one kind have the same shape. -/
lemma shapes {right : Edges sets M} (sameKind : left.kind = right.kind) :
    (∃ left' right', left = .version left' /\ right = .version right') \/
    (∃ left' right', left = .string left' /\ right = .string right') \/
    ∃ high low, ∃ high' low', left = .boolean high low /\ right = .boolean high' low' := by
  cases left <;> cases right <;> simp_all [kind]

section

variable {same : N -> N -> Bool} {den : N -> D} {valid : N -> Prop}
  (agree : ∀ node node', valid node -> valid node' ->
    (same node node' = true <-> den node = den node'))

lemma fromBool_read (leaf : Bool -> N) (complemented : Bool) (point : Point) :
    (fromBool leaf complemented : Edges sets N).read point =
      some (leaf (point.boolean == complemented)) := by
  cases complemented <;> cases h : point.boolean <;> simp [fromBool, read, h]

include agree

/-- The edges after their children have been mapped. -/
lemma map_spec {map : M -> N} {edges : Edges sets M}
    (allValid : ∀ node ∈ edges.nodes, valid (map node)) (tiled : edges.Tiled) :
    let mapped := edges.map same map
    mapped.kind = edges.kind /\ mapped.Tiled /\ mapped.Distinct den /\
      (∀ point, (mapped.read point).map den = (edges.read point).map fun node => den (map node)) /\
      ∀ node ∈ mapped.nodes, ∃ node' ∈ edges.nodes, map node' = node := by
  cases edges with
  | version edges =>
    rcases mapRanges_spec sets.versions Version.cmp_orderedBy agree allValid tiled with
      ⟨tiled, distinct, reads, nodes⟩
    exact ⟨rfl, tiled, distinct, fun point => reads point.version, nodes⟩
  | string edges =>
    rcases mapRanges_spec sets.strings stringCompare_orderedBy agree allValid tiled with
      ⟨tiled, distinct, reads, nodes⟩
    exact ⟨rfl, tiled, distinct, fun point => reads point.string, nodes⟩
  | boolean high low =>
    refine ⟨rfl, trivial, trivial, fun point => ?_, fun node mem => ?_⟩
    · cases h : point.boolean <;> simp [Edges.map, read, h]
    · rcases mem_cons.mp mem with rfl | mem
      · exact ⟨high, mem_cons_self, rfl⟩
      · exact ⟨low, by simp [nodes], (mem_singleton.mp mem).symm⟩

/-- The edges of one variable after they have been combined. -/
lemma apply_spec [Inhabited N] {apply : M -> O -> N} {left : Edges sets M} {right : Edges sets O}
    (sameKind : left.kind = right.kind)
    (allValid : ∀ node ∈ left.nodes, ∀ node' ∈ right.nodes,
      valid (apply node node')) (tiled : left.Tiled) (tiled' : right.Tiled) :
    let combined := left.apply same apply right
    combined.kind = left.kind /\ combined.Tiled /\ combined.Distinct den /\
      (∀ point node node', left.read point = some node -> right.read point = some node' ->
        (combined.read point).map den = some (den (apply node node'))) /\
      ∀ node ∈ combined.nodes, ∃ node' ∈ left.nodes,
        ∃ node'' ∈ right.nodes, apply node' node'' = node := by
  rcases Edges.shapes sameKind with ⟨left, right, rfl, rfl⟩ | ⟨left, right, rfl, rfl⟩ |
    ⟨high, low, high', low', rfl, rfl⟩
  · rcases applyRanges_spec sets.versions Version.cmp_orderedBy agree allValid tiled tiled' with
      ⟨tiled, distinct, reads, nodes⟩
    exact ⟨rfl, tiled, distinct, fun point => reads point.version, nodes⟩
  · rcases applyRanges_spec sets.strings stringCompare_orderedBy agree allValid tiled tiled' with
      ⟨tiled, distinct, reads, nodes⟩
    exact ⟨rfl, tiled, distinct, fun point => reads point.string, nodes⟩
  · refine ⟨rfl, trivial, trivial, fun point node node' found found' => ?_, fun node mem => ?_⟩
    · rw [<- Option.some.inj found, <- Option.some.inj found']
      cases h : point.boolean <;> simp [Edges.apply, read, h]
    · rcases mem_cons.mp mem with rfl | mem
      · exact ⟨high, by simp [nodes], high', by simp [nodes], rfl⟩
      · exact ⟨low, by simp [nodes], low', by simp [nodes], (mem_singleton.mp mem).symm⟩

omit agree in
/-- Edges with different neighbours that read the same everywhere are the same. -/
lemma beq_of_reads {right : Edges sets N} (agree : ∀ node ∈ left.nodes, ∀ node' ∈ right.nodes,
      den node = den node' -> same node node')
    (sameKind : left.kind = right.kind) (tiled : left.Tiled) (tiled' : right.Tiled)
    (distinct : left.Distinct den) (distinct' : right.Distinct den)
    (reads : ∀ point node node', left.read point = some node -> right.read point = some node' ->
      den node = den node') : left.beq same right := by
  rcases Edges.shapes sameKind with ⟨left, right, rfl, rfl⟩ | ⟨left, right, rfl, rfl⟩ |
    ⟨high, low, high', low', rfl, rfl⟩
  · refine (sameRanges_iff _).mpr (forall₂_of_mem ?_ (Library.Tiled.unique den tiled tiled'
      distinct distinct' fun spot => reads ⟨spot, ⟨"", .exact⟩, true⟩))
    intro edge mem edge' mem' related
    exact ⟨related.1, agree _ (mem_map_of_mem mem) _ (mem_map_of_mem mem') related.2⟩
  · refine (sameRanges_iff _).mpr (forall₂_of_mem ?_ (Library.Tiled.unique den tiled tiled'
      distinct distinct' fun spot => reads { (default : Point) with string := spot }))
    intro edge mem edge' mem' related
    exact ⟨related.1, agree _ (mem_map_of_mem mem) _ (mem_map_of_mem mem') related.2⟩
  · rw [beq, Bool.and_eq_true]
    exact ⟨agree _ (by simp [nodes]) _ (by simp [nodes])
        (reads { (default : Point) with boolean := true } _ _ rfl rfl),
      agree _ (by simp [nodes]) _ (by simp [nodes])
        (reads { (default : Point) with boolean := false } _ _ rfl rfl)⟩

omit agree in
/-- Edges that are the same are of one kind and read the same everywhere. -/
lemma reads_of_beq {right : Edges sets N} (agree : ∀ node ∈ left.nodes, ∀ node' ∈ right.nodes,
      same node node' -> den node = den node') (equal : left.beq same right) :
    left.kind = right.kind /\ ∀ point,
      (left.read point).map den = (right.read point).map den := by
  have ranges : ∀ {V : Type} {cmp : V -> V -> Ordering} (alg : RangeAlgebra V cmp)
      {left right : List (alg.Ranges × N)},
      (∀ edge ∈ left, ∀ edge' ∈ right,
        same edge.2 edge'.2 -> den edge.2 = den edge'.2) ->
      sameRanges alg same left right -> ∀ spot,
        (tileAt alg.mem left spot).map den = (tileAt alg.mem right spot).map den := by
    intro V cmp alg left right agree equal spot
    rw [sameRanges_iff] at equal
    induction equal with
    | nil => rfl
    | @cons edge edge' left right related _ ih =>
      rw [tileAt_cons, tileAt_cons, related.1 spot]
      have tails := ih fun edge mem edge' mem' =>
        agree edge (mem_cons_of_mem _ mem) edge' (mem_cons_of_mem _ mem')
      have heads := agree edge mem_cons_self edge' mem_cons_self related.2
      cases alg.mem edge'.1 spot <;> simp [heads, tails]
  have sameKind : left.kind = right.kind := by
    cases left <;> cases right <;> first | rfl | cases equal
  rcases Edges.shapes sameKind with ⟨left, right, rfl, rfl⟩ | ⟨left, right, rfl, rfl⟩ |
    ⟨high, low, high', low', rfl, rfl⟩
  · exact ⟨rfl, fun point => ranges sets.versions (fun edge mem edge' mem' =>
      agree _ (mem_map_of_mem mem) _ (mem_map_of_mem mem')) equal point.version⟩
  · exact ⟨rfl, fun point => ranges sets.strings (fun edge mem edge' mem' =>
      agree _ (mem_map_of_mem mem) _ (mem_map_of_mem mem')) equal point.string⟩
  · rw [beq, Bool.and_eq_true] at equal
    have highs := agree high (by simp [nodes]) high' (by simp [nodes]) equal.1
    have lows := agree low (by simp [nodes]) low' (by simp [nodes]) equal.2
    refine ⟨rfl, fun point => ?_⟩
    cases h : point.boolean <;> simp [read, h, highs, lows]

end

/-! ## Edges that see only part of a point -/

section

variable {V : Type} {cmp : V -> V -> Ordering} {alg : RangeAlgebra V cmp}
  {part : Point -> Position V} {image : Point -> Point} {range range' : alg.Ranges}

variable (alg part image) in
/-- The range does not tell a point from its image. -/
def Blind (range : alg.Ranges) : Prop :=
  ∀ point, alg.mem range (part (image point)) = alg.mem range (part point)

lemma Blind.union (blind : Blind alg part image range) (blind' : Blind alg part image range') :
    Blind alg part image (alg.union range range') := by
  intro point
  have union := alg.mem_union range range'
  exact (union _).trans ((congrArg₂ (· || ·) (blind point) (blind' point)).trans (union _).symm)

lemma Blind.intersection (blind : Blind alg part image range)
    (blind' : Blind alg part image range') :
    Blind alg part image (alg.intersection range range') := by
  intro point
  have meet := alg.mem_intersection range range'
  exact (meet _).trans ((congrArg₂ (· && ·) (blind point) (blind' point)).trans (meet _).symm)

end

/-- No range tells a point from its image.  A Boolean test sees the whole point. -/
def Respects (image : Point -> Point) : Edges sets N -> Prop
  | .version edges => ∀ edge ∈ edges, Blind sets.versions Point.version image edge.1
  | .string edges => ∀ edge ∈ edges, Blind sets.strings Point.string image edge.1
  | .boolean _ _ => ∀ point, (image point).boolean = point.boolean

section

variable {image : Point -> Point}

lemma read_image (respects : edges.Respects image) (point : Point) :
    edges.read (image point) = edges.read point := by
  have ranges : ∀ {R P : Type} {mem : R -> P -> Bool} {edges : List (R × N)} {point point' : P},
      (∀ edge ∈ edges, mem edge.1 point = mem edge.1 point') ->
      tileAt mem edges point = tileAt mem edges point' := by
    intro R P mem edges point point' agree
    induction edges with
    | nil => rfl
    | cons edge edges ih =>
      rw [tileAt_cons, tileAt_cons, agree edge mem_cons_self,
        ih (forall_mem_cons.mp agree).2]
  cases edges with
  | version edges | string edges => exact ranges fun edge listed => respects edge listed point
  | boolean high low => simp only [read, respects point]

lemma respects_mapNodes (map : N -> M) (respects : edges.Respects image) :
    (edges.mapNodes map).Respects image := by
  cases edges with
  | version edges | string edges =>
    intro edge mem
    rcases mem_map.mp mem with ⟨edge', mem', rfl⟩
    exact respects edge' mem'
  | boolean high low => exact respects

lemma respects_map {same : M -> M -> Bool}
    (respects : edges.Respects image) : (edges.map same map).Respects image := by
  cases edges with
  | version edges => exact mapRanges_closed sets.versions (fun _ _ => Blind.union) respects
  | string edges => exact mapRanges_closed sets.strings (fun _ _ => Blind.union) respects
  | boolean high low => exact respects

lemma respects_apply [Inhabited O] {same : O -> O -> Bool} {apply : N -> M -> O}
    {right : Edges sets M} (sameKind : left.kind = right.kind)
    (respects : left.Respects image) (respects' : right.Respects image) :
    (left.apply same apply right).Respects image := by
  rcases Edges.shapes sameKind with ⟨left, right, rfl, rfl⟩ | ⟨left, right, rfl, rfl⟩ |
    ⟨high, low, high', low', rfl, rfl⟩
  · exact applyRanges_closed sets.versions (fun _ _ => Blind.union)
      (fun _ _ => Blind.intersection) respects respects'
  · exact applyRanges_closed sets.strings (fun _ _ => Blind.union)
      (fun _ _ => Blind.intersection) respects respects'
  · exact respects

end

end Edges

end Uv.Marker
