import Uv.Marker.Extras
import Uv.Resolver.RawExtra

namespace Uv.Resolver

open Library Marker Marker.MarkerTree List

/-!
# Conflict markers

At most one item of a conflict set may be active, and a conflict marker says so for all
declared sets.  For a comparison of two markers the items that neither of them tests are left
out, because these can always be inactive.
-/

variable {sets : IntervalSets}

/-- The tests of extras, with the operators that describe them.  The first component tells
whether the tree is `false`.  A subtree that occurs twice is visited twice, where the source
keeps the trees it has visited: its tests are listed again. -/
def visitExtrasImp : Tree sets -> Bool × List (MarkerOperator × ExtraName) :=
  Tree.fold (fun value => (!value, [])) fun var children =>
    (false, (match var, children with
      | .extra extra, .boolean _ low => [(if low.1 then .equal else .notEqual, extra)]
      | _, _ => []) ++ (children.nodes.map Prod.snd).flatten)

def visitExtras (marker : MarkerTree sets) : List (MarkerOperator × ExtraName) :=
  (visitExtrasImp marker.tree).2

structure ConflictSet where
  items : List ConflictItem
  nodup : items.Nodup
  named : ∀ item ∈ items, item.IsNamed

structure ActivatedConflictItems where
  items : List ConflictItem
  named : ∀ item ∈ items, item.IsNamed

def ActivatedConflictItems.extras (activated : ActivatedConflictItems) : ExtrasEnvironment :=
  .extras (activated.items.map encodeConflictItem)

def UniversalMarker.evaluateActivated (this : UniversalMarker sets) (env : MarkerEnvironment)
    (activated : ActivatedConflictItems) : Bool :=
  this.marker.tree.evaluate env activated.extras

namespace ConflictMarker

def TRUE : ConflictMarker sets := ⟨.TRUE⟩
def negate (this : ConflictMarker sets) : ConflictMarker sets := ⟨this.marker.negate⟩
def or (this other : ConflictMarker sets) : ConflictMarker sets := ⟨this.marker.or other.marker⟩
def and (this other : ConflictMarker sets) : ConflictMarker sets := ⟨this.marker.and other.marker⟩

def ofExtra (name : ExtraName) : ConflictMarker sets := ⟨.expression (.extra (.extra name) .equal)⟩

def project (package : PackageName) : ConflictMarker sets := ofExtra (encodeProject package)

def extra (package : PackageName) (extra : ExtraName) : ConflictMarker sets :=
  ofExtra (encodePackageExtra package extra)

def group (package : PackageName) (group : GroupName) : ConflictMarker sets :=
  ofExtra (encodePackageGroup package group)

def fromConflictItem (item : ConflictItem) : ConflictMarker sets :=
  match item.kind with
  | .extra name => extra item.package name
  | .group name => group item.package name
  | .project => project item.package

/-- Each item excludes the union of all preceding items. -/
def atMostOneLoop (previousItem previous marker : ConflictMarker sets) :
    List (ConflictMarker sets) -> ConflictMarker sets
  | [] => marker
  | item :: items =>
    let previous := previous.or previousItem
    atMostOneLoop item previous (marker.and (previous.and item).negate) items

def atMostOne (items : List ConflictItem) : ConflictMarker sets :=
  match items.map fromConflictItem with
  | [] => TRUE
  | previousItem :: items => atMostOneLoop previousItem ⟨.FALSE⟩ TRUE items

variable (conflicts : List ConflictSet)

def fromConflicts : ConflictMarker sets :=
  if conflicts.isEmpty then TRUE
  else conflicts.foldl (fun marker set => marker.and (atMostOne set.items)) TRUE

def fromRelevantConflicts (markers : List (UniversalMarker sets)) :
    ConflictMarker sets :=
  let referenced := markers.flatMap fun marker => (visitExtras marker.marker).map Prod.snd
  conflicts.foldl (fun marker set => marker.and (atMostOne
    (set.items.filter fun item => referenced.contains (encodeConflictItem item)))) TRUE

/-! ## The selections that a conflict marker allows -/

/-- The marker tests extras only, and holds for the sets of extras that satisfy the condition. -/
structure Means (this : ConflictMarker sets) (condition : Set ExtraName -> Prop) : Prop where
  vars : ∀ var ∈ this.marker.tree.vars, var.isExtra = true
  holds : ∀ world, ¬ Excluded world -> (this.marker.denote world = true <->
    condition {name | (world (.extra name)).boolean = true})

section

variable {this other : ConflictMarker sets} {condition condition' : Set ExtraName -> Prop}

lemma means_constant (value : Bool) :
    Means (⟨⟨.leaf value, .leaf value⟩⟩ : ConflictMarker sets) fun _ => value :=
  ⟨forall_mem_nil _, fun _ _ => Iff.rfl⟩

lemma fromConflictItem_means (item : ConflictItem) :
    Means (fromConflictItem item : ConflictMarker sets) (encodeConflictItem item ∈ ·) := by
  have same : (fromConflictItem item : ConflictMarker sets) = ofExtra (encodeConflictItem item) := by
    unfold fromConflictItem encodeConflictItem
    cases item.kind <;> rfl
  have decides : (Tree.booleanNode (.extra (encodeConflictItem item)) true : Tree sets).Decides _ _ :=
    Tree.booleanNode_decides rfl true
  rw [same]
  refine ⟨fun var occurs => ?_, fun world _ => ?_⟩
  · rw [decides.vars var occurs]
    rfl
  · rw [MarkerTree.denote]
    change (Tree.booleanNode _ true : Tree sets).denote world <-> _
    rw [decides.denotes, beq_iff_eq]
    exact Iff.rfl

section

variable (means : Means this condition)

include means

lemma Means.congr
    (same : ∀ extras, condition extras <-> condition' extras) : Means this condition' :=
  ⟨means.vars, fun world admitted => (means.holds world admitted).trans (same _)⟩

lemma Means.negate : Means this.negate (¬ condition ·) := by
  refine ⟨fun var occurs => ?_, fun world admitted => ?_⟩
  · rw [ConflictMarker.negate, MarkerTree.negate, Tree.vars_not] at occurs
    exact means.vars var occurs
  · rw [ConflictMarker.negate, denote_negate, Bool.not_eq_true', <- Bool.not_eq_true,
      means.holds world admitted]

lemma Means.or (means' : Means other condition') :
    Means (this.or other) fun extras => condition extras \/ condition' extras := by
  refine ⟨fun var occurs => ?_, fun world admitted => ?_⟩
  · rcases Tree.or_vars this.marker.reduced other.marker.reduced occurs with occurs | occurs
    · exact means.vars var occurs
    · exact means'.vars var occurs
  · rw [ConflictMarker.or, denote_or _ _ admitted, Bool.or_eq_true, means.holds world admitted,
      means'.holds world admitted]

lemma Means.and (means' : Means other condition') :
    Means (this.and other) fun extras => condition extras /\ condition' extras := by
  refine ⟨fun var occurs => ?_, fun world admitted => ?_⟩
  · rcases (Tree.and_isConjunction this.marker.reduced other.marker.reduced).vars occurs with
      occurs | occurs
    · exact means.vars var occurs
    · exact means'.vars var occurs
  · rw [ConflictMarker.and, denote_and _ _ admitted, Bool.and_eq_true, means.holds world admitted,
      means'.holds world admitted]

end

end

variable (items : List ConflictItem)

/-- No two of the items are active. -/
def Exclusive (extras : Set ExtraName) : Prop :=
  items.Pairwise fun item item' => ¬ (encodeConflictItem item ∈ extras /\
    encodeConflictItem item' ∈ extras)

lemma atMostOneLoop_means : ∀ {item : ConflictItem}
    {previous marker : ConflictMarker sets} {before condition : Set ExtraName -> Prop},
    Means previous before -> Means marker condition ->
    Means (atMostOneLoop (fromConflictItem item) previous marker (items.map fromConflictItem))
      fun extras => condition extras /\ Exclusive (item :: items) extras /\
        ∀ other ∈ items, encodeConflictItem other ∈ extras -> ¬ before extras := by
  induction items with
  | nil =>
    intro item previous marker before condition _ means
    refine means.congr fun extras => (and_iff_left ⟨pairwise_singleton _ _, ?_⟩).symm
    exact forall_mem_nil _
  | cons other items ih =>
    intro item previous marker before condition previousMeans means
    have union := previousMeans.or (fromConflictItem_means item)
    refine (ih union (means.and (union.and (fromConflictItem_means other)).negate)).congr ?_
    intro extras
    simp only [Exclusive, pairwise_cons, forall_mem_cons]
    constructor
    · rintro ⟨⟨first, apart⟩, ⟨later, pairwise⟩, rest⟩
      refine ⟨first, ⟨⟨fun both => apart ⟨.inr both.1, both.2⟩, fun third mem both => ?_⟩, later,
        pairwise⟩, fun active seen => apart ⟨.inl seen, active⟩, fun third mem active seen => ?_⟩
      · exact rest third mem both.2 (.inr both.1)
      · exact rest third mem active (.inl seen)
    · rintro ⟨first, ⟨⟨apart, apart'⟩, later, pairwise⟩, unseen, unseen'⟩
      refine ⟨⟨first, ?_⟩, ⟨later, pairwise⟩, fun third mem active => ?_⟩
      · rintro ⟨seen | seen, active⟩
        · exact unseen active seen
        · exact apart ⟨seen, active⟩
      · rintro (seen | seen)
        · exact unseen' third mem active seen
        · exact apart' third mem ⟨seen, active⟩

lemma atMostOne_means :
    Means (atMostOne items : ConflictMarker sets) (Exclusive items) := by
  cases items with
  | nil => exact (means_constant true).congr fun _ => iff_of_true rfl List.Pairwise.nil
  | cons item items =>
    refine (atMostOneLoop_means items (means_constant false) (means_constant true)).congr ?_
    intro extras
    constructor
    · exact fun holds => holds.2.1
    · exact fun holds => ⟨rfl, holds, fun _ _ _ => Bool.false_ne_true⟩

/-- A loop over the sets, with the items that it takes of each. -/
lemma foldl_means (items : ConflictSet -> List ConflictItem) (conflicts : List ConflictSet) :
    ∀ {marker : ConflictMarker sets} {condition : Set ExtraName -> Prop}, Means marker condition ->
      Means (conflicts.foldl (fun marker set => marker.and (atMostOne (items set))) marker)
        fun extras => condition extras /\
          ∀ set ∈ conflicts, Exclusive (items set) extras := by
  induction conflicts with
  | nil =>
    exact fun means => means.congr fun _ => (and_iff_left fun _ mem =>
      by cases mem).symm
  | cons set conflicts ih =>
    intro marker condition means
    refine (ih (means.and (atMostOne_means (items set)))).congr fun extras => ?_
    rw [forall_mem_cons, and_assoc]

variable (conflicts : List ConflictSet)

lemma fromConflicts_means :
    Means (fromConflicts conflicts : ConflictMarker sets) fun extras =>
      ∀ set ∈ conflicts, Exclusive set.items extras := by
  have same : (fromConflicts conflicts : ConflictMarker sets) =
      conflicts.foldl (fun marker set => marker.and (atMostOne set.items)) TRUE := by
    cases conflicts <;> rfl
  rw [same]
  exact (foldl_means ConflictSet.items conflicts (means_constant true)).congr fun _ =>
    and_iff_right rfl

/-- Excluded environments do not matter, because the marker does not look at them. -/
lemma Means.evaluate {this : ConflictMarker sets} {condition : Set ExtraName -> Prop}
    (means : Means this condition) (env : MarkerEnvironment) (names : List ExtraName) :
    this.marker.tree.evaluate env (.extras names) <-> condition {name | name ∈ names} := by
  have decided : this.marker.tree.Decided env (.extras names) := by
    intro var occurs
    have isExtra := means.vars var occurs
    cases var <;> first | rfl | cases isExtra
  rcases exists_admitted (valuation env (.extras names)) with ⟨world, admitted, agree⟩
  have same : this.marker.denote world = this.marker.denote (valuation env (.extras names)) :=
    Tree.eval_congr fun var occurs =>
      agree var (isConflictingVariable_of_isExtra var (means.vars var occurs))
  have chosen : {name | (world (.extra name)).boolean = true} = {name | name ∈ names} := by
    ext name
    rw [Set.mem_ofPred_eq, agree _ rfl]
    exact contains_iff_mem
  rw [Tree.evaluate_eq_denote this.marker.reduced decided.settled, <- chosen, <- means.holds world admitted, same]
  rfl

lemma fromRelevantConflicts_means (markers : List (UniversalMarker sets)) :
    Means (fromRelevantConflicts conflicts markers) fun extras =>
      ∀ set ∈ conflicts, Exclusive (set.items.filter fun item =>
        (markers.flatMap fun marker => (visitExtras marker.marker).map Prod.snd).contains
          (encodeConflictItem item)) extras :=
  (foldl_means _ conflicts (means_constant true)).congr fun _ => and_iff_right rfl

/-! ## Items that are tested -/

/-- Every extra that a reduced tree tests is visited. -/
lemma mem_visitExtrasImp {tree : Tree sets} (reduced : tree.Reduced) {name : ExtraName}
    (occurs : .extra name ∈ tree.vars) : name ∈ (visitExtrasImp tree).2.map Prod.snd := by
  induction reduced with
  | leaf value => cases occurs
  | @node var children kind _ _ _ _ _ ih =>
    rw [visitExtrasImp, Tree.fold_node, map_append, mem_append]
    rcases (Tree.mem_vars_node _ _ _).mp occurs with rfl | ⟨child, mem, occurs⟩
    · cases children with
      | boolean high low => exact .inl mem_cons_self
      | _ => cases kind
    · refine .inr (mem_map.mpr ?_)
      rcases mem_map.mp (ih child mem occurs) with ⟨visit, visited, same⟩
      refine ⟨visit, mem_flatten.mpr ⟨_, ?_, visited⟩, same⟩
      rw [Edges.nodes_mapNodes, map_map]
      exact mem_map_of_mem mem

/-- Selections with the same tested extras are not told apart. -/
lemma evaluate_congr (marker : MarkerTree sets) (env : MarkerEnvironment)
    {names names' : List ExtraName}
    (agree : ∀ name ∈ (visitExtras marker).map Prod.snd, (name ∈ names <-> name ∈ names')) :
    marker.tree.evaluate env (.extras names) = marker.tree.evaluate env (.extras names') := by
  refine Tree.evaluateBy_congr fun var occurs => ?_
  cases isExtra : var.isExtra with
  | false => exact Tree.observe_extras isExtra env names names'
  | true =>
    cases var with
    | extra name =>
      have same := agree name (mem_visitExtrasImp marker.reduced occurs)
      refine congrArg (fun value => some (Point.ofBool value)) (Bool.eq_iff_iff.mpr ?_)
      exact (contains_iff_mem.trans same).trans contains_iff_mem.symm
    | _ => cases isExtra

/-- A conflict marker holds for the selections without two items of a conflict set.  Two markers
that agree on the selections which the relevant conflicts allow agree on those which all
conflicts allow, and the other way around. -/
theorem fromConflicts_exact (conflicts : List ConflictSet) :
    (∀ env, ∀ activated : ActivatedConflictItems,
      ((fromConflicts conflicts : ConflictMarker sets).marker.tree.evaluate env
          activated.extras = true <->
        ∀ set ∈ conflicts, ∀ item ∈ set.items, ∀ item' ∈ set.items, item ≠ item' ->
            ¬ (item ∈ activated.items /\ item' ∈ activated.items))) /\
    ∀ (this other : UniversalMarker sets) (env : MarkerEnvironment),
      (∀ activated : ActivatedConflictItems,
        (fromRelevantConflicts conflicts [this, other]).marker.tree.evaluate env
          activated.extras = true ->
        this.evaluateActivated env activated = other.evaluateActivated env activated) <->
      ∀ activated : ActivatedConflictItems,
        (fromConflicts conflicts : ConflictMarker sets).marker.tree.evaluate env
          activated.extras = true ->
        this.evaluateActivated env activated = other.evaluateActivated env activated := by
  refine ⟨fun env activated => ?_, fun this other env => ⟨fun same activated allowed => ?_,
    fun same activated allowed => ?_⟩⟩
  · refine ((fromConflicts_means conflicts).evaluate env _).trans (forall₂_congr fun set _ => ?_)
    have active : ∀ item ∈ set.items,
        (encodeConflictItem item ∈ activated.items.map encodeConflictItem <->
          item ∈ activated.items) := by
      intro item mem
      refine ⟨fun encoded => ?_, mem_map_of_mem⟩
      rcases mem_map.mp encoded with ⟨other, chosen, same⟩
      exact encodeConflictItem_inj (set.named item mem) (activated.named other chosen) same ▸ chosen
    have symmetric : Std.Symm fun item item' : ConflictItem =>
        ¬ (encodeConflictItem item ∈ {name | name ∈ activated.items.map encodeConflictItem} /\
          encodeConflictItem item' ∈ {name | name ∈ activated.items.map encodeConflictItem}) :=
      ⟨fun _ _ apart both => apart both.symm⟩
    refine set.nodup.pairwise_coe.symm.trans ?_
    refine forall₂_congr fun item mem => forall₂_congr fun item' mem' => imp_congr_right fun _ => ?_
    exact not_congr (and_congr (active item mem) (active item' mem'))
  · refine same activated (((fromRelevantConflicts_means _ _).evaluate env _).mpr ?_)
    intro set mem
    exact (((fromConflicts_means conflicts).evaluate env _).mp allowed set mem).sublist
      filter_sublist
  · -- Without the items that neither marker tests, the selection is allowed by all conflicts.
    let referenced := [this, other].flatMap fun marker => (visitExtras marker.marker).map Prod.snd
    let tested : ActivatedConflictItems :=
      ⟨activated.items.filter fun item => referenced.contains (encodeConflictItem item),
        fun item mem => activated.named item (mem_filter.mp mem).1⟩
    have isTested : ∀ name, name ∈ tested.items.map encodeConflictItem <->
        name ∈ activated.items.map encodeConflictItem /\ referenced.contains name = true := by
      intro name
      simp only [tested, mem_map, mem_filter]
      constructor
      · rintro ⟨item, ⟨chosen, visited⟩, rfl⟩
        exact ⟨⟨item, chosen, rfl⟩, visited⟩
      · rintro ⟨⟨item, chosen, rfl⟩, visited⟩
        exact ⟨item, ⟨chosen, visited⟩, rfl⟩
    have unseen : ∀ marker, marker ∈ [this, other] ->
        marker.evaluateActivated env activated = marker.evaluateActivated env tested := by
      intro marker mem
      refine evaluate_congr marker.marker env fun name visited => ?_
      rw [isTested, and_iff_left]
      exact contains_iff_mem.mpr (mem_flatMap.mpr ⟨marker, mem, visited⟩)
    rw [unseen this mem_cons_self, unseen other (mem_cons_of_mem _ mem_cons_self)]
    refine same tested (((fromConflicts_means conflicts).evaluate env _).mpr fun set mem => ?_)
    have exclusive := ((fromRelevantConflicts_means _ _).evaluate env _).mp allowed set mem
    refine (pairwise_filter.mp exclusive).imp fun apart both => ?_
    have first := (isTested _).mp both.1
    have second := (isTested _).mp both.2
    exact apart first.2 second.2 ⟨first.1, second.1⟩

end ConflictMarker

end Uv.Resolver
