import Uv.Marker.Disjointness

namespace Uv.Resolver

open Library Marker Marker.MarkerTree

/-!
# Universal markers

A universal marker combines a marker for environments with a marker for the
conflicting extras and groups that are active.  Conflict items are encoded as
extras.  Next to the combined marker its environment part is stored, which is meant
to be the combined marker without its extras.
-/

abbrev PackageName := String

/-! ## Conflict items -/

inductive ConflictKind where
  | extra (name : ExtraName)
  | group (name : GroupName)
  | project
  deriving DecidableEq, Repr

structure ConflictItem where
  package : PackageName
  kind : ConflictKind
  deriving DecidableEq, Repr

/-- The item is known to be active, or known not to be. -/
structure Inference where
  item : ConflictItem
  included : Bool
  deriving DecidableEq, Repr

variable (package : PackageName)

/-- The length of the package name makes the encoding unambiguous. -/
def encodePackageExtra (extra : ExtraName) : ExtraName :=
  "extra-" ++ toString package.utf8ByteSize ++ "-" ++ package ++ "-" ++ extra

def encodePackageGroup (group : GroupName) : ExtraName :=
  "group-" ++ toString package.utf8ByteSize ++ "-" ++ package ++ "-" ++ group

def encodeProject : ExtraName :=
  "project-" ++ toString package.utf8ByteSize ++ "-" ++ package

def encodeConflictItem (conflict : ConflictItem) : ExtraName :=
  match conflict.kind with
  | .extra extra => encodePackageExtra conflict.package extra
  | .group group => encodePackageGroup conflict.package group
  | .project => encodeProject conflict.package

/-! ## Markers -/

structure ConflictMarker (sets : IntervalSets) where
  marker : MarkerTree sets

structure UniversalMarker (sets : IntervalSets) where
  /-- The combined marker. -/
  marker : MarkerTree sets
  /-- The part for environments. -/
  pep508 : MarkerTree sets

namespace UniversalMarker

variable {sets : IntervalSets}

def TRUE : UniversalMarker sets := ⟨.TRUE, .TRUE⟩
def FALSE : UniversalMarker sets := ⟨.FALSE, .FALSE⟩

def fromCombined (marker : MarkerTree sets) : UniversalMarker sets := ⟨marker, marker.withoutExtras⟩

def new (pep508Marker : MarkerTree sets) (conflictMarker : ConflictMarker sets) :
    UniversalMarker sets :=
  fromCombined (pep508Marker.and conflictMarker.marker)

def eq (this other : UniversalMarker sets) : Bool :=
  this.marker.eq other.marker && this.pep508.eq other.pep508

def or (this other : UniversalMarker sets) : UniversalMarker sets :=
  ⟨this.marker.or other.marker, this.pep508.or other.pep508⟩

def and (this other : UniversalMarker sets) : UniversalMarker sets :=
  ⟨this.marker.and other.marker, this.pep508.and other.pep508⟩

variable (this : UniversalMarker sets)

/-- The marker depends on a conflict item. -/
def hasConflictMarker : Bool := !this.marker.eq this.pep508

/-- Use the knowledge that conflicting items are not active together. -/
def imbibe (conflicts : ConflictMarker sets) :
    UniversalMarker sets :=
  if conflicts.marker.isTrue then this
  else if !this.hasConflictMarker && !this.marker.isFalse then this
  else
    let reachable := this.marker.and conflicts.marker
    let environment := reachable.withoutExtras
    if !environment.isFalse && reachable.eq (environment.and conflicts.marker) then
      ⟨environment, environment⟩
    else fromCombined (conflicts.marker.implies this.marker)

/-- Assume that an extra is active, or that it is not. -/
def assume (value : Bool) (extra : ExtraName) (this : UniversalMarker sets) : UniversalMarker sets :=
  fromCombined (this.marker.simplifyExtras value fun candidate => candidate == extra)

variable (package : PackageName)

def assumeProject : UniversalMarker sets -> UniversalMarker sets :=
  assume true (encodeProject package)

def assumeNotProject : UniversalMarker sets -> UniversalMarker sets :=
  assume false (encodeProject package)

def assumeExtra (extra : ExtraName) :
    UniversalMarker sets -> UniversalMarker sets :=
  assume true (encodePackageExtra package extra)

def assumeNotExtra (extra : ExtraName) :
    UniversalMarker sets -> UniversalMarker sets :=
  assume false (encodePackageExtra package extra)

def assumeGroup (group : GroupName) :
    UniversalMarker sets -> UniversalMarker sets :=
  assume true (encodePackageGroup package group)

def assumeNotGroup (group : GroupName) :
    UniversalMarker sets -> UniversalMarker sets :=
  assume false (encodePackageGroup package group)

variable (item : ConflictItem)

def assumeConflictItem : UniversalMarker sets -> UniversalMarker sets :=
  match item.kind with
  | .extra extra => assumeExtra item.package extra
  | .group group => assumeGroup item.package group
  | .project => assumeProject item.package

def assumeNotConflictItem : UniversalMarker sets -> UniversalMarker sets :=
  match item.kind with
  | .extra extra => assumeNotExtra item.package extra
  | .group group => assumeNotGroup item.package group
  | .project => assumeNotProject item.package

lemma assumeConflictItem_eq (this : UniversalMarker sets) :
    assumeConflictItem item this = assume true (encodeConflictItem item) this := by
  rcases item with ⟨package, _ | _ | _⟩ <;> rfl

lemma assumeNotConflictItem_eq (this : UniversalMarker sets) :
    assumeNotConflictItem item this = assume false (encodeConflictItem item) this := by
  rcases item with ⟨package, _ | _ | _⟩ <;> rfl

/-- Simplify a marker by the inferences of a set, in their order. -/
def applyInferences (conflictSet : List Inference) (marker : MarkerTree sets) : MarkerTree sets :=
  conflictSet.foldl
    (fun marker inference =>
      let extra := encodeConflictItem inference.item
      if inference.included then marker.simplifyExtrasWith fun candidate => candidate == extra
      else marker.simplifyNotExtrasWith fun candidate => candidate == extra)
    marker

/-- The marker that all sets reduce to.  The outer `none` is the early return. -/
def unifyLoop (marker : MarkerTree sets) :
    Option (MarkerTree sets) -> List (List Inference) -> Option (Option (MarkerTree sets))
  | previousMarker, [] => some previousMarker
  | none, conflictSet :: rest => unifyLoop marker (some (applyInferences conflictSet marker)) rest
  | some previousMarker, conflictSet :: rest =>
    if previousMarker.eq (applyInferences conflictSet marker) then
      unifyLoop marker (some previousMarker) rest
    else none

/-- If all inference sets reduce to the same marker, use that one. -/
def unifyInferenceSets (conflictSets : List (List Inference)) :
    UniversalMarker sets :=
  match unifyLoop this.marker none conflictSets with
  | some (some allBranchesMarker) => fromCombined allBranchesMarker
  | _ => this

/-! ## The environment part -/

/-- The environment part is the marker without its extras. -/
def Cached : Prop :=
  ∀ world, this.pep508.denote world = this.marker.withoutExtras.denote world

/-- A conjunction treats both parts alike: it is exact for the markers and for the environment
parts, or the markers exclude each other and so do the environment parts. -/
def Aligned (this other : UniversalMarker sets) : Prop :=
  this.marker.tree.Exact other.marker.tree /\ this.pep508.tree.Exact other.pep508.tree \/
  this.marker.tree.Apart other.marker.tree /\
    (this.pep508.tree.Apart other.pep508.tree \/ this.pep508.tree.Feasible other.pep508.tree)

/-- The markers have no extra in common, or one of them implies the other. -/
def Independent (this other : UniversalMarker sets) : Prop :=
  (∀ name, .extra name ∈ this.marker.tree.vars -> .extra name ∉ other.marker.tree.vars) \/
  (∀ world, this.marker.denote world = true -> other.marker.denote world = true) \/
  ∀ world, other.marker.denote world = true -> this.marker.denote world = true

/-- A disjunction is the negation of a conjunction of these. -/
def negated : UniversalMarker sets := ⟨this.marker.negate, this.pep508.negate⟩

/-- Environment parts cannot hold together if that would mean the same for the markers. -/
lemma never_together {marker marker' part part' : MarkerTree sets}
    (apart : marker.tree.Apart marker'.tree)
    (parts : part.tree.Apart part'.tree \/ part.tree.Feasible part'.tree)
    (meet : ∀ world, ¬ Excluded world -> part.denote world = true -> part'.denote world = true ->
      ∃ world', ¬ Excluded world' /\ marker.denote world' = true /\ marker'.denote world' = true)
    (world : Assignment) : (part.and part').denote world = false := by
  rcases parts with apart' | feasible
  · exact denote_and_of_apart apart' world
  · rw [denote_and_of_exact (.inr feasible), Bool.eq_false_iff]
    intro both
    rw [Bool.and_eq_true] at both
    rcases (feasible world both.1 both.2).1 with ⟨other, admitted, holds, holds'⟩
    rcases meet other admitted holds holds' with ⟨world', admitted', first, second⟩
    exact admitted' (apart.2.2.2 world' first second)

lemma fromCombined_cached (marker : MarkerTree sets) : (fromCombined marker).Cached :=
  fun _ => rfl

section

variable {this other : UniversalMarker sets} (cached : this.Cached) (cached' : other.Cached)

include cached

lemma Cached.pep508_iff {world : Assignment} :
    this.pep508.denote world <->
      ∃ world', Tree.AgreeOff Variable.isExtra world world' /\
        this.marker.denote world' := by
  rw [cached world, denote_withoutExtras_iff]

lemma Cached.pep508_of_marker {world : Assignment} (holds : this.marker.denote world) :
    this.pep508.denote world :=
  cached.pep508_iff.mpr ⟨world, fun _ _ => rfl, holds⟩

lemma Cached.negated_marker {world : Assignment} (fails : this.negated.pep508.denote world) :
    this.negated.marker.denote world := by
  rw [negated, denote_negate, Bool.not_eq_true', Bool.eq_false_iff] at fails ⊢
  exact fun holds => fails (cached.pep508_of_marker holds)

lemma imbibe_cached (conflicts : ConflictMarker sets) : (this.imbibe conflicts).Cached := by
  unfold imbibe
  split
  · exact cached
  split
  · exact cached
  dsimp only
  split
  · intro world
    refine Bool.eq_iff_iff.mpr (Iff.trans ?_ (denote_withoutExtras_iff _).symm)
    constructor
    · exact fun holds => ⟨world, fun _ _ => rfl, holds⟩
    · rintro ⟨world', agree, holds⟩
      rwa [denote_withoutExtras_congr _ agree]
  · exact fromCombined_cached _

lemma unifyInferenceSets_cached (conflictSets : List (List Inference)) :
    (this.unifyInferenceSets conflictSets).Cached := by
  unfold unifyInferenceSets
  split
  · exact fromCombined_cached _
  · exact cached

include cached'

/-- Removing extras commutes with disjunction. -/
lemma or_cached (aligned : Aligned this.negated other.negated) : (this.or other).Cached := by
  have complement := fun (marker marker' : MarkerTree sets) world =>
    @denote_negate _ (marker.negate.and marker'.negate) world
  intro world
  rw [Bool.eq_iff_iff, denote_withoutExtras_iff]
  rcases aligned with ⟨exact, exact'⟩ | ⟨apart, part⟩
  · have either : ∀ {marker marker' : MarkerTree sets},
        marker.negate.tree.Exact marker'.negate.tree -> ∀ world,
        (marker.or marker').denote world = (marker.denote world || marker'.denote world) := by
      intro marker marker' exact world
      refine (complement marker marker' world).trans ?_
      rw [denote_and_of_exact exact, denote_negate, denote_negate, Bool.not_and, Bool.not_not,
        Bool.not_not]
    simp only [or, either exact, either exact', Bool.or_eq_true, cached.pep508_iff,
      cached'.pep508_iff, and_or_left, exists_or]
  · -- Some assignment that is not excluded satisfies neither part if one satisfies neither marker.
    have never := never_together apart part fun world admitted first second =>
      ⟨world, admitted, cached.negated_marker first, cached'.negated_marker second⟩
    refine iff_of_true ?_ ⟨world, fun _ _ => rfl, ?_⟩
    · exact (complement _ _ world).trans (congrArg (!·) (never world))
    · exact (complement _ _ world).trans (congrArg (!·) (denote_and_of_apart apart world))

/-- Markers that do not depend on each other can be satisfied by the same extras. -/
lemma Independent.joint (independent : Independent this other) {world : Assignment}
    (holds : this.pep508.denote world) (holds' : other.pep508.denote world) :
    ∃ world', Tree.AgreeOff Variable.isExtra world world' /\
      this.marker.denote world' /\ other.marker.denote world' := by
  rcases cached.pep508_iff.mp holds with ⟨first, agree, holds⟩
  rcases cached'.pep508_iff.mp holds' with ⟨second, agree', holds'⟩
  rcases independent with apart | implies | implies
  · let joined : Assignment := fun var =>
      if var ∈ other.marker.tree.vars then second var else first var
    have same : ∀ var ∈ this.marker.tree.vars, joined var = first var := by
      intro var occurs
      dsimp only [joined]
      split
      next occurs' =>
        cases isExtra : var.isExtra with
        | true =>
          cases var with
          | extra name => exact absurd occurs' (apart name occurs)
          | _ => cases isExtra
        | false => exact (agree' var isExtra).symm.trans (agree var isExtra)
      next => rfl
    have same' : ∀ var ∈ other.marker.tree.vars, joined var = second var :=
      fun var occurs => if_pos occurs
    refine ⟨joined, fun var kept => ?_, ?_, ?_⟩
    · dsimp only [joined]
      split
      · exact agree' var kept
      · exact agree var kept
    · exact (Tree.eval_congr same).trans holds
    · exact (Tree.eval_congr same').trans holds'
  · exact ⟨first, agree, holds, implies first holds⟩
  · exact ⟨second, agree', implies second holds', holds'⟩

/-- Removing extras commutes with a conjunction of independent markers. -/
lemma and_cached (independent : Independent this other) (aligned : Aligned this other) :
    (this.and other).Cached := by
  intro world
  rw [Bool.eq_iff_iff, denote_withoutExtras_iff]
  rcases aligned with ⟨exact, exact'⟩ | ⟨apart, part⟩
  · simp only [and, denote_and_of_exact exact, denote_and_of_exact exact', Bool.and_eq_true]
    constructor
    · exact fun both => independent.joint cached cached' both.1 both.2
    · rintro ⟨world', agree, first, second⟩
      exact ⟨cached.pep508_iff.mpr ⟨world', agree, first⟩, cached'.pep508_iff.mpr ⟨world', agree, second⟩⟩
  · have never := never_together apart part fun world admitted first second => by
      rcases independent.joint cached cached' first second with ⟨world', agree, both⟩
      exact ⟨world', admitted_of_agreeOff agree admitted, both⟩
    refine iff_of_false (Bool.eq_false_iff.mp (never world)) ?_
    rintro ⟨world', _, holds⟩
    exact Bool.eq_false_iff.mp (denote_and_of_apart apart world') holds

end

/-- The markers that the operations produce.  Both parts of the operands of a conjunction or a
disjunction are treated alike, and operands of a conjunction are independent. -/
inductive Produced : UniversalMarker sets -> Prop
  | new (pep508Marker : MarkerTree sets) (conflictMarker : ConflictMarker sets) :
      Produced (new pep508Marker conflictMarker)
  | fromCombined (marker : MarkerTree sets) : Produced (fromCombined marker)
  | or {this other : UniversalMarker sets} : Produced this -> Produced other ->
      Aligned this.negated other.negated -> Produced (this.or other)
  | and {this other : UniversalMarker sets} : Produced this -> Produced other ->
      Independent this other -> Aligned this other -> Produced (this.and other)
  | imbibe {this : UniversalMarker sets} (conflicts : ConflictMarker sets) :
      Produced this -> Produced (this.imbibe conflicts)
  | assumeConflictItem {this : UniversalMarker sets} (item : ConflictItem) :
      Produced this -> Produced (assumeConflictItem item this)
  | assumeNotConflictItem {this : UniversalMarker sets} (item : ConflictItem) :
      Produced this -> Produced (assumeNotConflictItem item this)
  | unifyInferenceSets {this : UniversalMarker sets} (conflictSets : List (List Inference)) :
      Produced this -> Produced (this.unifyInferenceSets conflictSets)

lemma Produced.cached {this : UniversalMarker sets} (produced : Produced this) : this.Cached := by
  induction produced with
  | new pep508Marker conflictMarker => exact fromCombined_cached _
  | fromCombined marker => exact fromCombined_cached marker
  | or _ _ aligned ih ih' => exact or_cached ih ih' aligned
  | and _ _ independent aligned ih ih' => exact and_cached ih ih' independent aligned
  | imbibe conflicts _ ih => exact imbibe_cached ih conflicts
  | assumeConflictItem item _ _ =>
    rw [assumeConflictItem_eq]
    exact fromCombined_cached _
  | assumeNotConflictItem item _ _ =>
    rw [assumeNotConflictItem_eq]
    exact fromCombined_cached _
  | unifyInferenceSets conflictSets _ ih => exact unifyInferenceSets_cached ih conflictSets

/-- The environment part of every marker that the operations produce is the combined marker
without its extras. -/
theorem pep508_of_produced {this : UniversalMarker sets} (produced : Produced this) :
    this.pep508.eq this.marker.withoutExtras = true :=
  (eq_iff _ _).mpr (funext produced.cached)

/-- A marker for an extra on Linux, or else another extra. -/
theorem pep508_of_produced_linux :
    ((new (.expression (.string .sysPlatform .equal "linux"))
      ⟨.expression (.extra (.extra "extra-3-foo-x1") .equal)⟩).or
      (fromCombined (.expression (.extra (.extra "extra-3-foo-x2") .equal))) :
      UniversalMarker .cutSets).pep508.eq
    ((new (.expression (.string .sysPlatform .equal "linux"))
      ⟨.expression (.extra (.extra "extra-3-foo-x1") .equal)⟩).or
      (fromCombined (.expression (.extra (.extra "extra-3-foo-x2") .equal))) :
      UniversalMarker .cutSets).marker.withoutExtras = true := by
  refine pep508_of_produced (.or (.new _ _) (.fromCombined _) (.inl ⟨.inl (.inr ?_), .inl (.inr ?_)⟩))
  · unfold Tree.Harmless
    decide +kernel
  · unfold Tree.Harmless
    decide +kernel

/-- The marker of an extra and the marker of its absence: their conjunction is `false`, but
its environment part is `true`. -/
theorem pep508_and_opposite :
    ((fromCombined (.expression (.extra (.extra "extra-3-foo-x1") .equal))).and
      (fromCombined (.expression (.extra (.extra "extra-3-foo-x1") .notEqual))) :
      UniversalMarker .cutSets).pep508.isTrue = true /\
    ((fromCombined (.expression (.extra (.extra "extra-3-foo-x1") .equal))).and
      (fromCombined (.expression (.extra (.extra "extra-3-foo-x1") .notEqual))) :
      UniversalMarker .cutSets).marker.withoutExtras.isFalse = true := by
  refine ⟨?_, ?_⟩
  · decide +kernel
  · decide +kernel

end UniversalMarker

end Uv.Resolver
