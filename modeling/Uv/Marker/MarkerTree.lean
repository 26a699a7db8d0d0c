import Uv.Marker.Expression
import Uv.Marker.Restrict

namespace Uv.Marker

open Pep440 Library

/-!
# Marker trees

The public face of the diagrams: a tree together with the fact that it is reduced,
and the operations of the algebra.  Each operation has one lemma that says what the
result denotes.  Conjunctions and disjunctions are exact only outside the excluded
combinations of platform values, so their lemmas ask for an assignment that is not
excluded.
-/

/-! ## Expressions are reduced -/

namespace Tree

variable {sets : IntervalSets}

lemma stringExpression_reduced (key : CanonicalMarkerValueString) (operator : MarkerOperator)
    (value : String) : (stringExpression key operator value : Tree sets).Reduced := by
  have string := (@stringNode_decides sets (.string key) rfl (stringRange sets key operator value)).reduced
  have darwin := (@stringEqual_decides sets (.sysPlatform, "darwin")).reduced
  unfold stringExpression
  dsimp only
  split
  · split
    · split
      next spec _ =>
        have version := (@versionNode_decides sets (.versionString key) rfl
          (specifierRange sets spec)).reduced
        exact or_reduced (and_isConjunction darwin version).reduced
          (and_isConjunction darwin.not string).reduced
      · exact string
    · exact string
  · exact string

lemma expression_reduced (expr : MarkerExpression) : (expression expr : Tree sets).Reduced := by
  unfold expression
  split
  · exact (versionNode_decides rfl _).reduced
  · exact (versionNode_decides rfl _).reduced
  · split
    · exact (versionNode_decides rfl _).reduced
    · exact .leaf _
  · exact (versionNode_decides rfl _).reduced
  · exact (versionNode_decides rfl _).reduced
  · split
    · exact (versionNode_decides rfl _).reduced
    · exact .leaf _
  · exact (booleanNode_decides rfl _).reduced
  · exact (booleanNode_decides rfl _).reduced
  · exact (booleanNode_decides rfl _).reduced
  · exact (booleanNode_decides rfl _).reduced
  · exact stringExpression_reduced _ _ _
  · exact (booleanNode_decides rfl _).reduced
  · exact (booleanNode_decides rfl _).reduced
  · exact (booleanNode_decides rfl _).reduced
  · exact .leaf false

/-- Whether no environment satisfies both trees, as far as this is known. -/
def isDisjoint (x y : Tree sets) : Bool :=
  match andTrivial x y with
  | some z => z.isFalse
  | none => if conflicts x y then (and x y).isFalse else disjointness x y

end Tree

structure MarkerTree (sets : IntervalSets) where
  tree : Tree sets
  reduced : tree.Reduced

namespace MarkerTree

variable {sets : IntervalSets}

/-- The marker that always applies. -/
def TRUE : MarkerTree sets := ⟨.leaf true, .leaf true⟩

/-- The marker that never applies. -/
def FALSE : MarkerTree sets := ⟨.leaf false, .leaf false⟩

def expression (expr : MarkerExpression) : MarkerTree sets :=
  ⟨.expression expr, Tree.expression_reduced expr⟩

def isTrue (marker : MarkerTree sets) : Bool := marker.tree.isTrue
def isFalse (marker : MarkerTree sets) : Bool := marker.tree.isFalse

lemma ext_tree {marker other : MarkerTree sets} (same : marker.tree = other.tree) :
    marker = other := by
  cases marker
  cases other
  cases same
  rfl

lemma isTrue_iff (marker : MarkerTree sets) : marker.isTrue <-> marker = .TRUE := by
  rw [isTrue, Tree.isTrue_iff]
  exact ⟨fun same => ext_tree same, fun equal => congrArg tree equal⟩

lemma isFalse_iff (marker : MarkerTree sets) : marker.isFalse <-> marker = .FALSE := by
  rw [isFalse, Tree.isFalse_iff]
  exact ⟨fun same => ext_tree same, fun equal => congrArg tree equal⟩

/-- Equality of markers is equality of their diagrams. -/
def eq (marker other : MarkerTree sets) : Bool := marker.tree.beq other.tree

def negate (marker : MarkerTree sets) : MarkerTree sets :=
  ⟨marker.tree.not, marker.reduced.not⟩

def and (marker other : MarkerTree sets) : MarkerTree sets :=
  ⟨marker.tree.and other.tree, (Tree.and_isConjunction marker.reduced other.reduced).reduced⟩

def or (marker other : MarkerTree sets) : MarkerTree sets :=
  ⟨marker.tree.or other.tree, Tree.or_reduced marker.reduced other.reduced⟩

def implies (marker consequent : MarkerTree sets) : MarkerTree sets := marker.negate.or consequent

def isDisjoint (marker other : MarkerTree sets) : Bool := marker.tree.isDisjoint other.tree

def withoutExtras (marker : MarkerTree sets) : MarkerTree sets :=
  ⟨marker.tree.withoutExtras, (Tree.project_isProjection _ marker.reduced).reduced⟩

def onlyExtras (marker : MarkerTree sets) : MarkerTree sets :=
  ⟨marker.tree.onlyExtras, (Tree.project_isProjection _ marker.reduced).reduced⟩

/-- The assumption that the extras which pass the test are active, or that they are not. -/
def assumeExtras (value : Bool) (isExtra : ExtraName -> Bool) : Variable -> Option Bool
  | .extra name => if isExtra name then some value else none
  | _ => none

def simplifyExtras (value : Bool) (isExtra : ExtraName -> Bool) (marker : MarkerTree sets) :
    MarkerTree sets :=
  ⟨marker.tree.restrictBy (assumeExtras value isExtra),
    (Tree.restrictBy_isRestriction _ marker.reduced).reduced⟩

variable (isExtra : ExtraName -> Bool)

/-- Assume the extras that pass the test to be active. -/
def simplifyExtrasWith : MarkerTree sets -> MarkerTree sets :=
  simplifyExtras true isExtra

/-- Assume the extras that pass the test to be inactive. -/
def simplifyNotExtrasWith : MarkerTree sets -> MarkerTree sets :=
  simplifyExtras false isExtra

/-! ## What the operations denote -/

def denote (marker : MarkerTree sets) (world : Assignment) : Bool :=
  marker.tree.denote world

section

variable (marker other : MarkerTree sets) {world : Assignment}

lemma eq_iff : marker.eq other <-> marker.denote = other.denote :=
  marker.reduced.beq_iff other.reduced

lemma denote_negate : marker.negate.denote world = !marker.denote world :=
  Tree.denote_not marker.tree marker.reduced world

lemma denote_and (admitted : ¬ Excluded world) :
    (marker.and other).denote world = (marker.denote world && other.denote world) :=
  Tree.denote_and marker.reduced other.reduced admitted

lemma denote_or (admitted : ¬ Excluded world) :
    (marker.or other).denote world = (marker.denote world || other.denote world) :=
  Tree.denote_or marker.reduced other.reduced admitted

/-- No extra occurs in an incompatible pair. -/
lemma isConflictingVariable_of_isExtra (var : Variable) (isExtra : var.isExtra) :
    var.isConflictingVariable = false := by
  cases var <;> first | rfl | cases isExtra

variable {world' : Assignment}

lemma admitted_of_agreeOff
    (agree : Tree.AgreeOff Variable.isExtra world world') (admitted : ¬ Excluded world) :
    ¬ Excluded world' := fun excluded =>
  admitted (Tree.excluded_of_agreeOff _ isConflictingVariable_of_isExtra agree excluded)

/-- Without its extras a marker holds where some selection of extras satisfies it. -/
lemma denote_withoutExtras_iff :
    marker.withoutExtras.denote world <->
      ∃ world', Tree.AgreeOff Variable.isExtra world world' /\ marker.denote world' := by
  have projection := Tree.project_isProjection Variable.isExtra marker.reduced
  constructor
  · exact projection.sound world (Tree.merges_of_harmless _ isConflictingVariable_of_isExtra world)
  · rintro ⟨world', agree, holds⟩
    exact projection.complete world world' agree holds

/-- A marker without extras does not look at them. -/
lemma denote_withoutExtras_congr (agree : Tree.AgreeOff Variable.isExtra world world') :
    marker.withoutExtras.denote world = marker.withoutExtras.denote world' :=
  Tree.eval_congr fun var occurs =>
    agree var ((Tree.project_isProjection Variable.isExtra marker.reduced).vars occurs).2

lemma denote_simplifyExtras (value : Bool) (isExtra : ExtraName -> Bool) :
    (marker.simplifyExtras value isExtra).denote world =
      marker.denote (Tree.assumed (assumeExtras value isExtra) world) :=
  (Tree.restrictBy_isRestriction _ marker.reduced).denotes world

end

end MarkerTree

end Uv.Marker
