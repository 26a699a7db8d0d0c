import Uv.Marker.Tree

namespace Uv.Marker

open Pep440 Library

/-!
# Trees with a single decision

A comparison of one variable with a constant is a tree with at most one node.
What such a tree denotes is membership of the value in a range.
-/

inductive MarkerOperator where
  | equal
  | notEqual
  | greaterThan
  | greaterEqual
  | lessThan
  | lessEqual
  | tildeEqual
  | isIn
  | notIn
  | contains
  | notContains
  deriving DecidableEq, Repr

def MarkerOperator.toPep440Operator : MarkerOperator -> Option Operator
  | .equal => some .equal
  | .notEqual => some .notEqual
  | .greaterThan => some .greaterThan
  | .greaterEqual => some .greaterThanEqual
  | .lessThan => some .lessThan
  | .lessEqual => some .lessThanEqual
  | .tildeEqual => some .tildeEqual
  | _ => none

inductive ContainerOperator where
  | isIn
  | notIn
  deriving DecidableEq, Repr

def ContainerOperator.fromMarkerOperator : MarkerOperator -> Option ContainerOperator
  | .isIn => some .isIn
  | .notIn => some .notIn
  | _ => none

/-! ## Nodes for a range and for a Boolean -/

namespace Tree

variable {sets : IntervalSets} (var : Variable)

def versionNode (range : sets.versions.Ranges) : Tree sets :=
  createNode var (.version (fromRange sets.versions Tree.leaf range))

def stringNode (range : sets.strings.Ranges) : Tree sets :=
  createNode var (.string (fromRange sets.strings Tree.leaf range))

def booleanNode (complemented : Bool) : Tree sets :=
  createNode var (Edges.fromBool Tree.leaf complemented)

/-- A tree that tests at most one variable, and when it holds. -/
structure Decides (tree : Tree sets) (var : Variable) (holds : Point -> Bool) : Prop where
  reduced : tree.Reduced
  denotes : ∀ world, tree.denote world = holds (world var)
  vars : ∀ other ∈ tree.vars, other = var

lemma leaf_ne : (leaf true : Tree sets).denote ≠ (leaf false : Tree sets).denote :=
  fun same => Bool.false_ne_true (congrFun same default).symm

variable {var : Variable}

/-- A node whose children are constants. -/
lemma createNode_decides {children : Edges sets (Tree sets)}
    {holds : Point -> Bool} (kind : children.kind = var.kind) (tiled : children.Tiled)
    (distinct : children.Distinct denote)
    (leaves : ∀ child ∈ children.nodes, ∃ value, child = .leaf value)
    (reads : ∀ point, children.read point = some (.leaf (holds point))) :
    (createNode var children).Decides var holds where
  reduced := by
    refine createNode_reduced tiled ?_ kind distinct ?_
    · intro child mem
      rcases leaves child mem with ⟨value, rfl⟩
      exact .leaf value
    · intro child mem
      rcases leaves child mem with ⟨value, rfl⟩
      exact after_leaf var value
  denotes world := by
    refine (denote_createNode tiled ?_ world).trans ?_
    · intro child mem
      rcases leaves child mem with ⟨value, rfl⟩
      exact .leaf value
    · rw [reads]
      rfl
  vars other occurs := by
    rcases createNode_vars occurs with rfl | ⟨child, mem, occurs⟩
    · rfl
    · rcases leaves child mem with ⟨value, rfl⟩
      cases occurs

lemma fromRange_leaves {V : Type} {cmp : V -> V -> Ordering} (alg : RangeAlgebra V cmp)
    (range : alg.Ranges) {child : Tree sets}
    (mem : child ∈ (fromRange alg Tree.leaf range).map Prod.snd) :
    ∃ value, child = leaf value := by
  rcases List.mem_map.mp mem with ⟨edge, edgeListed, rfl⟩
  rcases (mem_fromRange_iff alg Tree.leaf range).mp edgeListed with ⟨_, value, _, rfl⟩
  exact ⟨value, rfl⟩

lemma versionNode_decides (kind : var.kind = .version) (range : sets.versions.Ranges) :
    (versionNode var range).Decides var fun point => sets.versions.mem range point.version :=
  createNode_decides kind.symm (fromRange_tiled _ Version.cmp_orderedBy _ range)
    (fromRange_distinct _ Version.cmp_orderedBy _ range leaf_ne)
    (fun _ => fromRange_leaves _ range)
    fun point => tileAt_fromRange _ Version.cmp_orderedBy _ range point.version

lemma stringNode_decides (kind : var.kind = .string) (range : sets.strings.Ranges) :
    (stringNode var range).Decides var fun point => sets.strings.mem range point.string :=
  createNode_decides kind.symm (fromRange_tiled _ stringCompare_orderedBy _ range)
    (fromRange_distinct _ stringCompare_orderedBy _ range leaf_ne)
    (fun _ => fromRange_leaves _ range)
    fun point => tileAt_fromRange _ stringCompare_orderedBy _ range point.string

lemma booleanNode_decides (kind : var.kind = .boolean) (complemented : Bool) :
    (booleanNode var complemented : Tree sets).Decides var fun point =>
      point.boolean == complemented := by
  refine createNode_decides ?_ ?_ ?_ ?_ (Edges.fromBool_read _ complemented)
  · cases complemented <;> exact kind.symm
  · cases complemented <;> trivial
  · cases complemented <;> trivial
  · intro child mem
    cases complemented <;>
      simp only [Edges.fromBool, Edges.nodes, if_true, Bool.false_eq_true, if_false,
        List.mem_cons, List.not_mem_nil, or_false] at mem <;>
      rcases mem with rfl | rfl <;> exact ⟨_, rfl⟩

end Tree

/-! ## The ranges of comparisons -/

section

variable (sets : IntervalSets)

/-- The strings that a comparison accepts.  Only the release and the version of a
platform are ordered.  `~=` and the containment operators do not arise here. -/
def stringRange (key : CanonicalMarkerValueString) (operator : MarkerOperator) (value : String) :
    sets.strings.Ranges :=
  match key, operator with
  | .platformRelease, .greaterThan => sets.strings.strictlyHigherThan value
  | .platformVersion, .greaterThan => sets.strings.strictlyHigherThan value
  | .platformRelease, .greaterEqual => sets.strings.higherThan value
  | .platformVersion, .greaterEqual => sets.strings.higherThan value
  | .platformRelease, .lessThan => sets.strings.strictlyLowerThan value
  | .platformVersion, .lessThan => sets.strings.strictlyLowerThan value
  | .platformRelease, .lessEqual => sets.strings.lowerThan value
  | .platformVersion, .lessEqual => sets.strings.lowerThan value
  | _, .equal => sets.strings.singleton value
  | _, .notEqual => sets.strings.complement (sets.strings.singleton value)
  | _, .greaterThan => sets.strings.empty
  | _, .lessThan => sets.strings.empty
  | _, .greaterEqual => sets.strings.singleton value
  | _, .lessEqual => sets.strings.singleton value
  | _, _ => sets.strings.empty

end

end Uv.Marker
