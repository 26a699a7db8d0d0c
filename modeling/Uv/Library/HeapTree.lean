import Mathlib

namespace Uv.Library

/-!
# Binary trees laid out in an array

The children of node `n` are the nodes `2 n` and `2 n + 1`.  The nodes under `n`
are those that halving leads back to `n`, so two siblings have no node in common
and an update under one of them leaves the other alone.  A tree over an interval
of positions halves the interval at each level, and four places for each position
are enough for all its nodes.
-/

/-- The node lies in the subtree below `top`, which includes `top`. -/
def Under (top node : Nat) : Prop :=
  ∃ depth, node / 2 ^ depth = top

namespace Under

variable {top node : Nat}

lemma refl (top : Nat) : Under top top := ⟨0, by rw [pow_zero, Nat.div_one]⟩

lemma of_double (under : Under (top * 2) node) : Under top node := by
  rcases under with ⟨depth, halved⟩
  refine ⟨depth + 1, ?_⟩
  rw [pow_succ, <- Nat.div_div_eq_div_mul, halved]
  omega

lemma of_double_succ (under : Under (top * 2 + 1) node) : Under top node := by
  rcases under with ⟨depth, halved⟩
  refine ⟨depth + 1, ?_⟩
  rw [pow_succ, <- Nat.div_div_eq_div_mul, halved]
  omega

lemma le (under : Under top node) : top <= node := by
  rcases under with ⟨depth, halved⟩
  rw [<- halved]
  exact Nat.div_le_self _ _

/-- Of two nodes above the same node, one is above the other. -/
lemma linear {other : Nat} (under : Under top node) (under' : Under other node) :
    Under top other \/ Under other top := by
  rcases under with ⟨depth, halved⟩
  rcases under' with ⟨depth', halved'⟩
  rcases Nat.le_total depth depth' with le | le
  · refine .inr ⟨depth' - depth, ?_⟩
    rw [<- halved, <- halved', Nat.div_div_eq_div_mul, <- pow_add, Nat.add_sub_cancel' le]
  · refine .inl ⟨depth - depth', ?_⟩
    rw [<- halved, <- halved', Nat.div_div_eq_div_mul, <- pow_add, Nat.add_sub_cancel' le]

lemma eq_or_le_half (under : Under top node) : node = top \/ top <= node / 2 := by
  rcases under with ⟨depth, halved⟩
  cases depth with
  | zero =>
    rw [pow_zero, Nat.div_one] at halved
    exact .inl halved
  | succ depth =>
    rw [pow_succ, Nat.mul_comm, <- Nat.div_div_eq_div_mul] at halved
    exact .inr (halved ▸ Nat.div_le_self _ _)

/-- Siblings have no common node below them. -/
lemma siblings (under : Under (top * 2) node) (positive : 0 < top) :
    ¬ Under (top * 2 + 1) node := by
  intro under'
  rcases under.linear under' with above | above
  · rcases above.eq_or_le_half with same | half <;> omega
  · have less := above.le
    omega

lemma not_parent (under : Under (top * 2) node \/ Under (top * 2 + 1) node) (positive : 0 < top) :
    node ≠ top := by
  rintro rfl
  rcases under with under | under <;> have less := under.le <;> omega

end Under

/-- The node of a tree over `length` positions that covers the positions from
`left` to `right`: at its depth the interval is this short. -/
structure Covers (length node left right : Nat) : Prop where
  nonempty : left < right
  positive : 0 < node
  depth : ∃ depth, node < 2 ^ (depth + 1) /\
    (right - left - 1) * 2 ^ depth < length /\ 2 ^ depth <= 2 * length

namespace Covers

variable {length node left right : Nat}

lemma root (positive : 0 < length) : Covers length 1 0 length where
  nonempty := positive
  positive := Nat.one_pos
  depth := ⟨0, by decide, by omega, by omega⟩

section

variable (covers : Covers length node left right)

include covers

/-- The node has its place in the array. -/
lemma lt_size : node < 4 * length := by
  rcases covers.depth with ⟨depth, below, _, bounded⟩
  rw [pow_succ] at below
  omega

lemma child {node' left' right' : Nat}
    (wide : left + 2 <= right) (number : node' < 2 * node + 2) (positive : 0 < node')
    (nonempty : left' < right') (short : right' - left' <= (right - left + 1) / 2) :
    Covers length node' left' right' := by
  rcases covers.depth with ⟨depth, below, narrow, _⟩
  have level : 2 ^ depth <= (right - left - 1) * 2 ^ depth :=
    Nat.le_mul_of_pos_left _ (by omega)
  refine ⟨nonempty, positive, depth + 1, ?_, ?_, ?_⟩
  · rw [pow_succ] at below ⊢
    omega
  · apply lt_of_le_of_lt _ narrow
    rw [pow_succ, <- Nat.mul_assoc, Nat.mul_right_comm]
    exact Nat.mul_le_mul_right _ (by omega)
  · rw [pow_succ]
    omega

lemma first (wide : left + 2 <= right) :
    Covers length (node * 2) left (left + (right - left) / 2) :=
  covers.child wide (by omega) (Nat.mul_pos covers.positive Nat.two_pos) (by omega) (by omega)

lemma second (wide : left + 2 <= right) :
    Covers length (node * 2 + 1) (left + (right - left) / 2) right :=
  covers.child wide (by omega) (Nat.succ_pos _) (by omega) (by omega)

end

end Covers

end Uv.Library
