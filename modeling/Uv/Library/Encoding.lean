import Mathlib

namespace Uv.Library

open List

/-!
# Encodings that can be followed by anything

Values are written one after the other, with nothing between them.  An encoding
separates values if it can be cut off again: whatever is written behind it, what
was encoded and the rest are determined.  Encodings do not have to keep
everything about a value, so what they determine is a function of the value,
called its key.
-/

/-- The first occurrence of a mark cuts a list. -/
lemma cut_at_mark {β : Type} {mark : β} {left right leftRest rightRest : List β}
    (leftFree : mark ∉ left) (rightFree : mark ∉ right)
    (same : left ++ mark :: leftRest = right ++ mark :: rightRest) :
    left = right /\ leftRest = rightRest := by
  induction left generalizing right with
  | nil =>
    cases right with
    | nil => exact ⟨rfl, (cons.inj same).2⟩
    | cons other right =>
      rw [(cons.inj same).1] at rightFree
      exact absurd mem_cons_self rightFree
  | cons first left ih =>
    cases right with
    | nil =>
      rw [(cons.inj same).1] at leftFree
      exact absurd mem_cons_self leftFree
    | cons other right =>
      rcases cons.inj same with ⟨head, tail⟩
      rcases ih (fun inside => leftFree (mem_cons_of_mem _ inside))
        (fun inside => rightFree (mem_cons_of_mem _ inside)) tail with ⟨texts, rests⟩
      rw [head, texts]
      exact ⟨rfl, rests⟩

/-- Lists whose elements have the same keys are encoded alike. -/
lemma flatMap_eq_of_keys {α β κ : Type} {encode : α -> List β} {key : α -> κ}
    (kept : ∀ left right, key left = key right -> encode left = encode right)
    {left right : List α} (keys : left.map key = right.map key) :
    left.flatMap encode = right.flatMap encode := by
  induction left generalizing right with
  | nil =>
    rw [map_nil, eq_comm, map_eq_nil_iff] at keys
    rw [keys]
  | cons value left ih =>
    cases right with
    | nil => cases keys
    | cons other right =>
      rcases cons.inj keys with ⟨head, tail⟩
      rw [flatMap_cons, flatMap_cons, kept value other head, ih tail]

/-- The encodings of two valid values, each with something behind it, are only
equal if the keys and the rests are. -/
def Separates {α β κ : Type} (valid : α -> Prop) (encode : α -> List β) (key : α -> κ) : Prop :=
  ∀ left right, valid left -> valid right -> ∀ leftRest rightRest,
    encode left ++ leftRest = encode right ++ rightRest ->
      key left = key right /\ leftRest = rightRest

namespace Separates

variable {α γ β κ ι : Type} {valid : α -> Prop} {encode : α -> List β} {key : α -> κ}

/-- Encodings of one length can be cut off by counting. -/
lemma of_length {width : Nat} (length : ∀ value, (encode value).length = width)
    (determines : ∀ left right, valid left -> valid right ->
      encode left = encode right -> key left = key right) :
    Separates valid encode key := by
  intro left right leftValid rightValid leftRest rightRest same
  rcases append_inj same ((length left).trans (length right).symm) with ⟨first, rest⟩
  exact ⟨determines left right leftValid rightValid first, rest⟩

/-- A mark that does not occur before it ends a text. -/
lemma terminated {mark : β} (free : ∀ value, mark ∉ encode value) :
    Separates (fun _ => True) (fun value => encode value ++ [mark]) encode := by
  intro left right _ _ leftRest rightRest same
  rw [append_assoc, append_assoc] at same
  exact cut_at_mark (free left) (free right) same

/-- One part behind the other. -/
lemma append {encode' : α -> List β} {key' : α -> ι} (first : Separates valid encode key)
    (second : Separates valid encode' key') :
    Separates valid (fun value => encode value ++ encode' value) fun value =>
      (key value, key' value) := by
  intro left right leftValid rightValid leftRest rightRest same
  rw [append_assoc, append_assoc] at same
  rcases first left right leftValid rightValid _ _ same with ⟨keys, same⟩
  rcases second left right leftValid rightValid _ _ same with ⟨keys', rests⟩
  exact ⟨Prod.ext keys keys', rests⟩

/-- A part of a larger value. -/
lemma part {valid' : γ -> Prop} (separates : Separates valid encode key) (part : γ -> α)
    (fits : ∀ value, valid' value -> valid (part value)) :
    Separates valid' (fun value => encode (part value)) fun value => key (part value) :=
  fun left right leftValid rightValid =>
    separates (part left) (part right) (fits left leftValid) (fits right rightValid)

/-- The key determines another key of the valid values. -/
lemma weaken {key' : α -> ι} (separates : Separates valid encode key)
    (determines : ∀ left right, valid left -> valid right -> key left = key right ->
      key' left = key' right) : Separates valid encode key' := by
  intro left right leftValid rightValid leftRest rightRest same
  rcases separates left right leftValid rightValid _ _ same with ⟨keys, rests⟩
  exact ⟨determines left right leftValid rightValid keys, rests⟩

/-- A list behind the number of its elements. -/
lemma counted {bound : Nat} {count : Nat -> List β}
    (counts : Separates (· < bound) count id) (separates : Separates valid encode key) :
    Separates (fun list => list.length < bound /\ ∀ value ∈ list, valid value)
      (fun list : List α => count list.length ++ list.flatMap encode) (List.map key) := by
  have items : ∀ left right : List α, left.length = right.length ->
      (∀ value ∈ left, valid value) -> (∀ value ∈ right, valid value) ->
      ∀ leftRest rightRest, left.flatMap encode ++ leftRest = right.flatMap encode ++ rightRest ->
      left.map key = right.map key /\ leftRest = rightRest := by
    intro left
    induction left with
    | nil =>
      intro right length _ _ leftRest rightRest same
      cases right with
      | nil => exact ⟨rfl, same⟩
      | cons other right => cases length
    | cons value left ih =>
      intro right length leftValid rightValid leftRest rightRest same
      cases right with
      | nil => cases length
      | cons other right =>
        rw [flatMap_cons, flatMap_cons, append_assoc, append_assoc] at same
        rcases separates value other (leftValid value mem_cons_self)
          (rightValid other mem_cons_self) _ _ same with ⟨keys, same⟩
        rcases ih right (Nat.succ_inj.mp length)
          (forall_mem_cons.mp leftValid).2
          (forall_mem_cons.mp rightValid).2 _ _ same with
          ⟨rest, rests⟩
        rw [map_cons, map_cons, keys, rest]
        exact ⟨rfl, rests⟩
  intro left right leftValid rightValid leftRest rightRest same
  rw [append_assoc, append_assoc] at same
  rcases counts _ _ leftValid.1 rightValid.1 _ _ same with ⟨length, same⟩
  exact items left right length leftValid.2 rightValid.2 _ _ same

/-- A value that may be absent, with a mark in front for each case. -/
lemma option {absent present : β} (apart : absent ≠ present)
    (separates : Separates valid encode key) :
    Separates (fun value => ∀ inner, value = some inner -> valid inner)
      (fun value : Option α => value.elim [absent] fun inner => present :: encode inner)
      (Option.map key) := by
  intro left right leftValid rightValid leftRest rightRest same
  cases left with
  | none =>
    cases right with
    | none => exact ⟨rfl, (cons.inj same).2⟩
    | some value => exact absurd (cons.inj same).1 apart
  | some value =>
    cases right with
    | none => exact absurd (cons.inj same).1.symm apart
    | some other =>
      rcases separates value other (leftValid value rfl) (rightValid other rfl) _ _
        (cons.inj same).2 with ⟨keys, rests⟩
      rw [Option.map_some, Option.map_some, keys]
      exact ⟨rfl, rests⟩

end Separates

end Uv.Library
