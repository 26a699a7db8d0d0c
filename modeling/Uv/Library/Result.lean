import Mathlib

namespace Uv.Library

/-!
# Computations that can fail

A sequence of fallible steps that succeeds is taken apart step by step.
-/

lemma of_bind_ok {Error First Second : Type} {first : Except Error First}
    {next : First -> Except Error Second} {result : Second} (done : first >>= next = .ok result) :
    ∃ value, first = .ok value /\ next value = .ok result := by
  cases first with
  | error error => cases done
  | ok value => exact ⟨value, rfl, done⟩

end Uv.Library
