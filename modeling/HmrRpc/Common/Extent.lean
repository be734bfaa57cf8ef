import Mathlib.Algebra.BigOperators.Group.List.Basic
import Mathlib.Tactic.Ring

/-!
# Consecutive ranges

Ranges are given by their start and their length. They are consecutive from an offset on
when each starts where the one before it ends; a function says where an offset lies, as
offsets may wrap around in the address space.
-/

namespace HmrRpc.Common

/-- The length of ranges laid one behind the other. -/
def extent (ranges : List (ℤ × ℕ)) : ℕ := (ranges.map Prod.snd).sum

/-- The ranges follow one another without a gap, the first at an offset. -/
def Consecutive (place : ℤ → ℤ) : ℤ → List (ℤ × ℕ) → Prop
  | _, [] => True
  | offset, range :: rest => range.1 = place offset ∧ Consecutive place (offset + range.2) rest

variable {place : ℤ → ℤ} {offset : ℤ} {ranges ranges' : List (ℤ × ℕ)}

@[simp] theorem extent_nil : extent [] = 0 := rfl

@[simp] theorem extent_cons (range : ℤ × ℕ) (rest : List (ℤ × ℕ)) :
    extent (range :: rest) = range.2 + extent rest := by
  simp [extent]

@[simp] theorem extent_append : extent (ranges ++ ranges') = extent ranges + extent ranges' := by
  simp [extent]

/-- Consecutive ranges are continued where they end. -/
theorem consecutive_append :
    Consecutive place offset (ranges ++ ranges') ↔
      Consecutive place offset ranges ∧ Consecutive place (offset + extent ranges) ranges' := by
  induction ranges generalizing offset with
  | nil => simp [Consecutive]
  | cons range rest ih =>
    simp only [List.cons_append, Consecutive, ih, extent_cons, Nat.cast_add, and_assoc, add_assoc]

/-- Each range starts where the lengths of those before it add up to. -/
theorem Consecutive.start (h : Consecutive place offset ranges) {i : ℕ} {range : ℤ × ℕ}
    (hi : ranges[i]? = some range) : range.1 = place (offset + extent (ranges.take i)) := by
  induction ranges generalizing offset i with
  | nil => simp at hi
  | cons first rest ih =>
    cases i with
    | zero =>
      obtain rfl : first = range := by simpa using hi
      simpa using h.1
    | succ i =>
      have hrest := ih h.2 (by simpa using hi)
      simpa [add_assoc] using hrest

end HmrRpc.Common
