import Mathlib.Data.List.Basic
import Mathlib.Logic.Function.Basic

/-!
# Chains of linked nodes

Each node has at most one link. `Linked` says that following the links from a start visits
exactly the nodes of a list and then ends, and `Reaches` that a node is visited at all. A
chain is not affected by the links of other nodes.
-/

namespace HmrRpc.Common

variable {A : Type*} {next : A → Option A}

/-- Following the links from the start visits the nodes of the list in order and ends. -/
def Linked (next : A → Option A) : Option A → List A → Prop
  | start, [] => start = none
  | start, a :: rest => start = some a ∧ Linked next (next a) rest

/-- Following the links from the start visits the node. -/
inductive Reaches (next : A → Option A) : Option A → A → Prop
  | head (a : A) : Reaches next (some a) a
  | link {a b : A} (h : Reaches next (next a) b) : Reaches next (some a) b

/-- If each number links to the next one and the last to none, the chain visits them in order. -/
theorem linked_range' {next : ℕ → Option ℕ} {i n : ℕ}
    (h : ∀ j, i ≤ j → j ≤ i + n → next j = if j = i + n then none else some (j + 1)) :
    Linked next (some i) (List.range' i (n + 1)) := by
  induction n generalizing i with
  | zero =>
    refine ⟨rfl, ?_⟩
    rw [h i (Nat.le_refl i) (by omega), if_pos (by omega)]
    rfl
  | succ n ih =>
    refine ⟨rfl, ?_⟩
    rw [h i (Nat.le_refl i) (by omega), if_neg (by omega)]
    refine ih fun j hlo hhi => ?_
    rw [h j (by omega) (by omega)]
    congr 1
    exact propext (by omega)

namespace Linked

variable {start : Option A} {l : List A}

/-- The nodes reached are those of the chain. -/
theorem reaches_iff (h : Linked next start l) {a : A} : Reaches next start a ↔ a ∈ l := by
  constructor
  · intro hreach
    induction hreach generalizing l with
    | head a =>
      cases l with
      | nil => exact absurd h (by simp [Linked])
      | cons b rest => exact Option.some.inj h.1 ▸ List.mem_cons_self
    | link _ ih =>
      cases l with
      | nil => exact absurd h (by simp [Linked])
      | cons b rest =>
        obtain ⟨hstart, hrest⟩ := h
        obtain rfl := Option.some.inj hstart
        exact List.mem_cons_of_mem _ (ih hrest)
  · intro hmem
    induction l generalizing start with
    | nil => exact absurd hmem List.not_mem_nil
    | cons b rest ih =>
      obtain ⟨rfl, hrest⟩ := h
      rcases List.mem_cons.mp hmem with rfl | htail
      · exact .head a
      · exact .link (ih hrest htail)

variable [DecidableEq A]

/-- The link of a node outside the chain does not matter. -/
theorem update (h : Linked next start l) {a : A} (ha : a ∉ l) (link : Option A) :
    Linked (Function.update next a link) start l := by
  induction l generalizing start with
  | nil => exact h
  | cons b rest ih =>
    have hne : b ≠ a := fun heq => ha (heq ▸ List.mem_cons_self)
    have hrest : a ∉ rest := fun hmem => ha (List.mem_cons_of_mem _ hmem)
    refine ⟨h.1, ?_⟩
    rw [Function.update_of_ne hne]
    exact ih h.2 hrest

end Linked

end HmrRpc.Common
