import Mathlib.Algebra.Order.Group.Multiset
import Mathlib.Tactic.Common

/-!
# A heap with registrations

Blocks of a heap can be pinned by registrations, several to a block. Removing what is not
there, and freeing a block under a registration, are faults: they are recorded and
otherwise do what they can. `Holds` says what a heap without a fault consists of, and each
operation has one rule for it.
-/

namespace HmrRpc.Common

/-- A registration, by number and block. -/
structure Pin where
  id : ℕ
  block : ℕ
  deriving DecidableEq, Repr

/-- A misuse of the heap. -/
inductive HeapFault
  /-- A registration is removed that is not there, or no registration at all. -/
  | unregistered (pin : Option Pin)
  /-- A block is freed that is not live. -/
  | dead (block : ℕ)
  /-- A block is freed under a registration. -/
  | pinned (block : ℕ)
  deriving DecidableEq, Repr

/-- The live blocks, the registrations, and the faults so far. -/
structure PinnedHeap where
  next : ℕ
  blocks : Multiset ℕ
  pins : Multiset Pin
  faults : List HeapFault

namespace PinnedHeap

/-- The heap at the start. -/
def empty : PinnedHeap := ⟨0, 0, 0, []⟩

/-- Allocate a block. -/
def alloc (h : PinnedHeap) : ℕ × PinnedHeap :=
  (h.next, { h with next := h.next + 1, blocks := h.next ::ₘ h.blocks })

/-- Register a block. -/
def register (h : PinnedHeap) (block : ℕ) : Pin × PinnedHeap :=
  (⟨h.next, block⟩, { h with next := h.next + 1, pins := ⟨h.next, block⟩ ::ₘ h.pins })

/-- Remove a registration. -/
def deregister (h : PinnedHeap) : Option Pin → PinnedHeap
  | none => { h with faults := h.faults ++ [.unregistered none] }
  | some pin =>
    if pin ∈ h.pins then { h with pins := h.pins.erase pin }
    else { h with faults := h.faults ++ [.unregistered (some pin)] }

/-- Free a block. -/
def free (h : PinnedHeap) (block : ℕ) : PinnedHeap :=
  if block ∉ h.blocks then { h with faults := h.faults ++ [.dead block] }
  else if block ∈ h.pins.map Pin.block then
    { h with blocks := h.blocks.erase block, faults := h.faults ++ [.pinned block] }
  else { h with blocks := h.blocks.erase block }

/-- Without a fault so far, the live blocks and the registrations are these, and each registration
is over a live block. -/
structure Holds (h : PinnedHeap) (live : Multiset ℕ) (registered : Multiset Pin) : Prop where
  faults : h.faults = []
  blocks : h.blocks = live
  pins : h.pins = registered
  fresh : ∀ block ∈ live, block < h.next
  nodup : live.Nodup
  onBlock : ∀ pin ∈ registered, pin.block ∈ live

variable {h : PinnedHeap} {live : Multiset ℕ} {registered : Multiset Pin}

/-- The heap at the start holds nothing. -/
theorem empty_holds : empty.Holds 0 0 where
  faults := rfl
  blocks := rfl
  pins := rfl
  fresh block hblock := absurd hblock (Multiset.notMem_zero block)
  nodup := Multiset.nodup_zero
  onBlock pin hpin := absurd hpin (Multiset.notMem_zero pin)

/-- The next block allocated is a new one. -/
theorem Holds.alloc_notMem (hh : h.Holds live registered) : h.alloc.1 ∉ live := fun hmem =>
  lt_irrefl _ (hh.fresh _ hmem)

/-- No registration is over it. -/
theorem Holds.block_ne_alloc (hh : h.Holds live registered) :
    ∀ pin ∈ registered, pin.block ≠ h.alloc.1 := fun pin hpin heq =>
  hh.alloc_notMem (heq ▸ hh.onBlock pin hpin)

/-- It joins the live blocks. -/
theorem Holds.alloc (hh : h.Holds live registered) :
    h.alloc.2.Holds (h.alloc.1 ::ₘ live) registered where
  faults := hh.faults
  blocks := congrArg _ hh.blocks
  pins := hh.pins
  fresh block hblock := by
    rcases Multiset.mem_cons.mp hblock with rfl | hblock
    · exact Nat.lt_succ_self _
    · exact Nat.lt_succ_of_lt (hh.fresh block hblock)
  nodup := Multiset.nodup_cons.mpr ⟨hh.alloc_notMem, hh.nodup⟩
  onBlock pin hpin := Multiset.mem_cons_of_mem (hh.onBlock pin hpin)

/-- A registration of a live block joins the registrations. -/
theorem Holds.register {block : ℕ} (hh : h.Holds live registered) (hblock : block ∈ live) :
    (h.register block).2.Holds live ((h.register block).1 ::ₘ registered) where
  faults := hh.faults
  blocks := hh.blocks
  pins := congrArg _ hh.pins
  fresh block hblock := Nat.lt_succ_of_lt (hh.fresh block hblock)
  nodup := hh.nodup
  onBlock pin hpin := by
    rcases Multiset.mem_cons.mp hpin with rfl | hpin
    · exact hblock
    · exact hh.onBlock pin hpin

/-- A registration that is there leaves. -/
theorem Holds.deregister {pin : Pin} (hh : h.Holds live (pin ::ₘ registered)) :
    (h.deregister (some pin)).Holds live registered := by
  have hmem : pin ∈ h.pins := by simp [hh.pins]
  simp only [PinnedHeap.deregister, if_pos hmem]
  exact {
    faults := hh.faults
    blocks := hh.blocks
    pins := by simp [hh.pins]
    fresh := hh.fresh
    nodup := hh.nodup
    onBlock := fun other hother => hh.onBlock other (Multiset.mem_cons_of_mem hother) }

/-- So does a live block without a registration. -/
theorem Holds.free {block : ℕ} (hh : h.Holds (block ::ₘ live) registered)
    (hpins : ∀ pin ∈ registered, pin.block ≠ block) : (h.free block).Holds live registered := by
  have hmem : block ∈ h.blocks := by simp [hh.blocks]
  have hunpinned : block ∉ h.pins.map Pin.block := by
    rw [hh.pins, Multiset.mem_map]
    rintro ⟨pin, hpin, hblock⟩
    exact hpins pin hpin hblock
  rw [PinnedHeap.free, if_neg (not_not.mpr hmem), if_neg hunpinned]
  exact {
    faults := hh.faults
    blocks := by simp [hh.blocks]
    pins := hh.pins
    fresh := fun other hother => hh.fresh other (Multiset.mem_cons_of_mem hother)
    nodup := (Multiset.nodup_cons.mp hh.nodup).2
    onBlock := fun pin hpin =>
      (Multiset.mem_cons.mp (hh.onBlock pin hpin)).resolve_left (hpins pin hpin) }

/-- The faults before an operation remain. -/
theorem faults_deregister (h : PinnedHeap) (pin : Option Pin) :
    h.faults <+: (h.deregister pin).faults := by
  cases pin with
  | none => exact List.prefix_append _ _
  | some pin =>
    rw [deregister]
    split
    · exact List.prefix_rfl
    · exact List.prefix_append _ _

/-- The faults before an operation remain. -/
theorem faults_free (h : PinnedHeap) (block : ℕ) : h.faults <+: (h.free block).faults := by
  unfold free
  split
  · exact List.prefix_append _ _
  · split
    · exact List.prefix_append _ _
    · exact List.prefix_rfl

end PinnedHeap

end HmrRpc.Common
