import Mathlib.Order.CompletePartialOrder
import Mathlib.Order.Interval.Set.Disjoint
import Mathlib.Data.Int.Interval
import Mathlib.Data.Nat.ModEq
import Mathlib.Tactic.Linarith
import Mathlib.Tactic.Positivity
import Mathlib.Tactic.Ring

/-!
# Ring allocation that restarts at zero

A bump allocator over `[0, cap)`: a block goes to the cursor when it fits before the end,
and to zero otherwise. The allocator keeps no record of the blocks still in use, so
whether a new block is free of older ones depends on where those start. `RingLayout` is
the invariant that carries this through any order of placements and releases.

With blocks of one size the allocator visits equal slots in turn, and any window of
consecutive placements shorter than a lap occupies distinct slots. With blocks of any sizes
a restart leaves less than one block unused, so a window is apart when its total and its
largest block together fit the ring.
-/

namespace HmrRpc.Common

/-- The addresses of a block. -/
def span (start size : ℤ) : Set ℤ := {a | start ≤ a ∧ a < start + size}

/-- Nonempty blocks are disjoint exactly when one ends before the other starts. -/
theorem span_disjoint_iff {a b m n : ℤ} (hm : 0 < m) (hn : 0 < n) :
    Disjoint (span a m) (span b n) ↔ a + m ≤ b ∨ b + n ≤ a := by
  change Disjoint (Set.Ico a (a + m)) (Set.Ico b (b + n)) ↔ _
  rw [Set.Ico_disjoint_Ico]
  omega

/-- Blocks moved by the same offset stay apart. -/
theorem span_disjoint_add {a b m n : ℤ} (offset : ℤ) (h : Disjoint (span a m) (span b n)) :
    Disjoint (span (offset + a) m) (span (offset + b) n) := by
  rw [Set.disjoint_left] at h ⊢
  rintro x ⟨hxlo, hxhi⟩ ⟨hylo, hyhi⟩
  exact @h (x - offset) ⟨by linarith, by linarith⟩ ⟨by linarith, by linarith⟩

/-- Where the next block goes: at the cursor, or at zero when it would pass the end. -/
def ringPlace (cap cursor size : ℤ) : ℤ := if cursor + size > cap then 0 else cursor

/-- A block of at most the capacity is placed inside the ring. -/
theorem ringPlace_mem {cap cursor size : ℤ} (hcursor : 0 ≤ cursor) (hsize : size ≤ cap) :
    0 ≤ ringPlace cap cursor size ∧ ringPlace cap cursor size + size ≤ cap := by
  unfold ringPlace
  split <;> omega

section Layout

variable {ι : Type*} {cap cursor : ℤ} {start size : ι → ℤ} {live : Set ι}

/-- Live blocks lie in the ring, none reaches across the cursor, and they are apart.

`below` is what lets the allocator go on without a record of its blocks: everything that
starts under the cursor also ends there, so only blocks starting ahead can be run over. -/
structure RingLayout (cap cursor : ℤ) (start size : ι → ℤ) (live : Set ι) : Prop where
  inside : ∀ i ∈ live, 0 ≤ start i ∧ 0 < size i ∧ start i + size i ≤ cap
  below : ∀ i ∈ live, start i < cursor → start i + size i ≤ cursor
  apart : ∀ i ∈ live, ∀ j ∈ live, i ≠ j →
    Disjoint (span (start i) (size i)) (span (start j) (size j))

/-- No live block starts inside the block about to be placed. -/
def StartsClear (cap cursor n : ℤ) (start : ι → ℤ) (live : Set ι) : Prop :=
  ∀ i ∈ live, start i ∉ span (ringPlace cap cursor n) n

/-- Releasing blocks keeps the layout. -/
theorem RingLayout.mono (h : RingLayout cap cursor start size live) {live' : Set ι}
    (hsub : live' ⊆ live) : RingLayout cap cursor start size live' where
  inside i hi := h.inside i (hsub hi)
  below i hi := h.below i (hsub hi)
  apart i hi j hj := h.apart i (hsub hi) j (hsub hj)

/-- A block ahead of which no live block starts is apart from all of them. -/
theorem RingLayout.placed_apart (h : RingLayout cap cursor start size live)
    {n : ℤ} (hn : 0 < n) (hclear : StartsClear cap cursor n start live) {i : ι} (hi : i ∈ live) :
    Disjoint (span (start i) (size i)) (span (ringPlace cap cursor n) n) := by
  obtain ⟨hnonneg, hpos, -⟩ := h.inside i hi
  have hbelow := h.below i hi
  have hmiss := hclear i hi
  rw [span_disjoint_iff hpos hn]
  simp only [span, Set.mem_ofPred_eq, not_and, not_lt] at hmiss
  unfold ringPlace at hmiss ⊢
  split at hmiss <;> omega

/-- Placing such a block keeps the layout, with the cursor moved to its end. -/
theorem RingLayout.place (h : RingLayout cap cursor start size live) {i : ι} {n : ℤ}
    (hcursor : 0 ≤ cursor) (hn : 0 < n) (hcap : n ≤ cap)
    (hstart : start i = ringPlace cap cursor n) (hsize : size i = n)
    (hclear : StartsClear cap cursor n start live) :
    RingLayout cap (ringPlace cap cursor n + n) start size (insert i live) where
  inside := by
    rintro j (rfl | hj)
    · rw [hstart, hsize]
      exact ⟨(ringPlace_mem hcursor hcap).1, hn, (ringPlace_mem hcursor hcap).2⟩
    · exact h.inside j hj
  below := by
    rintro j (rfl | hj) hlt
    · rw [hstart, hsize]
    · have hapart := h.placed_apart hn hclear hj
      rw [span_disjoint_iff (h.inside j hj).2.1 hn] at hapart
      omega
  apart := by
    rintro j (rfl | hj) k (rfl | hk) hne
    · exact absurd rfl hne
    · rw [hstart, hsize]
      exact (h.placed_apart hn hclear hk).symm
    · rw [hstart, hsize]
      exact h.placed_apart hn hclear hj
    · exact h.apart j hj k hk hne

end Layout

section Slots

/-- The offset of the `k`-th slot of a ring of `N` slots of the given size. -/
def slotStart (N : ℕ) (size : ℤ) (k : ℕ) : ℤ := ((k % N : ℕ) : ℤ) * size

/-- Slots with different numbers are disjoint. -/
theorem slot_disjoint {N i j : ℕ} {size : ℤ} (hsize : 0 < size) (hne : i % N ≠ j % N) :
    Disjoint (span (slotStart N size i) size) (span (slotStart N size j) size) := by
  rw [span_disjoint_iff hsize hsize]
  unfold slotStart
  rcases Nat.lt_or_gt_of_ne hne with hlt | hlt
  · left
    have hle : ((i % N : ℕ) : ℤ) + 1 ≤ ((j % N : ℕ) : ℤ) := by exact_mod_cast hlt
    linarith [mul_le_mul_of_nonneg_right hle hsize.le]
  · right
    have hle : ((j % N : ℕ) : ℤ) + 1 ≤ ((i % N : ℕ) : ℤ) := by exact_mod_cast hlt
    linarith [mul_le_mul_of_nonneg_right hle hsize.le]

/-- Two placements less than a lap apart use different slots. -/
theorem mod_ne_of_lt_lap {N i j : ℕ} (hlt : i < j) (hlap : j < i + N) : i % N ≠ j % N := by
  intro heq
  have hdvd : N ∣ j - i := (Nat.modEq_iff_dvd' hlt.le).mp heq
  have hle : N ≤ j - i := Nat.le_of_dvd (by omega) hdvd
  omega

/-- Every slot lies inside the ring. -/
theorem slot_inside {cap size : ℤ} {N : ℕ} (hsize : 0 < size) (hN : 0 < N) (hfit : N * size ≤ cap)
    (k : ℕ) : 0 ≤ slotStart N size k ∧ slotStart N size k + size ≤ cap := by
  unfold slotStart
  have hlt : ((k % N : ℕ) : ℤ) + 1 ≤ N := by exact_mod_cast Nat.mod_lt k hN
  have hnonneg : (0 : ℤ) ≤ ((k % N : ℕ) : ℤ) := by positivity
  constructor
  · positivity
  · linarith [mul_le_mul_of_nonneg_right hlt hsize.le]

/-- Equal blocks follow the slots: after the one in slot `k` comes the one in slot `k + 1`. -/
theorem ringPlace_slot_succ {cap size : ℤ} {N : ℕ} (hsize : 0 < size) (hN : 0 < N)
    (hfit : N * size ≤ cap) (hmax : cap < (N + 1) * size) (k : ℕ) :
    ringPlace cap (slotStart N size k + size) size = slotStart N size (k + 1) := by
  have hlt : k % N < N := Nat.mod_lt k hN
  unfold ringPlace slotStart
  by_cases hlast : k % N + 1 = N
  · have hnext : (k + 1) % N = 0 := by
      rw [← Nat.mod_add_mod, hlast, Nat.mod_self]
    have hend : ((k % N : ℕ) : ℤ) = N - 1 := by omega
    rw [hnext, hend, if_pos (by linarith)]
    simp
  · have hnext : (k + 1) % N = k % N + 1 := by
      rw [← Nat.mod_add_mod, Nat.mod_eq_of_lt (by omega)]
    have hle : ((k % N : ℕ) : ℤ) + 2 ≤ N := by omega
    rw [hnext, if_neg (by linarith [mul_le_mul_of_nonneg_right hle hsize.le])]
    push_cast
    ring

/-- The offsets of `m` consecutive slots from the `k`-th on. -/
def slotWindow (N : ℕ) (size : ℤ) (k m : ℕ) : List ℤ :=
  (List.range m).map fun j => slotStart N size (k + j)

/-- A window grows by the slot behind it. -/
theorem slotWindow_succ (N : ℕ) (size : ℤ) (k m : ℕ) :
    slotWindow N size k (m + 1) = slotWindow N size k m ++ [slotStart N size (k + m)] := by
  simp [slotWindow, List.range_succ]

/-- A window shrinks by its first slot. -/
theorem slotWindow_cons (N : ℕ) (size : ℤ) (k m : ℕ) :
    slotWindow N size k (m + 1) = slotStart N size k :: slotWindow N size (k + 1) m := by
  simp [slotWindow, List.range_succ_eq_map, Function.comp_def, Nat.add_comm, Nat.add_left_comm]

/-- A slot is apart from a window that starts behind it and ends within a lap. -/
theorem slotWindow_apart {N i k m : ℕ} {size : ℤ} (hsize : 0 < size) (hlt : i < k)
    (hlap : k + m ≤ i + N) :
    ∀ start ∈ slotWindow N size k m, Disjoint (span (slotStart N size i) size) (span start size) := by
  intro start hstart
  obtain ⟨j, hj, rfl⟩ := List.mem_map.mp hstart
  have hj := List.mem_range.mp hj
  exact slot_disjoint hsize (mod_ne_of_lt_lap (by omega) (by omega))

/-- The slots of a window of at most a lap are pairwise apart. -/
theorem slotWindow_pairwise {N : ℕ} {size : ℤ} (hsize : 0 < size) (k : ℕ) {m : ℕ} (hm : m ≤ N) :
    (slotWindow N size k m).Pairwise fun a b => Disjoint (span a size) (span b size) := by
  induction m generalizing k with
  | zero => exact .nil
  | succ m ih =>
    rw [slotWindow_cons]
    exact .cons (slotWindow_apart hsize (Nat.lt_succ_self k) (by omega)) (ih _ (by omega))

end Slots

section Window

/-- The blocks of successive requests, each with its start and its size. -/
def ringBlocks (cap : ℤ) : ℤ → List ℤ → List (ℤ × ℤ)
  | _, [] => []
  | cursor, size :: rest =>
    (ringPlace cap cursor size, size) :: ringBlocks cap (ringPlace cap cursor size + size) rest

/-- The cursor behind them. -/
def ringCursor (cap : ℤ) : ℤ → List ℤ → ℤ
  | cursor, [] => cursor
  | cursor, size :: rest => ringCursor cap (ringPlace cap cursor size + size) rest

variable {cap cursor m : ℤ} {sizes sizes' : List ℤ}

/-- Requests of at most the capacity get blocks inside the ring, and the cursor stays there. -/
theorem ringBlocks_inside (hcursor : 0 ≤ cursor) (hcap : cursor ≤ cap)
    (hsizes : ∀ n ∈ sizes, 0 ≤ n ∧ n ≤ cap) :
    (∀ block ∈ ringBlocks cap cursor sizes, 0 ≤ block.1 ∧ block.1 + block.2 ≤ cap) ∧
      0 ≤ ringCursor cap cursor sizes ∧ ringCursor cap cursor sizes ≤ cap := by
  induction sizes generalizing cursor with
  | nil => exact ⟨fun block hblock => absurd hblock List.not_mem_nil, hcursor, hcap⟩
  | cons size rest ih =>
    obtain ⟨⟨hnonneg, hsize⟩, hrest⟩ := List.forall_mem_cons.mp hsizes
    obtain ⟨hlo, hhi⟩ := ringPlace_mem hcursor hsize
    obtain ⟨hblocks, hend⟩ := ih (add_nonneg hlo hnonneg) hhi hrest
    exact ⟨List.forall_mem_cons.mpr ⟨⟨hlo, hhi⟩, hblocks⟩, hend⟩

/-- The blocks of the first requests are the first blocks. -/
theorem ringBlocks_take (cap cursor : ℤ) (sizes : List ℤ) (n : ℕ) :
    (ringBlocks cap cursor sizes).take n = ringBlocks cap cursor (sizes.take n) := by
  induction sizes generalizing cursor n with
  | nil => simp [ringBlocks]
  | cons size rest ih =>
    cases n with
    | zero => rfl
    | succ n => simp only [ringBlocks, List.take_succ_cons, ih]

/-- And those behind them start from the cursor they leave. -/
theorem ringBlocks_drop (cap cursor : ℤ) (sizes : List ℤ) (i : ℕ) :
    (ringBlocks cap cursor sizes).drop i =
      ringBlocks cap (ringCursor cap cursor (sizes.take i)) (sizes.drop i) := by
  induction sizes generalizing cursor i with
  | nil => simp [ringBlocks]
  | cons size rest ih =>
    cases i with
    | zero => rfl
    | succ i => simp only [ringBlocks, ringCursor, List.take_succ_cons, List.drop_succ_cons, ih]

/-- The sizes are those requested. -/
theorem ringBlocks_sizes (cap cursor : ℤ) (sizes : List ℤ) :
    (ringBlocks cap cursor sizes).map Prod.snd = sizes := by
  induction sizes generalizing cursor with
  | nil => rfl
  | cons size rest ih => simp only [ringBlocks, List.map_cons, ih]

/-- Requests that fit before the end are placed behind the cursor, within their total. -/
theorem ringBlocks_of_fits (hsizes : ∀ n ∈ sizes, 0 < n) (hfits : cursor + sizes.sum ≤ cap) :
    ∀ block ∈ ringBlocks cap cursor sizes,
      cursor ≤ block.1 ∧ block.1 + block.2 ≤ cursor + sizes.sum := by
  induction sizes generalizing cursor with
  | nil => exact fun block hblock => absurd hblock List.not_mem_nil
  | cons size rest ih =>
    obtain ⟨hpos, hrest⟩ := List.forall_mem_cons.mp hsizes
    have hsum : 0 ≤ rest.sum := List.sum_nonneg fun n hn => (hrest n hn).le
    rw [List.sum_cons] at hfits ⊢
    have hplace : ringPlace cap cursor size = cursor := if_neg (by omega)
    simp only [ringBlocks, hplace, List.forall_mem_cons]
    refine ⟨by omega, fun block hblock => ?_⟩
    have hblock := ih hrest (by omega) block hblock
    omega

/-- Requests of at most `m` that go once around are placed behind the cursor or, as a restart leaves
less than `m` unused, so far from the end of the ring. -/
theorem ringBlocks_ahead_or_behind (hcap : cursor ≤ cap) (hsizes : ∀ n ∈ sizes, 0 < n ∧ n ≤ m)
    (hsum : sizes.sum ≤ cap) :
    ∀ block ∈ ringBlocks cap cursor sizes,
      cursor ≤ block.1 ∨ block.1 + block.2 ≤ cursor + sizes.sum + m - 1 - cap := by
  induction sizes generalizing cursor with
  | nil => exact fun block hblock => absurd hblock List.not_mem_nil
  | cons size rest ih =>
    obtain ⟨⟨hpos, hm⟩, hrest⟩ := List.forall_mem_cons.mp hsizes
    have hnonneg : 0 ≤ rest.sum := List.sum_nonneg fun n hn => (hrest n hn).1.le
    rw [List.sum_cons] at hsum ⊢
    by_cases hwrap : cursor + size > cap
    · have hplace : ringPlace cap cursor size = 0 := if_pos hwrap
      simp only [ringBlocks, hplace, List.forall_mem_cons]
      refine ⟨by omega, fun block hblock => ?_⟩
      have hblock := ringBlocks_of_fits (fun n hn => (hrest n hn).1) (by omega) block hblock
      omega
    · have hplace : ringPlace cap cursor size = cursor := if_neg hwrap
      simp only [ringBlocks, hplace, List.forall_mem_cons]
      refine ⟨by omega, fun block hblock => ?_⟩
      have hblock := ih (by omega) hrest (by omega) block hblock
      omega

/-- Requests whose total leaves the ring room for what a restart wastes get blocks apart. -/
theorem ringBlocks_pairwise (hcap : cursor ≤ cap) (hsizes : ∀ n ∈ sizes, 0 < n ∧ n ≤ m)
    (hsum : sizes.sum + m ≤ cap + 1) :
    (ringBlocks cap cursor sizes).Pairwise fun a b => Disjoint (span a.1 a.2) (span b.1 b.2) := by
  induction sizes generalizing cursor with
  | nil => exact .nil
  | cons size rest ih =>
    obtain ⟨⟨hpos, hm⟩, hrest⟩ := List.forall_mem_cons.mp hsizes
    have hnonneg : 0 ≤ rest.sum := List.sum_nonneg fun n hn => (hrest n hn).1.le
    rw [List.sum_cons] at hsum
    refine .cons (fun block hblock => ?_) (ih ?_ hrest (by omega))
    · have hmem : block.2 ∈ rest := by
        rw [← ringBlocks_sizes cap (ringPlace cap cursor size + size) rest]
        exact List.mem_map_of_mem hblock
      rw [span_disjoint_iff hpos (hrest _ hmem).1]
      by_cases hwrap : cursor + size > cap
      · have hplace : ringPlace cap cursor size = 0 := if_pos hwrap
        rw [hplace] at hblock ⊢
        have hblock := ringBlocks_of_fits (fun n hn => (hrest n hn).1) (by omega) block hblock
        omega
      · have hplace : ringPlace cap cursor size = cursor := if_neg hwrap
        rw [hplace] at hblock ⊢
        have hblock := ringBlocks_ahead_or_behind (by omega) hrest (by omega) block hblock
        omega
    · unfold ringPlace
      split <;> omega

end Window

end HmrRpc.Common
