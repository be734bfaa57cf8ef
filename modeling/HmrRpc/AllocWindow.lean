import HmrRpc.TransportRun

/-!
# How much of a region may be in use

The allocators keep no record of the buffers still in use, so a buffer must be done with
before the ring comes around to it. Consecutive calls return buffers apart as long as their
total length leaves room for the tail that the largest of them may waste at a restart.
-/

namespace HmrRpc

open Common

/-- The offset of the region of a side in the block. -/
def sideRegion (isSend : Bool) : ℤ := if isSend then sendRegion else recvRegion

/-- The cursor of a side. -/
def HmrMempool.usedRegion (pool : HmrMempool) (isSend : Bool) : ℤ :=
  if isSend then pool.usedSendRegion else pool.usedRecvRegion

/-- The pool with the cursor of a side set. -/
def HmrMempool.setUsedRegion (pool : HmrMempool) (isSend : Bool) (used : ℤ) : HmrMempool :=
  if isSend then { pool with usedSendRegion := used } else { pool with usedRecvRegion := used }

/-- Successive calls of `hmr_mempool_alloc_addr` for one side: the address and the length of each
range, and the pool behind them. -/
def allocAddrs (isSend : Bool) : HmrMempool → List ℤ → List (ℤ × ℤ) × HmrMempool
  | pool, [] => ([], pool)
  | pool, length :: rest =>
    let call := hmrMempoolAllocAddr pool length isSend
    let later := allocAddrs isSend call.2 rest
    ((call.1, length) :: later.1, later.2)

/-- The ranges lie in the region of their side, behind each call its cursor does too and the other
cursor has not moved, and consecutive ranges are apart when their total and the largest of them fit
together. -/
structure SafeWindow (isSend : Bool) (pool : HmrMempool) (lengths : List ℤ) : Prop where
  inside : ∀ range ∈ (allocAddrs isSend pool lengths).1, sideRegion isSend ≤ range.1 ∧
    range.1 + range.2 ≤ sideRegion isSend + allocMemSize
  cursor : ∀ k, 0 ≤ (allocAddrs isSend pool (lengths.take k)).2.usedRegion isSend ∧
    (allocAddrs isSend pool (lengths.take k)).2.usedRegion isSend ≤ allocMemSize
  other : ∀ k, (allocAddrs isSend pool (lengths.take k)).2.usedRegion (!isSend) =
    pool.usedRegion (!isSend)
  apart : ∀ i n largest, (∀ length ∈ (lengths.drop i).take n, length ≤ largest) →
    ((lengths.drop i).take n).sum + largest ≤ allocMemSize + 1 →
    (((allocAddrs isSend pool lengths).1.drop i).take n).Pairwise fun a b =>
      Disjoint (span a.1 a.2) (span b.1 b.2)

section Calls

variable {isSend : Bool} {pool : HmrMempool} {used : ℤ}

@[simp] theorem usedRegion_setUsedRegion :
    (pool.setUsedRegion isSend used).usedRegion isSend = used := by
  cases isSend <;> rfl

@[simp] theorem usedRegion_setUsedRegion_other :
    (pool.setUsedRegion isSend used).usedRegion (!isSend) = pool.usedRegion (!isSend) := by
  cases isSend <;> rfl

@[simp] theorem setUsedRegion_setUsedRegion (used' : ℤ) :
    (pool.setUsedRegion isSend used).setUsedRegion isSend used' =
      pool.setUsedRegion isSend used' := by
  cases isSend <;> rfl

@[simp] theorem setUsedRegion_usedRegion :
    pool.setUsedRegion isSend (pool.usedRegion isSend) = pool := by
  cases isSend <;> rfl

/-- A call for a side is a step of the ring in its region. -/
theorem hmrMempoolAllocAddr_eq {length : ℤ} (hused : 0 ≤ pool.usedRegion isSend)
    (hregion : pool.usedRegion isSend ≤ allocMemSize) (hpos : 0 ≤ length)
    (hlength : length ≤ allocMemSize) :
    hmrMempoolAllocAddr pool length isSend =
      (sideRegion isSend + ringPlace allocMemSize (pool.usedRegion isSend) length,
        pool.setUsedRegion isSend
          (ringPlace allocMemSize (pool.usedRegion isSend) length + length)) := by
  have hstep := allocFrom_eq hused hregion hpos hlength
  cases isSend with
  | false =>
    change allocFrom pool.usedRecvRegion length = _ at hstep
    simp only [hmrMempoolAllocAddr, Bool.false_eq_true, if_false, hmrMempoolAllocRaddr, hstep]
    rfl
  | true =>
    change allocFrom pool.usedSendRegion length = _ at hstep
    simp only [hmrMempoolAllocAddr, if_true, hmrMempoolAllocSaddr, hstep]
    rfl

/-- Successive calls are the blocks of the ring, moved to the region. -/
theorem allocAddrs_eq {lengths : List ℤ} (hused : 0 ≤ pool.usedRegion isSend)
    (hregion : pool.usedRegion isSend ≤ allocMemSize)
    (hlengths : ∀ length ∈ lengths, 0 ≤ length ∧ length ≤ allocMemSize) :
    allocAddrs isSend pool lengths =
      ((ringBlocks allocMemSize (pool.usedRegion isSend) lengths).map fun block =>
          (sideRegion isSend + block.1, block.2),
        pool.setUsedRegion isSend (ringCursor allocMemSize (pool.usedRegion isSend) lengths)) := by
  induction lengths generalizing pool with
  | nil => simp [allocAddrs, ringBlocks, ringCursor]
  | cons length rest ih =>
    obtain ⟨⟨hpos, hlength⟩, hrest⟩ := List.forall_mem_cons.mp hlengths
    have hcall := hmrMempoolAllocAddr_eq hused hregion hpos hlength
    obtain ⟨hlo, hhi⟩ := ringPlace_mem hused hlength
    let place := ringPlace allocMemSize (pool.usedRegion isSend) length
    have hnext : (pool.setUsedRegion isSend (place + length)).usedRegion isSend = place + length :=
      usedRegion_setUsedRegion
    have hlater := ih (by rw [hnext]; omega) (by rw [hnext]; exact hhi) hrest
    rw [allocAddrs, hcall, hlater]
    simp only [usedRegion_setUsedRegion, setUsedRegion_setUsedRegion, ringBlocks, ringCursor,
      List.map_cons, place]

end Calls

/-- Any sequence of calls for one side is safe, wherever in the region it starts. -/
theorem allocWindow_safe {isSend : Bool} {pool : HmrMempool} {lengths : List ℤ}
    (hused : 0 ≤ pool.usedRegion isSend) (hregion : pool.usedRegion isSend ≤ allocMemSize)
    (hlengths : ∀ length ∈ lengths, 1 ≤ length ∧ length ≤ allocMemSize) :
    SafeWindow isSend pool lengths := by
  have hnonneg : ∀ length ∈ lengths, 0 ≤ length ∧ length ≤ allocMemSize := fun length hmem =>
    ⟨by linarith [(hlengths length hmem).1], (hlengths length hmem).2⟩
  have hcalls := allocAddrs_eq hused hregion hnonneg
  have hfirst (k : ℕ) : ∀ length ∈ lengths.take k, 0 ≤ length ∧ length ≤ allocMemSize :=
    fun length hmem => hnonneg length (List.mem_of_mem_take hmem)
  have hcursor (k : ℕ) := (ringBlocks_inside hused hregion (hfirst k)).2
  refine ⟨?_, fun k => ?_, fun k => ?_, fun i n largest hlargest hroom => ?_⟩
  · rw [hcalls]
    intro range hrange
    obtain ⟨block, hblock, rfl⟩ := List.mem_map.mp hrange
    obtain ⟨hlo, hhi⟩ := (ringBlocks_inside hused hregion hnonneg).1 block hblock
    exact ⟨by linarith, by linarith⟩
  · rw [allocAddrs_eq hused hregion (hfirst k), usedRegion_setUsedRegion]
    exact hcursor k
  · rw [allocAddrs_eq hused hregion (hfirst k), usedRegion_setUsedRegion_other]
  · -- the window is the blocks of its own requests, from the cursor it finds
    have hsub : ∀ length ∈ (lengths.drop i).take n, length ∈ lengths := fun length hmem =>
      List.mem_of_mem_drop (List.mem_of_mem_take hmem)
    have hwindow := ringBlocks_pairwise (hcursor i).2 (fun length hmem =>
      ⟨by linarith [(hlengths length (hsub length hmem)).1], hlargest length hmem⟩) hroom
    rw [← ringBlocks_take, ← ringBlocks_drop] at hwindow
    rw [hcalls, ← List.map_drop, ← List.map_take, List.pairwise_map]
    exact hwindow.imp (span_disjoint_add _)

/-- Three receive buffers of which the last restarts the region. -/
theorem allocWindow_sample :
    SafeWindow false { samplePool with usedRecvRegion := 700 } [200, 100, 300] :=
  allocWindow_safe (by decide) (by decide) (by decide)

end HmrRpc
