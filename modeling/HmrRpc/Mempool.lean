import HmrRpc.Common.Ring
import HmrRpc.Types

/-!
# The memory pool (`hmr_mem.c`)

A pool is one block of three regions and a cursor per ring. Addresses are offsets into
the block, so the send region starts at zero and the others follow it. Within the `int`
range the two allocators are the ring of `HmrRpc.Common.Ring`; outside it the sums wrap
as the C arithmetic does.
-/

namespace HmrRpc

open Common

/-- `struct hmr_mempool`; `released` records that `hmr_mempool_release` has run. -/
structure HmrMempool where
  memory : Memory
  sendMr : IbvMr
  recvMr : IbvMr
  rdmaMr : IbvMr
  usedSendRegion : ℤ
  usedRecvRegion : ℤ
  released : Bool

/-- The offset of `send_region` in the block. -/
def sendRegion : ℤ := 0

/-- The offset of `recv_region` in the block. -/
def recvRegion : ℤ := sendRegion + allocMemSize

/-- The offset of `rdma_region` in the block. -/
def rdmaRegion : ℤ := recvRegion + allocMemSize

/-- The results of the library calls of `hmr_mempool_create`. -/
structure MempoolOutcomes where
  callocOk : Bool
  malloc : Option Memory
  sendMr : Option IbvMr
  recvMr : Option IbvMr
  rdmaMr : Option IbvMr

/-- `hmr_mempool_create`: the pool when every call succeeds, `NULL` otherwise. -/
def hmrMempoolCreate (o : MempoolOutcomes) : Option HmrMempool :=
  if o.callocOk then do
    let memory ← o.malloc
    let sendMr ← o.sendMr
    let recvMr ← o.recvMr
    let rdmaMr ← o.rdmaMr
    some ⟨memory, sendMr, recvMr, rdmaMr, 0, 0, false⟩
  else none

/-- `hmr_mempool_release`: the regions go, the struct and the caller's pointer to it stay. -/
def hmrMempoolRelease (pool : Option HmrMempool) : Option HmrMempool :=
  pool.map fun p => { p with released := true }

/-- The ring step both allocators make: the offset handed out and the new cursor. -/
def allocFrom (used length : ℤ) : ℤ × ℤ :=
  -- a request that does not fit restarts the ring, whatever is still in use there
  let used := if cInt (used + length) > allocMemSize then 0 else used
  (used, cInt (used + length))

/-- `hmr_mempool_alloc_saddr`. -/
def hmrMempoolAllocSaddr (pool : HmrMempool) (length : ℤ) : ℤ × HmrMempool :=
  let next := allocFrom pool.usedSendRegion length
  (sendRegion + next.1, { pool with usedSendRegion := next.2 })

/-- `hmr_mempool_alloc_raddr`. -/
def hmrMempoolAllocRaddr (pool : HmrMempool) (length : ℤ) : ℤ × HmrMempool :=
  let next := allocFrom pool.usedRecvRegion length
  (recvRegion + next.1, { pool with usedRecvRegion := next.2 })

/-- `hmr_mempool_alloc_addr`. -/
def hmrMempoolAllocAddr (pool : HmrMempool) (length : ℤ) (isSend : Bool) : ℤ × HmrMempool :=
  if isSend then hmrMempoolAllocSaddr pool length else hmrMempoolAllocRaddr pool length

/-- A created pool has fresh cursors and is not released. -/
theorem hmrMempoolCreate_eq_some {o : MempoolOutcomes} {pool : HmrMempool}
    (h : hmrMempoolCreate o = some pool) :
    pool.usedSendRegion = 0 ∧ pool.usedRecvRegion = 0 ∧ pool.released = false := by
  unfold hmrMempoolCreate at h
  split at h
  · simp only [Option.bind_eq_bind, Option.bind_eq_some_iff, Option.some.injEq] at h
    obtain ⟨_, _, _, _, _, _, _, _, rfl⟩ := h
    exact ⟨rfl, rfl, rfl⟩
  · contradiction

/-- With the cursor in the region and a length up to the region, no sum overflows and the
allocators step as the ring does. -/
theorem allocFrom_eq {used length : ℤ} (hused : 0 ≤ used) (hregion : used ≤ allocMemSize)
    (hpos : 0 ≤ length) (hlength : length ≤ allocMemSize) :
    allocFrom used length =
      (ringPlace allocMemSize used length, ringPlace allocMemSize used length + length) := by
  have hsum : cInt (used + length) = used + length := by
    unfold allocMemSize at hregion hlength
    exact cInt_of_range (by omega) (by omega)
  have hplace := ringPlace_mem hused hlength
  have hnext : cInt (ringPlace allocMemSize used length + length) =
      ringPlace allocMemSize used length + length := by
    unfold allocMemSize at hplace ⊢
    exact cInt_of_range (by omega) (by omega)
  simp only [allocFrom, hsum]
  simp only [ringPlace] at hnext ⊢
  rw [hnext]

end HmrRpc
