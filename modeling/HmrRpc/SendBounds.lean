import HmrRpc.TransportRun

/-!
# Which messages fit

`hmr_rdma_send` tests no size: the length goes from `int` to `size_t` and back, and the
allocator hands out a range even when the request exceeds the region. A call that
returns zero stays in its bounds exactly for the sizes below, which the code leaves to
its callers.
-/

namespace HmrRpc

open Common

/-- A message whose frame has a nonnegative size and fits the send region. -/
def HmrMsg.FitsRegion (msg : HmrMsg) : Prop :=
  0 ≤ msg.dataSize.toInt ∧ 8 + msg.dataSize.toInt ≤ allocMemSize

/-- A message that fits the region and, unless it is one-sided, a receive buffer. -/
def HmrMsg.InBounds (msg : HmrMsg) : Prop :=
  msg.FitsRegion ∧
    (msg.msgType ≠ .read → msg.msgType ≠ .write → 8 + msg.dataSize.toInt ≤ maxRecvSize)

section Range

variable {pool : HmrMempool} {msg : HmrMsg}

/-- The range of an accepted message's task. -/
theorem acceptedTask_range (hcursor : 0 ≤ pool.usedSendRegion ∧ pool.usedSendRegion ≤ allocMemSize)
    (hfits : msg.FitsRegion) (id : ℕ) :
    (acceptedTask pool msg id).sgeList.addr =
        ringPlace allocMemSize pool.usedSendRegion (8 + msg.dataSize.toInt) ∧
      (acceptedTask pool msg id).sgeList.length = 8 + msg.dataSize.toInt ∧
      (pool.afterSendTask msg).usedSendRegion =
        ringPlace allocMemSize pool.usedSendRegion (8 + msg.dataSize.toInt) +
          (8 + msg.dataSize.toInt) := by
  obtain ⟨hpos, hfit⟩ := hfits
  have hlength : sendTaskLength msg = 8 + msg.dataSize.toInt :=
    sendTaskLength_eq hpos (by unfold allocMemSize at hfit; omega)
  have halloc := allocFrom_eq hcursor.1 hcursor.2 (by omega : 0 ≤ 8 + msg.dataSize.toInt) hfit
  refine ⟨?_, hlength, ?_⟩
  · simp only [acceptedTask, sendTask, hmrMempoolAllocAddr, hmrMempoolAllocSaddr, sendRegion,
      if_true, hlength, halloc, zero_add]
  · rw [afterSendTask_usedSendRegion, hlength, halloc]

/-- The address of a task is never before the cursor's range. -/
theorem acceptedTask_addr_nonneg (msg : HmrMsg) (hcursor : 0 ≤ pool.usedSendRegion) (id : ℕ) :
    0 ≤ (acceptedTask pool msg id).sgeList.addr := by
  simp only [acceptedTask, sendTask, hmrMempoolAllocAddr, hmrMempoolAllocSaddr, allocFrom,
    sendRegion, if_true, zero_add]
  split <;> omega

/-- Every byte the copies of a task write lies within its encoded length. -/
theorem sendTaskCopies_within (addr : ℤ) {c : MemCopy} (hc : c ∈ sendTaskCopies addr msg) {i : ℕ}
    (hi : i < c.n) : addr ≤ c.dst + i ∧ c.dst + i < addr + msg.encodedLength := by
  simp only [sendTaskCopies, List.mem_cons, List.not_mem_nil, or_false] at hc
  simp only [HmrMsg.encodedLength, sizeofMsgType, sizeofInt] at hc ⊢
  rcases hc with rfl | rfl | rfl <;> dsimp only at hi ⊢ <;> omega

end Range

/-- What a send that returns zero should respect: the size, the bytes written, the cursor
afterwards, and the peer's receive buffers. -/
structure SendInBounds (t : HmrRdmaTransport) (pool : HmrMempool) (msg : HmrMsg)
    (t' : HmrRdmaTransport) : Prop where
  size : 0 ≤ msg.dataSize.toInt
  writes : ∀ c ∈ sendTaskCopies (acceptedTask pool msg t.nextTask).sgeList.addr msg, ∀ i < c.n,
    sendRegion ≤ c.dst + i ∧ c.dst + i < sendRegion + allocMemSize
  cursor : ∀ pool', t'.normalMempool = some pool' →
    0 ≤ pool'.usedSendRegion ∧ pool'.usedSendRegion ≤ allocMemSize
  frame : hmrGetOpcodeFromTask (acceptedTask pool msg t.nextTask) = .send →
    8 + msg.dataSize.toInt ≤ maxRecvSize

/-- A message is posted as a SEND unless it is a READ or a WRITE. -/
theorem acceptedTask_opcode_send (pool : HmrMempool) (msg : HmrMsg) (id : ℕ) :
    hmrGetOpcodeFromTask (acceptedTask pool msg id) = .send ↔
      msg.msgType ≠ .read ∧ msg.msgType ≠ .write := by
  obtain ⟨msgType, dataSize, data⟩ := msg
  cases msgType <;>
    simp [hmrGetOpcodeFromTask, acceptedTask, HmrTaskType.ofMsgType, HmrMsgType.toNat,
      HmrTaskType.ofNat]

section Bounds

variable {t : HmrRdmaTransport} {pool : HmrMempool} {msg : HmrMsg}

/-- A call that returned zero left the pool with the message's task in it. -/
theorem SendResult.leavesTask {o : Outcomes} {t' : HmrRdmaTransport} (h : SendResult o t msg 0 t')
    (hpool : t.normalMempool = some pool) : t'.normalMempool = some (pool.afterSendTask msg) := by
  generalize hr : (0 : ℤ) = r at h
  cases h with
  | refused => contradiction
  | submitted _ _ hsubmit =>
    cases hsubmit with
    | queued pool' hpool' | posted pool' hpool' | dropped pool' hpool' =>
      obtain rfl := Option.some.inj (hpool.symm.trans hpool')
      rfl

/-- Messages in bounds are sent in bounds. -/
theorem HmrMsg.InBounds.send {o : Outcomes} {t' : HmrRdmaTransport} (hmsg : msg.InBounds)
    (hpool : t.normalMempool = some pool)
    (hcursor : 0 ≤ pool.usedSendRegion ∧ pool.usedSendRegion ≤ allocMemSize)
    (hsend : SendResult o t msg 0 t') : SendInBounds t pool msg t' := by
  obtain ⟨hfits, hbuffer⟩ := hmsg
  obtain ⟨haddr, hlength, hcursor'⟩ := acceptedTask_range hcursor hfits t.nextTask
  have hplace := ringPlace_mem hcursor.1 hfits.2
  have hsize := hfits.1
  have hencoded : (msg.encodedLength : ℤ) = 8 + msg.dataSize.toInt :=
    encodedLength_eq hsize (by have := hfits.2; unfold allocMemSize at this; omega)
  refine ⟨hsize, fun c hc i hi => ?_, fun pool' hpool' => ?_, fun hopcode => ?_⟩
  · have hwithin := sendTaskCopies_within _ hc hi
    rw [haddr] at hwithin
    simp only [sendRegion]
    omega
  · obtain rfl := Option.some.inj ((hsend.leavesTask hpool).symm.trans hpool')
    rw [hcursor']
    omega
  · have htype := (acceptedTask_opcode_send pool msg _).mp hopcode
    exact hbuffer htype.1 htype.2

/-- A message sent in bounds was one. -/
theorem SendInBounds.inBounds {t' : HmrRdmaTransport} (h : SendInBounds t pool msg t')
    (hcursor : 0 ≤ pool.usedSendRegion) : msg.InBounds := by
  refine ⟨⟨h.size, ?_⟩, fun hread hwrite =>
    h.frame ((acceptedTask_opcode_send pool msg _).mpr ⟨hread, hwrite⟩)⟩
  by_cases hempty : msg.dataSize.toInt = 0
  · rw [hempty]
    decide
  · -- the last byte of the data is written inside the region
    have hsize := h.size
    have hdata : (sizeT msg.dataSize.toInt : ℤ) = msg.dataSize.toInt :=
      sizeT_of_range hsize (by have := msg.dataSize.toInt_lt; omega)
    have haddr := acceptedTask_addr_nonneg msg hcursor t.nextTask
    have hlast := (h.writes _ (.tail _ (.tail _ (.head _))) (sizeT msg.dataSize.toInt - 1)
      (by dsimp only; omega)).2
    simp only [sizeofMsgType, sizeofInt, sendRegion] at hlast
    omega

end Bounds

/-- A ready message is sent in bounds, whatever the library calls return, exactly when it is in
bounds itself. -/
theorem sendInBounds_iff {t : HmrRdmaTransport} {pool : HmrMempool} {msg : HmrMsg}
    (hpool : t.normalMempool = some pool)
    (hcursor : 0 ≤ pool.usedSendRegion ∧ pool.usedSendRegion ≤ allocMemSize)
    (hcheck : hmrMsgCheck t msg = .ok 0) :
    (∀ o t', hmrRdmaSend o t msg = .ok (0, t') → SendInBounds t pool msg t') ↔ msg.InBounds := by
  constructor
  · intro h
    obtain ⟨t', hsend⟩ := hmrRdmaSend_of_ready (o := .ok) (hmrMsgCheck_eq_zero.mp hcheck) hpool rfl
    exact (h .ok t' hsend).inBounds hcursor.1
  · intro hmsg o t' hsend
    exact hmsg.send hpool hcursor (hmrRdmaSend_cases hsend)

/-- A frame that just fills a receive buffer. -/
theorem sendInBounds_iff_sample :
    (∀ o t', hmrRdmaSend o sampleTransport (sampleMsg .normal 120) = .ok (0, t') →
      SendInBounds sampleTransport samplePool (sampleMsg .normal 120) t') ↔
        (sampleMsg .normal 120).InBounds :=
  sendInBounds_iff rfl (by decide) (hmrMsgCheck_eq_zero.mpr (by decide))

/-- A message of 1017 bytes is accepted and its last byte written behind the send region. -/
theorem hmrRdmaSend_outOfBounds :
    ¬∀ (t : HmrRdmaTransport) (pool : HmrMempool) (msg : HmrMsg) (o : Outcomes)
      (t' : HmrRdmaTransport), t.normalMempool = some pool →
      0 ≤ pool.usedSendRegion ∧ pool.usedSendRegion ≤ allocMemSize → hmrMsgCheck t msg = .ok 0 →
      hmrRdmaSend o t msg = .ok (0, t') → SendInBounds t pool msg t' := by
  intro h
  have hcheck : hmrMsgCheck sampleTransport (sampleMsg .normal 1017) = .ok 0 :=
    hmrMsgCheck_eq_zero.mpr (by decide)
  have hbounds := h sampleTransport samplePool (sampleMsg .normal 1017) .ok
    (sampleTransport.queued samplePool (sampleMsg .normal 1017)) rfl (by decide) hcheck rfl
  have hlast := hbounds.writes _ (.tail _ (.tail _ (.head _))) 1016 (by decide)
  revert hlast
  decide

end HmrRpc
