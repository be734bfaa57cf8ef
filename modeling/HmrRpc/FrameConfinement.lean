import HmrRpc.Framing

/-!
# What the handler reads of a received frame

The HCA reports in `byte_len` how much of the slot it has filled. The success handler does
not look at it: it always reads the header, copies an MR of fixed size for every frame of
type MR, and hands other messages over with the size the frame declares. Its reads stay
inside the frame exactly for frames that declare what they contain.
-/

namespace HmrRpc

open Common

/-- The parts of the slot that the handler interprets, by offset and length: the type, the size,
and for an MR its copy into `peer_info.normal_mr`. -/
def slotReads (bytes : ℕ → UInt8) : List (ℕ × ℕ) :=
  (0, sizeofMsgType) :: (sizeofMsgType, sizeofInt) ::
    if receivedType bytes = .mr then [(sizeofMsgType + sizeofInt, sizeofIbvMr)] else []

/-- Of the slot the handler interprets only the first `n` bytes, and a message it hands over has its
data there. -/
structure ConfinedTo (n : ℕ) (t : HmrRdmaTransport) (bytes : ℕ → UInt8) : Prop where
  reads : ∀ part ∈ slotReads bytes, part.1 + part.2 ≤ n
  handed : ∀ msg, (t.respond (decodeSlot bytes).1 (decodeSlot bytes).2).responses =
    t.responses ++ [msg] → 0 ≤ msg.dataSize.toInt ∧ msg.dataSize.toInt ≤ (n : ℤ) - 8

/-- The frame has a header, is long enough for an MR if it is one, and else, if the application
takes messages, declares a size that it contains. -/
structure Frame.WellFormed (frame : Frame) (processResp : Bool) : Prop where
  header : sizeofMsgType + sizeofInt ≤ frame.length
  mr : receivedType frame.byte = .mr → sizeofMsgType + sizeofInt + sizeofIbvMr ≤ frame.length
  size : processResp → receivedType frame.byte ≠ .mr →
    0 ≤ (HmrMsg.decode frame.byte).dataSize.toInt ∧
      (HmrMsg.decode frame.byte).dataSize.toInt ≤ (frame.length : ℤ) - 8

section Reads

variable {bytes bytes' : ℕ → UInt8}

/-- The size is read from its own four bytes. -/
theorem decode_dataSize_congr
    (h : ∀ i < sizeofInt, bytes' (sizeofMsgType + i) = bytes (sizeofMsgType + i)) :
    (HmrMsg.decode bytes').dataSize = (HmrMsg.decode bytes).dataSize :=
  congrArg (fun n => (UInt32.ofNat n).toInt32) (ofLeBytes_congr h)

/-- And the type and the size from the header. -/
theorem decode_header_congr (h : ∀ i < sizeofMsgType + sizeofInt, bytes' i = bytes i) :
    receivedType bytes' = receivedType bytes ∧
      (HmrMsg.decode bytes').dataSize = (HmrMsg.decode bytes).dataSize :=
  ⟨congrArg HmrTaskType.ofNat (ofLeBytes_congr fun i hi => h i (by omega)),
    decode_dataSize_congr fun i hi => h _ (by omega)⟩

/-- An MR is read from its own bytes. -/
theorem ibvMr_decode_congr (h : ∀ i < sizeofIbvMr, bytes' i = bytes i) :
    IbvMr.decode bytes' = IbvMr.decode bytes := by
  have word (offset k : ℕ) (hk : offset + k ≤ sizeofIbvMr) :
      ofLeBytes (fun i => bytes' (offset + i)) k = ofLeBytes (fun i => bytes (offset + i)) k :=
    ofLeBytes_congr fun i hi => h _ (by omega)
  have hcontext := word 0 8 (by decide)
  simp only [zero_add] at hcontext
  simp only [IbvMr.decode, hcontext, word 8 8 (by decide), word 16 8 (by decide),
    word 24 8 (by decide), word 32 4 (by decide), word 36 4 (by decide), word 40 4 (by decide)]

/-- The MR part of the handler reads nothing of the message but the MR. -/
theorem handleMr_congr {o : Outcomes} {t : HmrRdmaTransport} {task : HmrTask} {opcode : IbvWcOpcode}
    {msg msg' : HmrMsg} (h : IbvMr.decode msg'.data = IbvMr.decode msg.data) :
    handleMr o t task opcode msg' = handleMr o t task opcode msg := by
  have hlearn : t.learnMr msg' = t.learnMr msg := by
    rw [HmrRdmaTransport.learnMr, HmrRdmaTransport.learnMr, h]
  rw [handleMr, handleMr, hlearn]

/-- Behind the call of `process_resp` the handler does the same for every slot with these parts. -/
theorem slotReads_sufficient (o : Outcomes) (t : HmrRdmaTransport) (task : HmrTask)
    (h : ∀ part ∈ slotReads bytes, ∀ i < part.2, bytes' (part.1 + i) = bytes (part.1 + i)) :
    receivedType bytes' = receivedType bytes ∧
      (closeConnection o t { task with taskType := receivedType bytes' } .recv).bind
          (fun u => handleMr o u { task with taskType := receivedType bytes' } .recv (.decode bytes')) =
        (closeConnection o t { task with taskType := receivedType bytes } .recv).bind
          fun u => handleMr o u { task with taskType := receivedType bytes } .recv (.decode bytes) := by
  have htype : receivedType bytes' = receivedType bytes := by
    refine congrArg HmrTaskType.ofNat (ofLeBytes_congr fun i hi => ?_)
    simpa using h (0, sizeofMsgType) (.head _) i hi
  refine ⟨htype, ?_⟩
  rw [htype]
  by_cases hmr : receivedType bytes = .mr
  · have hmem : (sizeofMsgType + sizeofInt, sizeofIbvMr) ∈ slotReads bytes := by
      simp [slotReads, hmr]
    have hcopy : IbvMr.decode (HmrMsg.decode bytes').data = IbvMr.decode (HmrMsg.decode bytes).data :=
      ibvMr_decode_congr fun i hi => h _ hmem i hi
    exact congrArg _ (funext fun u => handleMr_congr hcopy)
  · have hother (u : HmrRdmaTransport) (msg : HmrMsg) :
        handleMr o u { task with taskType := receivedType bytes } .recv msg = .ok u :=
      handleMr_other o u msg .recv hmr
    simp only [hother]

end Reads

/-- A successful receive is confined to the bytes received if and only if the frame is well formed. -/
theorem confinedTo_iff {t : HmrRdmaTransport} {task : HmrTask} {frame : Frame} {bytes : ℕ → UInt8}
    (hbytes : (t.hcaWrite task.sgeList.addr frame).bufferBytes task = .ok bytes) :
    ConfinedTo frame.length t bytes ↔ frame.WellFormed t.processResp := by
  have hbyte (i : ℕ) (hi : i < frame.length) : bytes i = frame.byte i := by
    obtain ⟨pool, hpool, rfl⟩ := bufferBytes_eq_ok hbytes
    exact hcaWrite_bytes hpool hi
  have hdecode (hheader : sizeofMsgType + sizeofInt ≤ frame.length) :
      receivedType bytes = receivedType frame.byte ∧
        (HmrMsg.decode bytes).dataSize = (HmrMsg.decode frame.byte).dataSize :=
    decode_header_congr fun i hi => hbyte i (by omega)
  have hresponses : (t.respond (decodeSlot bytes).1 (decodeSlot bytes).2).responses =
      if t.processResp ∧ receivedType bytes ≠ .mr then t.responses ++ [.decode bytes]
        else t.responses := respond_responses t _ _
  constructor
  · rintro ⟨hreads, hhanded⟩
    have hheader := hreads (sizeofMsgType, sizeofInt) (.tail _ (.head _))
    obtain ⟨htype, hsize⟩ := hdecode hheader
    refine ⟨hheader, fun hmr => ?_, fun hresp hmr => ?_⟩
    · exact hreads (sizeofMsgType + sizeofInt, sizeofIbvMr) (by simp [slotReads, htype, hmr])
    · rw [if_pos ⟨hresp, htype ▸ hmr⟩] at hresponses
      rw [← hsize]
      exact hhanded _ hresponses
  · intro h
    obtain ⟨htype, hsize⟩ := hdecode h.header
    refine ⟨?_, fun msg hmsg => ?_⟩
    · have hheader := h.header
      simp only [slotReads, htype, List.forall_mem_cons]
      refine ⟨by omega, hheader, ?_⟩
      split
      · rename_i hmr
        simpa using h.mr hmr
      · simp
    · rw [hresponses, htype] at hmsg
      split at hmsg
      · rename_i hresp
        obtain rfl := List.singleton_inj.mp (List.append_cancel_left hmsg)
        rw [hsize]
        exact h.size hresp.1 hresp.2
      · exact absurd hmsg (by simp)

/-- What `hmr_send_task_create` encodes from a message of fitting size, with a whole MR in one of
type MR, is well formed. -/
theorem frame_wellFormed {msg : HmrMsg} (hpos : 0 ≤ msg.dataSize.toInt)
    (hfit : 8 + msg.dataSize.toInt < 2 ^ 31)
    (hmr : msg.msgType = .mr → (sizeofIbvMr : ℤ) ≤ msg.dataSize.toInt) (processResp : Bool) :
    msg.frame.WellFormed processResp := by
  have hlength : (msg.frame.length : ℤ) = 8 + msg.dataSize.toInt := encodedLength_eq hpos hfit
  have htype := receivedType_frame msg
  have hsize : (HmrMsg.decode msg.frame.byte).dataSize = msg.dataSize :=
    (sameMessage_decode fun _ _ => rfl).dataSize
  simp only [sizeofIbvMr] at hmr
  refine ⟨by simp only [sizeofMsgType, sizeofInt]; omega, fun h => ?_, fun _ _ => ?_⟩
  · have hlong := hmr (HmrTaskType.ofMsgType_eq_mr.mp (htype.symm.trans h))
    simp only [sizeofMsgType, sizeofInt, sizeofIbvMr]
    omega
  · rw [hsize]
    omega

/-- The first receive buffer of the sample transport. -/
def sampleRecvTask : HmrTask := recvTask samplePool maxRecvSize 0

/-- What lies in it once `frame` has been received. -/
def receivedBytes (frame : Frame) : ℕ → UInt8 :=
  (samplePool.memory.copy 1024 frame.byte frame.length).bytesAt 1024

/-- A message handed to `process_resp`, and the peer's MR. -/
theorem confinedTo_sample :
    let t : HmrRdmaTransport := { sampleTransport with processResp := true }
    let normal : Frame := (sampleMsg .normal 8).frame
    let mr : Frame := (mrMsg samplePool.rdmaMr).frame
    (ConfinedTo 16 t (receivedBytes normal) ∧ normal.WellFormed true) ∧
      ConfinedTo 56 t (receivedBytes mr) ∧ mr.WellFormed true := by
  intro t normal mr
  have hnormal : normal.WellFormed true :=
    frame_wellFormed (by decide) (by decide) (fun h => absurd h (by decide)) true
  have hmr : mr.WellFormed true := frame_wellFormed (by decide) (by decide) (fun _ => by decide) true
  have hfirst : (t.hcaWrite sampleRecvTask.sgeList.addr normal).bufferBytes sampleRecvTask =
      .ok (receivedBytes normal) := rfl
  have hsecond : (t.hcaWrite sampleRecvTask.sgeList.addr mr).bufferBytes sampleRecvTask =
      .ok (receivedBytes mr) := rfl
  exact ⟨⟨(confinedTo_iff hfirst).mpr hnormal, hnormal⟩, (confinedTo_iff hsecond).mpr hmr, hmr⟩

/-- For a frame of eight zeros the handler copies an MR from behind it. -/
theorem shortMr_readsStale :
    ¬∀ (t : HmrRdmaTransport) (task : HmrTask) (frame : Frame) (bytes : ℕ → UInt8),
      (frame.length : ℤ) ≤ maxRecvSize →
      (t.hcaWrite task.sgeList.addr frame).bufferBytes task = .ok bytes →
      ConfinedTo frame.length t bytes := by
  intro h
  have hconfined := h sampleTransport sampleRecvTask ⟨8, fun _ => 0⟩ _ (by decide) rfl
  have hcopy := hconfined.reads (sizeofMsgType + sizeofInt, sizeofIbvMr)
    (by decide)
  exact absurd hcopy (by decide)

end HmrRpc
