import HmrRpc.MessageFlow
import HmrRpc.SendOutcome

/-!
# Framing

A message is encoded by `hmr_send_task_create` and decoded by `hmr_wc_success_handler`, with
the receive slot in between: the HCA places the bytes of the send task at the start of a
slot that still holds an older message. What is decoded is the message encoded, whatever
the slot held.
-/

namespace HmrRpc

open Common

/-- The bytes of a slot once a frame has been placed at its start. -/
def Frame.placedIn (frame : Frame) (slot : ℕ → UInt8) : ℕ → UInt8 :=
  fun i => if i < frame.length then frame.byte i else slot i

/-- What the handler takes a slot for: the type of the receive task and the message. -/
def decodeSlot (bytes : ℕ → UInt8) : HmrTaskType × HmrMsg := (receivedType bytes, .decode bytes)

section Slot

/-- Placing a frame leaves the bytes behind it. -/
theorem hcaWrite_bufferBytes {t : HmrRdmaTransport} {task : HmrTask} {slot : ℕ → UInt8}
    (hslot : t.bufferBytes task = .ok slot) (frame : Frame) :
    (t.hcaWrite task.sgeList.addr frame).bufferBytes task = .ok (frame.placedIn slot) := by
  obtain ⟨pool, hpool, rfl⟩ := bufferBytes_eq_ok hslot
  simp only [HmrRdmaTransport.bufferBytes, HmrRdmaTransport.hcaWrite, hpool, Option.map_some,
    Except.ok.injEq]
  funext i
  by_cases hi : i < frame.length
  · simp only [Frame.placedIn, if_pos hi, Memory.bytesAt]
    exact Memory.copy_inside _ _ _ hi
  · simp only [Frame.placedIn, if_neg hi, Memory.bytesAt]
    exact Memory.copy_outside _ _ (.inr (by omega))

/-- The handler hands over the message it decodes from the slot, unless the type is MR. -/
theorem wcSuccess_responses {o : Outcomes} {t t' : HmrRdmaTransport} {task : HmrTask}
    {bytes : ℕ → UInt8} (hbytes : t.bufferBytes task = .ok bytes)
    (h : hmrWcSuccessHandler o t ⟨task, .success, .recv⟩ = .ok t') :
    t'.responses = (t.respond (decodeSlot bytes).1 (decodeSlot bytes).2).responses := by
  obtain ⟨pool, u, hpool, hbody, hrepost⟩ := hmrWcSuccessHandler_recv h
  obtain ⟨pool', hpool', rfl⟩ := bufferBytes_eq_ok hbytes
  obtain rfl := Option.some.inj (hpool.symm.trans hpool')
  exact (congrArg Prod.fst hrepost.receiverSide).trans (congrArg Prod.fst hbody.receiverSide)

/-- A created task is the one of the message, in the range taken for it. -/
theorem hmrSendTaskCreate_eq_some {o : Outcomes} {t u : HmrRdmaTransport} {msg : HmrMsg}
    {task : HmrTask} (h : hmrSendTaskCreate o t msg = .ok (some task, u)) :
    ∃ pool, t.normalMempool = some pool ∧ task = sendTask pool msg t.nextTask ∧
      u = t.created pool msg := by
  unfold hmrSendTaskCreate at h
  split at h
  · split at h
    · contradiction
    · rename_i pool hpool
      simp only [Except.ok.injEq, Prod.mk.injEq, Option.some.injEq] at h
      exact ⟨pool, hpool, h.1.symm, h.2.symm⟩
  · simp at h

/-- The range holds the encoded message, as long as its length is an `int`. -/
theorem sendTask_frame {o : Outcomes} {t u : HmrRdmaTransport} {msg : HmrMsg} {task : HmrTask}
    {sent : ℕ → UInt8} (hpos : 0 ≤ msg.dataSize.toInt) (hfit : 8 + msg.dataSize.toInt < 2 ^ 31)
    (hcreate : hmrSendTaskCreate o t msg = .ok (some task, u))
    (hsent : u.bufferBytes task = .ok sent) :
    task.ibvSge.length = msg.frame.length ∧ ∀ i < msg.frame.length, sent i = msg.frame.byte i := by
  obtain ⟨pool, -, rfl, rfl⟩ := hmrSendTaskCreate_eq_some hcreate
  have hlength : (sendTask pool msg t.nextTask).sgeList.length = 8 + msg.dataSize.toInt :=
    sendTaskLength_eq hpos hfit
  have hencoded := encodedLength_eq hpos hfit
  refine ⟨?_, fun i hi => ?_⟩
  · have hsge : ((sendTask pool msg t.nextTask).ibvSge.length : ℤ) = 8 + msg.dataSize.toInt := by
      rw [HmrTask.ibvSge, hlength]
      exact cUInt32_of_range (by omega) (by omega)
    exact_mod_cast hsge.trans hencoded.symm
  · obtain rfl := Except.ok.inj hsent
    exact copyAll_sendTask_inside _ _ _ hi

/-- Every task handed on has the type of its message. -/
theorem submitted_taskType {o : Outcomes} {t t' : HmrRdmaTransport} {msg : HmrMsg} {r : ℤ}
    {task : HmrTask} (hsend : hmrRdmaSend o t msg = .ok (r, t')) (hsubmitted : Submitted t t' task) :
    task.taskType = .ofMsgType msg.msgType := by
  cases hmrRdmaSend_cases hsend with
  | refused => exact absurd hsubmitted (not_submitted rfl rfl)
  | submitted _ _ hsubmit =>
    obtain ⟨pool, -, rfl, -⟩ := hsubmit.submitted hsubmitted
    rfl

/-- A slot that starts with an encoded message decodes to it. -/
theorem decodeSlot_of_bytes {msg : HmrMsg} {bytes : ℕ → UInt8}
    (h : ∀ i < msg.frame.length, bytes i = msg.frame.byte i) :
    (decodeSlot bytes).1 = .ofMsgType msg.msgType ∧ SameMessage msg (decodeSlot bytes).2 := by
  refine ⟨?_, sameMessage_decode h⟩
  rw [← receivedType_frame]
  have hlength : sizeofMsgType ≤ msg.frame.length := by
    simp only [HmrMsg.frame, HmrMsg.encodedLength]
    omega
  exact congrArg HmrTaskType.ofNat (ofLeBytes_congr fun i hi => h i (by omega))

end Slot

/-- Every message that fits a receive buffer is decoded as it was encoded, to a task of the type it
was sent with; and two slots decode to the same, so the old contents of neither matter. -/
theorem framing_roundTrip {o : Outcomes} {t u : HmrRdmaTransport} {msg : HmrMsg} {task : HmrTask}
    {sent : ℕ → UInt8} (hpos : 0 ≤ msg.dataSize.toInt) (hfit : 8 + msg.dataSize.toInt ≤ maxRecvSize)
    (hcreate : hmrSendTaskCreate o t msg = .ok (some task, u))
    (hsent : u.bufferBytes task = .ok sent) (slot slot' : ℕ → UInt8) :
    let decoded := decodeSlot (Frame.placedIn ⟨task.ibvSge.length, sent⟩ slot)
    let decoded' := decodeSlot (Frame.placedIn ⟨task.ibvSge.length, sent⟩ slot')
    SameMessage msg decoded.2 ∧
      (∀ r t' sentTask, hmrRdmaSend o t msg = .ok (r, t') → Submitted t t' sentTask →
        decoded.1 = sentTask.taskType) ∧
      decoded'.1 = decoded.1 ∧ SameMessage decoded.2 decoded'.2 := by
  obtain ⟨hlength, hbytes⟩ := sendTask_frame hpos (hfit.trans_lt (by decide)) hcreate hsent
  have hplaced (slot : ℕ → UInt8) (i : ℕ) (hi : i < msg.frame.length) :
      Frame.placedIn ⟨task.ibvSge.length, sent⟩ slot i = msg.frame.byte i :=
    (if_pos (hlength ▸ hi)).trans (hbytes i hi)
  obtain ⟨htype, hsame⟩ := decodeSlot_of_bytes (hplaced slot)
  obtain ⟨htype', hsame'⟩ := decodeSlot_of_bytes (hplaced slot')
  refine ⟨hsame, fun r t' sentTask hsend hsubmitted => ?_, htype'.trans htype.symm, ?_, ?_,
    fun i hi => ?_⟩
  · rw [htype, submitted_taskType hsend hsubmitted]
  · exact hsame'.msgType.trans hsame.msgType.symm
  · exact hsame'.dataSize.trans hsame.dataSize.symm
  · rw [hsame.dataSize] at hi
    exact (hsame'.data i hi).trans (hsame.data i hi).symm

/-- A message of eight bytes, placed into a slot of ones and into one of twos. -/
theorem framing_roundTrip_sample :
    let sent := (samplePool.afterSendTask (sampleMsg .normal 8)).memory.bytesAt 0
    let decoded := decodeSlot (Frame.placedIn ⟨16, sent⟩ fun _ => 1)
    let decoded' := decodeSlot (Frame.placedIn ⟨16, sent⟩ fun _ => 2)
    SameMessage (sampleMsg .normal 8) decoded.2 ∧
      (∀ r t' sentTask, hmrRdmaSend .ok sampleTransport (sampleMsg .normal 8) = .ok (r, t') →
        Submitted sampleTransport t' sentTask → decoded.1 = sentTask.taskType) ∧
      decoded'.1 = decoded.1 ∧ SameMessage decoded.2 decoded'.2 :=
  framing_roundTrip (o := .ok) (t := sampleTransport) (u := sampleTransport.created samplePool _)
    (by decide) (by decide) rfl rfl (fun _ => 1) fun _ => 2

end HmrRpc
