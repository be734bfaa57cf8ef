import HmrRpc.Task

/-!
# Sending a message (`hmr_msg_check`, `hmr_rdma_send`)

A message is accepted in a connected state, WRITE and READ only once the peer's MR has
arrived. An MR message is posted at once; every other one is appended to
`send_task_list` for the timer to flush. `SendResult` lists everything a call that
returns can have done.
-/

namespace HmrRpc

open Common

/-- Whether the loops of `hmr_msg_check` end with success in the current state. -/
def hmrMsgReady (t : HmrRdmaTransport) (msg : HmrMsg) : Bool :=
  if msg.msgType ≠ .read ∧ msg.msgType ≠ .write then
    t.transState = .connected ∨ t.transState = .sconnected ∨ t.transState = .rconnected
  else t.transState = .rconnected

/-- `hmr_msg_check`. With the state unchanged the loop leaves on its first pass or never. -/
def hmrMsgCheck (t : HmrRdmaTransport) (msg : HmrMsg) : Except Stop ℤ :=
  if hmrMsgReady t msg then .ok 0
  else if t.transState.toNat > HmrRdmaTransportState.rconnected.toNat then .ok (-1)
  else .error .spins

/-- The scatter element of a task, as every work request takes it. -/
def HmrTask.ibvSge (task : HmrTask) : IbvSge :=
  ⟨task.sgeList.addr, cUInt32 task.sgeList.length, task.sgeList.lkey⟩

/-- The work request that `hmr_rdma_send` posts itself. -/
def directSendWr (peer : HmrPeerInfo) (task : HmrTask) : IbvSendWr :=
  let opcode := hmrGetOpcodeFromTask task
  let oneSided := opcode = .rdmaRead ∨ opcode = .rdmaWrite
  { wrId := task
    next := none
    sgList := task.ibvSge
    numSge := 1
    opcode := opcode
    signaled := true
    remoteAddr := if oneSided then peer.normalMr.addr.toNat else 0
    rkey := if oneSided then peer.normalMr.rkey else 0 }

/-- `hmr_rdma_send` behind its check: the returned value and the state left behind. -/
def submitMsg (o : Outcomes) (t : HmrRdmaTransport) (msg : HmrMsg) :
    Except Stop (ℤ × HmrRdmaTransport) :=
  match hmrSendTaskCreate o t msg with
  | .error stop => .error stop
  -- the result is used without a test
  | .ok (none, _) => .error .nullDeref
  | .ok (some task, t) =>
    let task := { task with taskType := .ofMsgType msg.msgType }
    if task.taskType ≠ .mr then .ok (0, { t with sendTaskList := t.sendTaskList ++ [task] })
    -- a failed post is logged only, and the task is dropped
    else if o.sendPost then .ok (0, t.ibvPostSend [directSendWr t.peerInfo task])
    else .ok (0, t)

/-- `hmr_rdma_send`: the returned value and the state left behind. -/
def hmrRdmaSend (o : Outcomes) (t : HmrRdmaTransport) (msg : HmrMsg) :
    Except Stop (ℤ × HmrRdmaTransport) :=
  match hmrMsgCheck t msg with
  | .error stop => .error stop
  | .ok err => if err ≠ 0 then .ok (-1, t) else submitMsg o t msg

/-- The task of an accepted message. -/
def acceptedTask (pool : HmrMempool) (msg : HmrMsg) (id : ℕ) : HmrTask :=
  { sendTask pool msg id with taskType := .ofMsgType msg.msgType }

/-- The transport once the task of an accepted message exists. -/
def HmrRdmaTransport.created (t : HmrRdmaTransport) (pool : HmrMempool) (msg : HmrMsg) :
    HmrRdmaTransport :=
  { t with normalMempool := some (pool.afterSendTask msg), nextTask := t.nextTask + 1 }

/-- The transport once that task is on the list. -/
def HmrRdmaTransport.queued (t : HmrRdmaTransport) (pool : HmrMempool) (msg : HmrMsg) :
    HmrRdmaTransport :=
  { t.created pool msg with
    sendTaskList := t.sendTaskList ++ [acceptedTask pool msg t.nextTask] }

/-- The transport once that task is posted directly. -/
def HmrRdmaTransport.postedDirect (t : HmrRdmaTransport) (pool : HmrMempool) (msg : HmrMsg) :
    HmrRdmaTransport :=
  (t.created pool msg).ibvPostSend
    [directSendWr t.peerInfo (acceptedTask pool msg t.nextTask)]

/-- What a returning call of `hmr_rdma_send` did behind its check. -/
inductive SubmitResult (o : Outcomes) (t : HmrRdmaTransport) (msg : HmrMsg) :
    HmrRdmaTransport → Prop
  | queued (pool : HmrMempool) (hpool : t.normalMempool = some pool) (htype : msg.msgType ≠ .mr) :
      SubmitResult o t msg (t.queued pool msg)
  | posted (pool : HmrMempool) (hpool : t.normalMempool = some pool) (htype : msg.msgType = .mr)
      (hpost : o.sendPost) : SubmitResult o t msg (t.postedDirect pool msg)
  | dropped (pool : HmrMempool) (hpool : t.normalMempool = some pool) (htype : msg.msgType = .mr)
      (hpost : o.sendPost = false) : SubmitResult o t msg (t.created pool msg)

/-- What a returning call of `hmr_rdma_send` did. -/
inductive SendResult (o : Outcomes) (t : HmrRdmaTransport) (msg : HmrMsg) :
    ℤ → HmrRdmaTransport → Prop
  | refused (hcheck : hmrMsgCheck t msg = .ok (-1)) : SendResult o t msg (-1) t
  | submitted (t' : HmrRdmaTransport) (hready : hmrMsgReady t msg)
      (hsubmit : SubmitResult o t msg t') : SendResult o t msg 0 t'

section Posted

variable {t : HmrRdmaTransport} {pool : HmrMempool} {msg : HmrMsg}

/-- What the HCA reads for the task of a message that has just been encoded is the message. -/
theorem hcaRead_created (pool : HmrMempool) (peer : HmrPeerInfo) (id : ℕ)
    (hfit : msg.encodedLength < 2 ^ 31) :
    ((pool.afterSendTask msg).hcaRead (directSendWr peer (acceptedTask pool msg id))).Carries
      msg.frame := by
  have hlength : sendTaskLength msg = msg.encodedLength := by
    have hsize : (sizeT (msg.encodedLength : ℤ) : ℤ) = msg.encodedLength :=
      sizeT_of_range (Int.natCast_nonneg _) (by omega)
    calc sendTaskLength msg = cInt (sizeT (msg.encodedLength : ℤ)) := by
          simp only [sendTaskLength, HmrMsg.encodedLength, Nat.cast_add]
      _ = cInt msg.encodedLength := by rw [hsize]
      _ = msg.encodedLength := cInt_of_range (by omega) (by omega)
  have hsge : (cUInt32 (sendTaskLength msg) : ℤ) = msg.encodedLength := by
    rw [hlength]
    exact cUInt32_of_range (Int.natCast_nonneg _) (by omega)
  refine ⟨?_, fun i hi => copyAll_sendTask_inside _ _ msg hi⟩
  simp only [HmrMempool.hcaRead, directSendWr, HmrTask.ibvSge, acceptedTask, sendTask, HmrMsg.frame]
  exact_mod_cast hsge

/-- A message that is posted directly is put on the wire as it was encoded. -/
theorem postedDirect_wire (htype : msg.msgType = .mr) (hfit : msg.encodedLength < 2 ^ 31) :
    ∃ frame, (t.postedDirect pool msg).qp.wire = t.qp.wire ++ [frame] ∧
      frame.Carries msg.frame := by
  have htask : (acceptedTask pool msg t.nextTask).taskType = .mr :=
    HmrTaskType.ofMsgType_eq_mr.mpr htype
  have hopcode : (directSendWr t.peerInfo (acceptedTask pool msg t.nextTask)).opcode = .send := by
    simp [directSendWr, hmrGetOpcodeFromTask, htask]
  refine ⟨_, ?_, hcaRead_created pool t.peerInfo t.nextTask hfit⟩
  show t.qp.wire ++ List.filterMap _ _ = _
  rw [List.filterMap_cons, IbvSendWr.wireFrame, if_pos hopcode]
  rfl

end Posted

section SubmitFrame

variable {o : Outcomes} {t t' : HmrRdmaTransport} {msg : HmrMsg}

/-- Submitting leaves the peer's information alone. -/
theorem SubmitResult.peerInfo (h : SubmitResult o t msg t') : t'.peerInfo = t.peerInfo := by
  cases h <;> rfl

/-- Submitting leaves the transport state alone. -/
theorem SubmitResult.transState (h : SubmitResult o t msg t') : t'.transState = t.transState := by
  cases h <;> rfl

/-- Submitting receives nothing. -/
theorem SubmitResult.mrsReceived (h : SubmitResult o t msg t') :
    t'.mrsReceived = t.mrsReceived := by
  cases h <;> rfl

/-- Submitting posts no receive. -/
theorem SubmitResult.rq (h : SubmitResult o t msg t') : t'.qp.rq = t.qp.rq := by
  cases h <;> rfl

/-- Submitting leaves the role alone. -/
theorem SubmitResult.isClient (h : SubmitResult o t msg t') : t'.isClient = t.isClient := by
  cases h <;> rfl

/-- Submitting receives and closes nothing. -/
theorem SubmitResult.receiverSide (h : SubmitResult o t msg t') :
    t'.receiverSide = t.receiverSide := by
  cases h <;> rfl

/-- Submitting at most appends to the wire. -/
theorem SubmitResult.wire (h : SubmitResult o t msg t') : t.qp.wire <+: t'.qp.wire := by
  cases h with
  | posted => exact List.prefix_append _ _
  | _ => exact List.prefix_rfl

/-- Submitting keeps the transport's own MR. -/
theorem SubmitResult.ownMr (h : SubmitResult o t msg t') : t'.ownMr = t.ownMr := by
  cases h with
  | queued pool hpool | posted pool hpool | dropped pool hpool =>
    rw [HmrRdmaTransport.ownMr, HmrRdmaTransport.ownMr, hpool]
    rfl

/-- A message posted directly is never a WRITE. -/
theorem SubmitResult.remoteWrites (h : SubmitResult o t msg t') :
    t'.remoteWrites = t.remoteWrites := by
  cases h with
  | posted pool _ htype _ =>
    have hopcode : hmrGetOpcodeFromTask (acceptedTask pool msg t.nextTask) ≠ .rdmaWrite := by
      simp [hmrGetOpcodeFromTask_eq_write, acceptedTask, HmrTaskType.ofMsgType_eq_write, htype]
    simp [HmrRdmaTransport.remoteWrites, HmrRdmaTransport.postedDirect,
      HmrRdmaTransport.ibvPostSend, HmrRdmaTransport.created, directSendWr, hopcode]
  | _ => rfl

end SubmitFrame

section SendFrame

variable {o : Outcomes} {t t' : HmrRdmaTransport} {msg : HmrMsg} {r : ℤ}

/-- What submitting preserves, sending does. -/
theorem SendResult.preserves {A : Type*} {f : HmrRdmaTransport → A} (h : SendResult o t msg r t')
    (hsubmit : SubmitResult o t msg t' → f t' = f t) : f t' = f t := by
  cases h with
  | refused => rfl
  | submitted _ _ h => exact hsubmit h

/-- Sending leaves the peer's information alone. -/
theorem SendResult.peerInfo (h : SendResult o t msg r t') : t'.peerInfo = t.peerInfo :=
  h.preserves SubmitResult.peerInfo

/-- Sending leaves the transport state alone. -/
theorem SendResult.transState (h : SendResult o t msg r t') : t'.transState = t.transState :=
  h.preserves SubmitResult.transState

/-- Sending receives nothing. -/
theorem SendResult.mrsReceived (h : SendResult o t msg r t') : t'.mrsReceived = t.mrsReceived :=
  h.preserves SubmitResult.mrsReceived

/-- Sending posts no receive. -/
theorem SendResult.rq (h : SendResult o t msg r t') : t'.qp.rq = t.qp.rq :=
  h.preserves (f := fun t => t.qp.rq) SubmitResult.rq

/-- Sending leaves the role alone. -/
theorem SendResult.isClient (h : SendResult o t msg r t') : t'.isClient = t.isClient :=
  h.preserves SubmitResult.isClient

/-- Sending receives and closes nothing. -/
theorem SendResult.receiverSide (h : SendResult o t msg r t') : t'.receiverSide = t.receiverSide :=
  h.preserves SubmitResult.receiverSide

/-- Sending at most appends to the wire. -/
theorem SendResult.wire (h : SendResult o t msg r t') : t.qp.wire <+: t'.qp.wire := by
  cases h with
  | refused => exact List.prefix_rfl
  | submitted _ _ hsubmit => exact hsubmit.wire

/-- Sending keeps the transport's own MR. -/
theorem SendResult.ownMr (h : SendResult o t msg r t') : t'.ownMr = t.ownMr :=
  h.preserves SubmitResult.ownMr

/-- A message sent directly is never a WRITE. -/
theorem SendResult.remoteWrites (h : SendResult o t msg r t') : t'.remoteWrites = t.remoteWrites :=
  h.preserves SubmitResult.remoteWrites

end SendFrame

/-- The check returns only zero, in a ready state, or `-1`. -/
theorem hmrMsgCheck_eq_ok {t : HmrRdmaTransport} {msg : HmrMsg} {err : ℤ}
    (h : hmrMsgCheck t msg = .ok err) :
    (err = 0 ∧ hmrMsgReady t msg) ∨ err = -1 := by
  unfold hmrMsgCheck at h
  split at h
  · rename_i hready
    exact .inl ⟨(Except.ok.inj h).symm, hready⟩
  · split at h
    · exact .inr (Except.ok.inj h).symm
    · contradiction

/-- The check returns zero exactly when the state is ready for the message. -/
theorem hmrMsgCheck_eq_zero {t : HmrRdmaTransport} {msg : HmrMsg} :
    hmrMsgCheck t msg = .ok 0 ↔ hmrMsgReady t msg = true := by
  constructor
  · intro h
    rcases hmrMsgCheck_eq_ok h with ⟨-, hready⟩ | herr
    · exact hready
    · contradiction
  · intro h
    simp [hmrMsgCheck, h]

/-- A refused message finds the state not ready for it. -/
theorem not_ready_of_refused {t : HmrRdmaTransport} {msg : HmrMsg}
    (h : hmrMsgCheck t msg = .ok (-1)) : ¬hmrMsgReady t msg := by
  intro hready
  rw [hmrMsgCheck_eq_zero.mpr hready] at h
  contradiction

/-- Behind the check every returning call returns zero and is one of the listed results. -/
theorem submitMsg_cases {o : Outcomes} {t t' : HmrRdmaTransport} {msg : HmrMsg} {r : ℤ}
    (h : submitMsg o t msg = .ok (r, t')) : r = 0 ∧ SubmitResult o t msg t' := by
  cases hcalloc : o.sendCalloc with
  | false => simp [submitMsg, hmrSendTaskCreate, hcalloc] at h
  | true =>
    cases hpool : t.normalMempool with
    | none => simp [submitMsg, hmrSendTaskCreate, hcalloc, hpool] at h
    | some pool =>
      simp only [submitMsg, hmrSendTaskCreate, hcalloc, hpool, ne_eq, if_true,
        HmrTaskType.ofMsgType_eq_mr] at h
      split at h
      · rename_i htype
        obtain ⟨rfl, rfl⟩ := Prod.mk.inj (Except.ok.inj h)
        exact ⟨rfl, .queued pool hpool htype⟩
      · rename_i htype
        have htype : msg.msgType = .mr := not_not.mp htype
        split at h
        · rename_i hpost
          obtain ⟨rfl, rfl⟩ := Prod.mk.inj (Except.ok.inj h)
          exact ⟨rfl, .posted pool hpool htype hpost⟩
        · rename_i hpost
          obtain ⟨rfl, rfl⟩ := Prod.mk.inj (Except.ok.inj h)
          exact ⟨rfl, .dropped pool hpool htype (Bool.eq_false_iff.mpr hpost)⟩

/-- Every returning call is one of the listed results. -/
theorem hmrRdmaSend_cases {o : Outcomes} {t t' : HmrRdmaTransport} {msg : HmrMsg} {r : ℤ}
    (h : hmrRdmaSend o t msg = .ok (r, t')) : SendResult o t msg r t' := by
  unfold hmrRdmaSend at h
  cases hcheck : hmrMsgCheck t msg with
  | error stop => simp [hcheck] at h
  | ok err =>
    rcases hmrMsgCheck_eq_ok hcheck with ⟨rfl, hready⟩ | rfl
    · simp only [hcheck, ne_eq, not_true_eq_false, if_false] at h
      obtain ⟨rfl, hsubmit⟩ := submitMsg_cases h
      exact .submitted t' hready hsubmit
    · simp only [hcheck, ne_eq, show ¬(-1 : ℤ) = 0 by decide, not_false_eq_true, if_true] at h
      obtain ⟨rfl, rfl⟩ := Prod.mk.inj (Except.ok.inj h)
      exact .refused hcheck

/-- A call that returned zero passed the check. -/
theorem hmrRdmaSend_checked {o : Outcomes} {t t' : HmrRdmaTransport} {msg : HmrMsg}
    (h : hmrRdmaSend o t msg = .ok (0, t')) : hmrMsgCheck t msg = .ok 0 := by
  generalize hr : (0 : ℤ) = r at h
  cases hmrRdmaSend_cases h with
  | refused => contradiction
  | submitted _ hready => exact hmrMsgCheck_eq_zero.mpr hready

/-- In a ready state with a pool and memory for the task the call returns zero. -/
theorem hmrRdmaSend_of_ready {o : Outcomes} {t : HmrRdmaTransport} {msg : HmrMsg}
    {pool : HmrMempool} (hready : hmrMsgReady t msg) (hpool : t.normalMempool = some pool)
    (hcalloc : o.sendCalloc) : ∃ t', hmrRdmaSend o t msg = .ok (0, t') := by
  simp only [hmrRdmaSend, hmrMsgCheck_eq_zero.mpr hready, submitMsg, hmrSendTaskCreate, hcalloc,
    hpool, ne_eq, not_true_eq_false, if_false, if_true]
  split
  · exact ⟨_, rfl⟩
  · split <;> exact ⟨_, rfl⟩

end HmrRpc
