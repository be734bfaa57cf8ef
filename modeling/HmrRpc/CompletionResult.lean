import HmrRpc.Completion

/-!
# What the completion handlers can do

Inversion of the handlers: a send-side completion changes at most the state, the
disconnect count and the freed tasks, and a received frame takes one of five courses
according to its first word. Later modules work from these lists and never unfold the
handlers again.
-/

namespace HmrRpc

open Common

/-- A buffer that holds an encoded message starts with its type. -/
theorem receivedType_frame (msg : HmrMsg) :
    receivedType msg.frame.byte = .ofMsgType msg.msgType := by
  have hword : ofLeBytes msg.frame.byte sizeofMsgType = msg.msgType.toNat :=
    ofLeBytes_of_eq msg.msgType.toNat_lt fun i hi => msg.byte_type hi
  rw [receivedType, hword, HmrTaskType.ofMsgType]

/-- A buffer that holds an encoded MR message gives that MR. -/
theorem decode_mrMsg {mr : IbvMr} {bytes : ℕ → UInt8}
    (h : ∀ i < (mrMsg mr).frame.length, bytes i = (mrMsg mr).frame.byte i) :
    IbvMr.decode (HmrMsg.decode bytes).data = mr := by
  apply IbvMr.decode_of_bytes
  intro i hi
  have hlength : (mrMsg mr).frame.length = 8 + sizeofIbvMr := rfl
  exact (h (8 + i) (by omega)).trans ((mrMsg mr).byte_data i)

/-- The transport after `hmr_post_recv` posted a receive of the given size. -/
def HmrRdmaTransport.recvPosted (t : HmrRdmaTransport) (pool : HmrMempool) (size : ℤ) :
    HmrRdmaTransport :=
  HmrRdmaTransport.ibvPostRecv
    { t with normalMempool := some (pool.afterRecvTask size), nextTask := t.nextTask + 1 }
    ⟨recvTask pool size t.nextTask, (recvTask pool size t.nextTask).ibvSge⟩

/-- What a returning call of `hmr_post_recv` did. -/
inductive PostRecvResult (o : Outcomes) (t : HmrRdmaTransport) (size : ℤ) :
    HmrRdmaTransport → Prop
  | noMemory (hcalloc : o.recvCalloc = false) : PostRecvResult o t size t
  | posted (pool : HmrMempool) (hpool : t.normalMempool = some pool) (hcalloc : o.recvCalloc)
      (hpost : o.recvPost) : PostRecvResult o t size (t.recvPosted pool size)
  | dropped (pool : HmrMempool) (hpool : t.normalMempool = some pool) (hcalloc : o.recvCalloc)
      (hpost : o.recvPost = false) :
      PostRecvResult o t size
        { t with normalMempool := some (pool.afterRecvTask size), nextTask := t.nextTask + 1 }

section Frame

variable {o : Outcomes} {t t' : HmrRdmaTransport} {size : ℤ}

/-- Posting a receive leaves the peer's information alone. -/
theorem PostRecvResult.peerInfo (h : PostRecvResult o t size t') : t'.peerInfo = t.peerInfo := by
  cases h <;> rfl

/-- Posting a receive leaves the transport state alone. -/
theorem PostRecvResult.transState (h : PostRecvResult o t size t') :
    t'.transState = t.transState := by
  cases h <;> rfl

/-- Posting a receive handles no message. -/
theorem PostRecvResult.mrsReceived (h : PostRecvResult o t size t') :
    t'.mrsReceived = t.mrsReceived := by
  cases h <;> rfl

/-- Posting a receive leaves the role alone. -/
theorem PostRecvResult.isClient (h : PostRecvResult o t size t') : t'.isClient = t.isClient := by
  cases h <;> rfl

/-- Posting a receive handles and closes nothing. -/
theorem PostRecvResult.receiverSide (h : PostRecvResult o t size t') :
    t'.receiverSide = t.receiverSide := by
  cases h <;> rfl

/-- Posting a receive leaves the send side alone. -/
theorem PostRecvResult.sends (h : PostRecvResult o t size t') :
    t'.sendTaskList = t.sendTaskList ∧ t'.qp.sq = t.qp.sq ∧ t'.qp.underWay = t.qp.underWay ∧
      t'.qp.sendLog = t.qp.sendLog := by
  cases h <;> exact ⟨rfl, rfl, rfl, rfl⟩

/-- Posting a receive keeps the transport's own MR. -/
theorem PostRecvResult.ownMr (h : PostRecvResult o t size t') : t'.ownMr = t.ownMr := by
  cases h with
  | noMemory => rfl
  | posted pool hpool | dropped pool hpool =>
    rw [HmrRdmaTransport.ownMr, HmrRdmaTransport.ownMr, hpool]
    rfl

/-- A receive is posted with the buffer of its task. -/
theorem PostRecvResult.rq (h : PostRecvResult o t size t') :
    t'.qp.rq = t.qp.rq ∨ ∃ task, t'.qp.rq = t.qp.rq ++ [⟨task, task.ibvSge⟩] := by
  cases h with
  | posted pool => exact .inr ⟨_, rfl⟩
  | _ => exact .inl rfl

end Frame

/-- Every returning call is one of the listed results. -/
theorem hmrPostRecv_cases {o : Outcomes} {t t' : HmrRdmaTransport} {size : ℤ}
    (h : hmrPostRecv o t size = .ok t') : PostRecvResult o t size t' := by
  cases hcalloc : o.recvCalloc with
  | false =>
    simp only [hmrPostRecv, hmrRecvTaskCreate, hcalloc] at h
    obtain rfl := Except.ok.inj h
    exact .noMemory hcalloc
  | true =>
    cases hpool : t.normalMempool with
    | none => simp [hmrPostRecv, hmrRecvTaskCreate, hcalloc, hpool] at h
    | some pool =>
      simp only [hmrPostRecv, hmrRecvTaskCreate, hcalloc, hpool, if_true] at h
      split at h
      · rename_i hpost
        obtain rfl := Except.ok.inj h
        exact .posted pool hpool hcalloc hpost
      · rename_i hpost
        obtain rfl := Except.ok.inj h
        exact .dropped pool hpool hcalloc (Bool.eq_false_iff.mpr hpost)

/-- The transport after the completion of a SEND, before the task is freed. -/
def HmrRdmaTransport.sendDone (t : HmrRdmaTransport) (task : HmrTask) : HmrRdmaTransport :=
  if task.taskType = .done then { t with disconnects := t.disconnects + 1 }
  else if task.taskType = .mr ∧ t.transState = .connected then { t with transState := .sconnected }
  else t

/-- The transport after the completion of a send request. -/
def HmrRdmaTransport.sendCompleted (t : HmrRdmaTransport) (task : HmrTask) :
    IbvWcOpcode → HmrRdmaTransport
  | .send => (t.sendDone task).freeTask task
  | .rdmaWrite => t.freeTask task
  | _ => t

section SendCompleted

variable (t : HmrRdmaTransport) (task : HmrTask) (opcode : IbvWcOpcode)

/-- What neither the state, the disconnects nor the freed tasks determine is left alone. -/
theorem sendCompleted_preserves {A : Type*} {f : HmrRdmaTransport → A}
    (hdone : ∀ t : HmrRdmaTransport, f { t with disconnects := t.disconnects + 1 } = f t)
    (hstate : ∀ t : HmrRdmaTransport, f { t with transState := .sconnected } = f t)
    (hfree : ∀ t : HmrRdmaTransport, f (t.freeTask task) = f t) :
    f (t.sendCompleted task opcode) = f t := by
  cases opcode with
  | send =>
    simp only [HmrRdmaTransport.sendCompleted, hfree, HmrRdmaTransport.sendDone]
    split_ifs
    · exact hdone t
    · exact hstate t
    · rfl
  | rdmaWrite => exact hfree t
  | _ => rfl

@[simp] theorem sendCompleted_normalMempool :
    (t.sendCompleted task opcode).normalMempool = t.normalMempool :=
  sendCompleted_preserves t task opcode (fun _ => rfl) (fun _ => rfl) fun _ => rfl

@[simp] theorem sendCompleted_sendTaskList :
    (t.sendCompleted task opcode).sendTaskList = t.sendTaskList :=
  sendCompleted_preserves t task opcode (fun _ => rfl) (fun _ => rfl) fun _ => rfl

@[simp] theorem sendCompleted_peerInfo : (t.sendCompleted task opcode).peerInfo = t.peerInfo :=
  sendCompleted_preserves t task opcode (fun _ => rfl) (fun _ => rfl) fun _ => rfl

@[simp] theorem sendCompleted_qp : (t.sendCompleted task opcode).qp = t.qp :=
  sendCompleted_preserves t task opcode (fun _ => rfl) (fun _ => rfl) fun _ => rfl

@[simp] theorem sendCompleted_mrsReceived :
    (t.sendCompleted task opcode).mrsReceived = t.mrsReceived :=
  sendCompleted_preserves t task opcode (fun _ => rfl) (fun _ => rfl) fun _ => rfl

@[simp] theorem sendCompleted_isClient : (t.sendCompleted task opcode).isClient = t.isClient :=
  sendCompleted_preserves t task opcode (fun _ => rfl) (fun _ => rfl) fun _ => rfl

/-- A completed send hands nothing over, and calls `rdma_disconnect` at most once, for a DONE. -/
theorem sendCompleted_receiverSide :
    (t.sendCompleted task opcode).receiverSide = t.receiverSide ∨
      opcode = .send ∧ task.taskType = .done ∧ (t.sendCompleted task opcode).receiverSide =
        (t.responses, t.processResp, t.disconnects + 1, t.qp.status) := by
  cases opcode with
  | send =>
    simp only [HmrRdmaTransport.sendCompleted, HmrRdmaTransport.sendDone]
    split_ifs with hdone hmr
    · exact .inr ⟨trivial, hdone, rfl⟩
    · exact .inl rfl
    · exact .inl rfl
  | _ => exact .inl rfl

/-- A completed send moves at most from CONNECTED to SCONNECTED. -/
theorem sendCompleted_transState :
    (t.sendCompleted task opcode).transState = t.transState ∨
      (t.transState = .connected ∧ (t.sendCompleted task opcode).transState = .sconnected) := by
  cases opcode with
  | send =>
    simp only [HmrRdmaTransport.sendCompleted, HmrRdmaTransport.freeTask, HmrRdmaTransport.sendDone]
    split_ifs with hdone hmr
    · exact .inl rfl
    · exact .inr ⟨hmr.2, rfl⟩
    · exact .inl rfl
  | _ => exact .inl rfl

end SendCompleted

/-- Without a receive, the closing handshake only counts a disconnect after a sent DONE. -/
theorem closeConnection_sent (o : Outcomes) (t : HmrRdmaTransport) (task : HmrTask)
    {opcode : IbvWcOpcode} (hopcode : opcode ≠ .recv) :
    closeConnection o t task opcode =
      .ok (if opcode = .send ∧ task.taskType = .done
        then { t with disconnects := t.disconnects + 1 } else t) := by
  simp only [closeConnection, hmrHandleCloseConnection, hopcode, false_and, if_false]
  split
  · split <;> rfl
  · rename_i hlt
    have hdone : task.taskType ≠ .done := fun h => hlt (h ▸ by decide)
    simp only [hdone, and_false, if_false]

/-- Without a receive, the MR part only moves a connected transport on after a sent MR. -/
theorem handleMr_sent (o : Outcomes) (t : HmrRdmaTransport) (task : HmrTask) (msg : HmrMsg)
    {opcode : IbvWcOpcode} (hopcode : opcode ≠ .recv) :
    handleMr o t task opcode msg =
      .ok (if opcode = .send ∧ task.taskType = .mr ∧ t.transState = .connected
        then { t with transState := .sconnected } else t) := by
  unfold handleMr
  by_cases htype : task.taskType = .mr
  · simp only [htype, ne_eq, not_true_eq_false, if_false, hopcode, true_and]
    split <;> rfl
  · simp only [htype, ne_eq, not_false_eq_true, if_true, false_and, and_false, if_false]

/-- The success handler on anything but a receive. -/
theorem hmrWcSuccessHandler_sent {o : Outcomes} {t t' : HmrRdmaTransport} {wc : IbvWc}
    (hopcode : wc.opcode ≠ .recv) (h : hmrWcSuccessHandler o t wc = .ok t') :
    t' = t.sendCompleted wc.wrId wc.opcode := by
  unfold hmrWcSuccessHandler wcSuccessBody at h
  cases hbytes : t.bufferBytes wc.wrId with
  | error stop => simp [hbytes, bind, Except.bind] at h
  | ok bytes =>
    simp only [hbytes, bind, Except.bind, hopcode, if_false, handleMr_sent o _ _ _ hopcode,
      closeConnection_sent o _ _ hopcode] at h
    cases hop : wc.opcode with
    | recv => exact absurd hop hopcode
    | send =>
      cases htype : wc.wrId.taskType <;>
        simp [hop, htype] at h <;>
        simp [HmrRdmaTransport.sendCompleted, HmrRdmaTransport.sendDone, htype, ← h]
    | rdmaWrite | rdmaRead | other =>
      cases htype : wc.wrId.taskType <;>
        simp [hop, htype] at h <;>
        simp [HmrRdmaTransport.sendCompleted, ← h]

/-- What the success handler does with a received frame before it reposts. -/
inductive RecvBody (o : Outcomes) (t : HmrRdmaTransport) (bytes : ℕ → UInt8) :
    HmrTaskType → HmrRdmaTransport → Prop
  | firstMr (pool : HmrMempool) (r : ℤ) (t' : HmrRdmaTransport)
      (hstate : t.transState = .connected) (hpool : t.normalMempool = some pool)
      (hsend : SendResult o (t.learnMr (.decode bytes)) (mrMsg pool.rdmaMr) r t') :
      RecvBody o t bytes .mr { t' with transState := .rconnected }
  | laterMr (hstate : t.transState ≠ .connected) :
      RecvBody o t bytes .mr { t.learnMr (.decode bytes) with transState := .rconnected }
  | finish (r : ℤ) (t' : HmrRdmaTransport)
      (hsend : SendResult o (t.respond .finish (.decode bytes)) closingMsg r t') :
      RecvBody o t bytes .finish t'
  | done : RecvBody o t bytes .done
      { t.respond .done (.decode bytes) with
        disconnects := (t.respond .done (.decode bytes)).disconnects + 1 }
  | plain (taskType : HmrTaskType) (hmr : taskType ≠ .mr) (hfinish : taskType ≠ .finish)
      (hdone : taskType ≠ .done) :
      RecvBody o t bytes taskType (t.respond taskType (.decode bytes))

section Respond

variable (t : HmrRdmaTransport) (taskType : HmrTaskType) (msg : HmrMsg)

/-- The message is handed over if the application takes messages, unless it is an MR. -/
theorem respond_responses : (t.respond taskType msg).responses =
    if t.processResp ∧ taskType ≠ .mr then t.responses ++ [msg] else t.responses := by
  unfold HmrRdmaTransport.respond
  split <;> rfl

/-- What the responses do not determine is left alone. -/
theorem respond_preserves {A : Type*} {f : HmrRdmaTransport → A}
    (h : ∀ (t : HmrRdmaTransport) responses, f { t with responses := responses } = f t) :
    f (t.respond taskType msg) = f t := by
  unfold HmrRdmaTransport.respond
  split
  · exact h t _
  · rfl

@[simp] theorem respond_peerInfo : (t.respond taskType msg).peerInfo = t.peerInfo :=
  respond_preserves t taskType msg fun _ _ => rfl

@[simp] theorem respond_transState : (t.respond taskType msg).transState = t.transState :=
  respond_preserves t taskType msg fun _ _ => rfl

@[simp] theorem respond_mrsReceived : (t.respond taskType msg).mrsReceived = t.mrsReceived :=
  respond_preserves t taskType msg fun _ _ => rfl

@[simp] theorem respond_normalMempool :
    (t.respond taskType msg).normalMempool = t.normalMempool :=
  respond_preserves t taskType msg fun _ _ => rfl

@[simp] theorem respond_qp : (t.respond taskType msg).qp = t.qp :=
  respond_preserves t taskType msg fun _ _ => rfl

@[simp] theorem respond_sendTaskList :
    (t.respond taskType msg).sendTaskList = t.sendTaskList :=
  respond_preserves t taskType msg fun _ _ => rfl

end Respond

section Body

variable {o : Outcomes} {t u : HmrRdmaTransport} {bytes : ℕ → UInt8} {taskType : HmrTaskType}

/-- What MRs, responses, disconnects and the program's own messages leave alone stays. -/
theorem RecvBody.preserves {A : Type*} {f : HmrRdmaTransport → A}
    (h : RecvBody o t bytes taskType u)
    (hlearn : ∀ (t : HmrRdmaTransport) msg, f (t.learnMr msg) = f t)
    (hstate : ∀ t : HmrRdmaTransport, f { t with transState := .rconnected } = f t)
    (hclose : ∀ t : HmrRdmaTransport, f { t with disconnects := t.disconnects + 1 } = f t)
    (hrespond : ∀ (t : HmrRdmaTransport) responses, f { t with responses := responses } = f t)
    (hsend : ∀ {t t' msg r}, SendResult o t msg r t' → f t' = f t) : f u = f t := by
  cases h with
  | firstMr pool r v _ _ hv => exact (hstate v).trans ((hsend hv).trans (hlearn t _))
  | laterMr => exact (hstate _).trans (hlearn t _)
  | finish r _ hu => exact (hsend hu).trans (respond_preserves t _ _ hrespond)
  | done => exact (hclose _).trans (respond_preserves t _ _ hrespond)
  | plain => exact respond_preserves t _ _ hrespond

/-- Sending the MR keeps the list. -/
theorem SendResult.list_mr {t' : HmrRdmaTransport} {mr : IbvMr} {r : ℤ}
    (h : SendResult o t (mrMsg mr) r t') : t'.sendTaskList = t.sendTaskList := by
  cases h with
  | refused => rfl
  | submitted _ _ hsubmit =>
    cases hsubmit with
    | queued pool _ htype => exact absurd rfl htype
    | _ => rfl

/-- Only a FINISH is answered through the list. -/
theorem RecvBody.list (h : RecvBody o t bytes taskType u) (hfinish : taskType ≠ .finish) :
    u.sendTaskList = t.sendTaskList := by
  cases h with
  | firstMr pool r v _ _ hsend => exact hsend.list_mr
  | laterMr => rfl
  | finish => exact absurd rfl hfinish
  | done | plain => simp

/-- Handling a frame posts no receive before the repost. -/
theorem RecvBody.rq (h : RecvBody o t bytes taskType u) : u.qp.rq = t.qp.rq :=
  h.preserves (f := fun t => t.qp.rq) (fun _ _ => rfl) (fun _ => rfl) (fun _ => rfl)
    (fun _ _ => rfl) SendResult.rq

/-- Handling a frame leaves the role alone. -/
theorem RecvBody.isClient (h : RecvBody o t bytes taskType u) : u.isClient = t.isClient :=
  h.preserves (fun _ _ => rfl) (fun _ => rfl) (fun _ => rfl) (fun _ _ => rfl) SendResult.isClient

/-- Handling a frame at most appends to the wire. -/
theorem RecvBody.wire (h : RecvBody o t bytes taskType u) : t.qp.wire <+: u.qp.wire := by
  cases h with
  | firstMr pool r v _ _ hsend => exact hsend.wire
  | laterMr => exact List.prefix_rfl
  | finish r _ hsend =>
    have hwire := hsend.wire
    rwa [respond_qp] at hwire
  | done => simp
  | plain => simp

/-- Handling a frame keeps the transport's own MR. -/
theorem RecvBody.ownMr (h : RecvBody o t bytes taskType u) : u.ownMr = t.ownMr :=
  h.preserves (fun _ _ => rfl) (fun _ => rfl) (fun _ => rfl) (fun _ _ => rfl) SendResult.ownMr

/-- Handling a frame posts no WRITE. -/
theorem RecvBody.remoteWrites (h : RecvBody o t bytes taskType u) :
    u.remoteWrites = t.remoteWrites :=
  h.preserves (fun _ _ => rfl) (fun _ => rfl) (fun _ => rfl) (fun _ _ => rfl)
    SendResult.remoteWrites

/-- Handling a frame hands its message over unless it is an MR, and closes on a DONE. -/
theorem RecvBody.receiverSide (h : RecvBody o t bytes taskType u) :
    u.receiverSide = ((t.respond taskType (.decode bytes)).responses, t.processResp,
      t.disconnects + (if taskType = .done then 1 else 0), t.qp.status) := by
  have hrespond (taskType : HmrTaskType) : (t.respond taskType (.decode bytes)).receiverSide =
      ((t.respond taskType (.decode bytes)).responses, t.processResp, t.disconnects,
        t.qp.status) := by
    unfold HmrRdmaTransport.respond
    split <;> rfl
  cases h with
  | firstMr pool r v _ _ hsend =>
    have hv : v.receiverSide = t.receiverSide := hsend.receiverSide
    simpa [HmrRdmaTransport.respond, HmrRdmaTransport.receiverSide] using hv
  | laterMr => simp [HmrRdmaTransport.respond, HmrRdmaTransport.receiverSide, HmrRdmaTransport.learnMr]
  | finish r _ hsend => simpa using hsend.receiverSide.trans (hrespond .finish)
  | done =>
    have hdone := hrespond .done
    simp only [HmrRdmaTransport.receiverSide, Prod.mk.injEq, true_and, if_true] at hdone ⊢
    exact ⟨hdone.1, by rw [hdone.2.1], hdone.2.2⟩
  | plain _ _ _ hne => simpa [hne] using hrespond taskType

/-- Handling a frame counts an MR and nothing else. -/
theorem RecvBody.mrsReceived (h : RecvBody o t bytes taskType u) :
    u.mrsReceived = t.mrsReceived + if taskType = .mr then 1 else 0 := by
  cases h with
  | firstMr pool r v _ _ hsend => exact hsend.mrsReceived
  | laterMr => rfl
  | finish r _ hsend => simp [hsend.mrsReceived]
  | done => simp
  | plain _ hmr => simp [hmr]

/-- An MR makes the state RCONNECTED, and any other frame leaves it. -/
theorem RecvBody.transState (h : RecvBody o t bytes taskType u) :
    u.transState = if taskType = .mr then .rconnected else t.transState := by
  cases h with
  | firstMr | laterMr => rfl
  | finish r _ hsend => simp [hsend.transState]
  | done => simp
  | plain _ hmr => simp [hmr]

/-- Only an MR changes what is known of the peer. -/
theorem RecvBody.peerInfo (h : RecvBody o t bytes taskType u) (htype : taskType ≠ .mr) :
    u.peerInfo = t.peerInfo := by
  cases h with
  | firstMr | laterMr => exact absurd rfl htype
  | finish r _ hsend => rw [hsend.peerInfo, respond_peerInfo]
  | done => simp
  | plain => simp

/-- An MR starts the cursor anew. -/
theorem RecvBody.cursor (h : RecvBody o t bytes .mr u) :
    u.peerInfo.usedNormalSize = 0 := by
  cases h with
  | firstMr pool r v _ _ hsend =>
    have hpeer : v.peerInfo = (t.learnMr (.decode bytes)).peerInfo := hsend.peerInfo
    exact congrArg HmrPeerInfo.usedNormalSize hpeer
  | laterMr => rfl
  | plain _ hmr => exact absurd rfl hmr

end Body

/-- The value a mapped computation returns comes from a value of the computation. -/
theorem map_eq_ok {A B : Type*} {f : A → B} {x : Except Stop A} {b : B}
    (h : x.map f = .ok b) : ∃ a, x = .ok a ∧ b = f a := by
  cases x with
  | error stop => contradiction
  | ok a => exact ⟨a, rfl, (Except.ok.inj h).symm⟩

/-- A returning sequence of two computations returned from the first. -/
theorem bind_eq_ok {A B : Type*} {x : Except Stop A} {f : A → Except Stop B} {b : B}
    (h : x.bind f = .ok b) : ∃ a, x = .ok a ∧ f a = .ok b := by
  cases x with
  | error stop => contradiction
  | ok a => exact ⟨a, rfl, h⟩

/-- What posting a receive leaves alone, the receives posted up front do. -/
theorem postRecvs_preserves {A : Type*} {f : HmrRdmaTransport → A} {o : ℕ → Outcomes} {n : ℕ}
    {t t' : HmrRdmaTransport}
    (hpost : ∀ {o t t' size}, PostRecvResult o t size t' → f t' = f t)
    (h : postRecvs o n t = .ok t') : f t' = f t := by
  induction n generalizing t' with
  | zero =>
    obtain rfl := Except.ok.inj h
    rfl
  | succ n ih =>
    obtain ⟨u, hbefore, hlast⟩ := bind_eq_ok h
    exact (hpost (hmrPostRecv_cases hlast)).trans (ih hbefore)

/-- The closing handshake on a received FINISH. -/
theorem closeConnection_finish {o : Outcomes} {t u : HmrRdmaTransport} {task : HmrTask}
    (htype : task.taskType = .finish) (h : closeConnection o t task .recv = .ok u) :
    ∃ r, SendResult o t closingMsg r u := by
  simp only [closeConnection, htype, ge_iff_le, le_refl, if_true, hmrHandleCloseConnection,
    and_self] at h
  split at h
  · obtain ⟨⟨r, v⟩, hsend, rfl⟩ := map_eq_ok h
    exact ⟨r, hmrRdmaSend_cases hsend⟩
  · contradiction

/-- The closing handshake on a received DONE. -/
theorem closeConnection_done (o : Outcomes) (t : HmrRdmaTransport) {task : HmrTask}
    (htype : task.taskType = .done) :
    closeConnection o t task .recv = .ok { t with disconnects := t.disconnects + 1 } := by
  have hge : HmrTaskType.done.toNat ≥ HmrTaskType.finish.toNat := by decide
  simp [closeConnection, hmrHandleCloseConnection, htype, hge]

/-- The closing handshake on any other received type. -/
theorem closeConnection_plain (o : Outcomes) (t : HmrRdmaTransport) {task : HmrTask}
    (hfinish : task.taskType ≠ .finish) (hdone : task.taskType ≠ .done) :
    closeConnection o t task .recv = .ok t := by
  simp [closeConnection, hmrHandleCloseConnection, hfinish, hdone]

/-- The MR part on a received MR. -/
theorem handleMr_recv {o : Outcomes} {t u : HmrRdmaTransport} {task : HmrTask}
    {bytes : ℕ → UInt8} (htype : task.taskType = .mr)
    (h : handleMr o t task .recv (.decode bytes) = .ok u) : RecvBody o t bytes .mr u := by
  simp only [handleMr, htype, ne_eq, not_true_eq_false, if_false, reduceCtorEq, false_and,
    if_true] at h
  obtain ⟨v, hexchange, hu⟩ := map_eq_ok h
  subst hu
  by_cases hstate : t.transState = .connected
  · rw [if_pos (show (t.learnMr _).transState = .connected from hstate), hmrExchangeMrInfo]
      at hexchange
    cases hpool : t.normalMempool with
    | none =>
      rw [show (t.learnMr _).normalMempool = none from hpool] at hexchange
      contradiction
    | some pool =>
      rw [show (t.learnMr _).normalMempool = some pool from hpool] at hexchange
      obtain ⟨⟨r, w⟩, hsend, hw⟩ := map_eq_ok hexchange
      subst hw
      exact .firstMr pool r v hstate hpool (hmrRdmaSend_cases hsend)
  · rw [if_neg (show ¬(t.learnMr _).transState = .connected from hstate)] at hexchange
    obtain rfl := Except.ok.inj hexchange
    exact .laterMr hstate

/-- The MR part leaves tasks of other types alone. -/
theorem handleMr_other (o : Outcomes) (t : HmrRdmaTransport) {task : HmrTask} (msg : HmrMsg)
    (opcode : IbvWcOpcode) (htype : task.taskType ≠ .mr) :
    handleMr o t task opcode msg = .ok t := by
  simp [handleMr, htype]

/-- The handshake and the MR part together, on a task of any received type. -/
theorem recvStages {o : Outcomes} {t u : HmrRdmaTransport} {task : HmrTask} {bytes : ℕ → UInt8}
    (h : (closeConnection o (t.respond task.taskType (.decode bytes)) task .recv).bind
      (fun v => handleMr o v task .recv (.decode bytes)) = .ok u) :
    RecvBody o t bytes task.taskType u := by
  by_cases hmr : task.taskType = .mr
  · have hrespond : t.respond .mr (.decode bytes) = t := by simp [HmrRdmaTransport.respond]
    rw [closeConnection_plain o _ (by simp [hmr]) (by simp [hmr]), hmr, hrespond] at h
    rw [hmr]
    exact handleMr_recv hmr h
  have hmrPart (v : HmrRdmaTransport) : handleMr o v task .recv (.decode bytes) = .ok v :=
    handleMr_other o v _ _ hmr
  by_cases hfinish : task.taskType = .finish
  · obtain ⟨v, hclose, h⟩ := bind_eq_ok h
    obtain ⟨r, hsend⟩ := closeConnection_finish hfinish hclose
    obtain rfl := Except.ok.inj ((hmrPart v).symm.trans h)
    rw [hfinish] at hsend ⊢
    exact .finish r v hsend
  by_cases hdone : task.taskType = .done
  · rw [closeConnection_done o _ hdone] at h
    obtain rfl := Except.ok.inj ((hmrPart _).symm.trans h)
    rw [hdone]
    exact .done
  · rw [closeConnection_plain o _ hfinish hdone] at h
    obtain rfl := Except.ok.inj ((hmrPart _).symm.trans h)
    exact .plain _ hmr hfinish hdone

/-- The bytes of a buffer are those of the pool at its address. -/
theorem bufferBytes_eq_ok {t : HmrRdmaTransport} {task : HmrTask} {bytes : ℕ → UInt8}
    (h : t.bufferBytes task = .ok bytes) :
    ∃ pool, t.normalMempool = some pool ∧ bytes = pool.memory.bytesAt task.sgeList.addr := by
  unfold HmrRdmaTransport.bufferBytes at h
  split at h
  · contradiction
  · rename_i pool hpool
    exact ⟨pool, hpool, (Except.ok.inj h).symm⟩

/-- The success handler on a receive: the course of the frame, then one receive of the default
size is posted. -/
theorem hmrWcSuccessHandler_recv {o : Outcomes} {t t' : HmrRdmaTransport} {task : HmrTask}
    (h : hmrWcSuccessHandler o t ⟨task, .success, .recv⟩ = .ok t') :
    ∃ pool u, t.normalMempool = some pool ∧
      RecvBody o t (pool.memory.bytesAt task.sgeList.addr)
        (receivedType (pool.memory.bytesAt task.sgeList.addr)) u ∧
      PostRecvResult o u u.defaultRecvSize t' := by
  obtain ⟨u, hbody, h⟩ := bind_eq_ok h
  obtain ⟨v, hpost, h⟩ := bind_eq_ok h
  obtain rfl := Except.ok.inj h
  obtain ⟨bytes, hbytes, hstages⟩ := bind_eq_ok hbody
  obtain ⟨pool, hpool, rfl⟩ := bufferBytes_eq_ok hbytes
  exact ⟨pool, u, hpool, recvStages hstages, hmrPostRecv_cases hpost⟩

end HmrRpc
