import HmrRpc.RemoteKey
import Mathlib.Data.List.Forall2

/-!
# Messages on their way

A two-sided message that `hmr_rdma_send` accepts is queued on `send_task_list`, posted by a
tick, under way, in the peer's completion queue, and at last handed to `process_resp`. One
party's messages pass these stages in order, so those accepted are always the ones handed
over, the ones under way and the ones queued, one after another. MR messages are posted
directly and never handed over, so they are left out of the count.

The messages under way are followed by their frames as they were encoded. Whether the buffers
still hold these when the HCA reads them is another matter, and stated where it is needed.
-/

namespace HmrRpc

open Common

/-- The message handed over is the one accepted, as far as its data goes. -/
structure SameMessage (accepted handed : HmrMsg) : Prop where
  msgType : handed.msgType = accepted.msgType
  dataSize : handed.dataSize = accepted.dataSize
  data : ∀ i < accepted.dataSize.toInt.toNat, handed.data i = accepted.data i

/-- The frame's message goes to `process_resp`. -/
def Frame.forApp (frame : Frame) : Bool := receivedType frame.byte ≠ .mr

/-- The frames whose messages do. -/
def appFrames (frames : List Frame) : List Frame := frames.filter Frame.forApp

/-- A message that is posted as a SEND and goes to the peer's `process_resp`. -/
def HmrMsg.TwoSided (msg : HmrMsg) : Prop :=
  msg.msgType ≠ .mr ∧ msg.msgType ≠ .read ∧ msg.msgType ≠ .write

instance (msg : HmrMsg) : Decidable msg.TwoSided := inferInstanceAs (Decidable (_ ∧ _))

/-- The frame a task will be posted for as a SEND, as encoded. -/
def HmrTask.encodedFrame (task : HmrTask) : Option Frame :=
  if hmrGetOpcodeFromTask task = .send then some task.frame else none

/-- The frames posted as SENDs so far, as encoded. -/
def HmrRdmaTransport.sentFrames (t : HmrRdmaTransport) : List Frame :=
  t.qp.sendLog.filterMap IbvSendWr.encodedFrame

/-- The frames on the list that will be. -/
def HmrRdmaTransport.queuedFrames (t : HmrRdmaTransport) : List Frame :=
  t.sendTaskList.filterMap HmrTask.encodedFrame

/-- The task's frame starts with its type. -/
structure HmrTask.Encoded (task : HmrTask) : Prop where
  length : sizeofMsgType ≤ task.frame.length
  taskType : receivedType task.frame.byte = task.taskType

/-- One party's messages: those accepted are those sent and those queued; of the sent ones, those
handed over and those under way; and the peer's completion queue has the first of these. -/
structure MessageFlow (accepted : List HmrMsg) (t : HmrRdmaTransport) (inbox : List Frame)
    (responses : List HmrMsg) : Prop where
  posted : ∀ wr ∈ t.qp.sendLog, wr.wrId.Encoded
  queued : ∀ task ∈ t.sendTaskList, task.Encoded ∧ task.taskType ≠ .mr
  log : accepted.map HmrMsg.frame = appFrames t.sentFrames ++ t.queuedFrames
  encoded : ∃ taken, t.sentFrames = taken ++ t.qp.encoded ∧
    (appFrames taken).length = responses.length
  handed : List.Forall₂ SameMessage (accepted.take responses.length) responses
  inbox : List.Forall₂ Frame.Carries inbox (t.qp.encoded.take inbox.length)
  outstanding : t.qp.sq.Sublist t.qp.sendLog

section Frames

variable {msg : HmrMsg} {frame encoded : Frame} {frames frames' : List Frame}

@[simp] theorem appFrames_append :
    appFrames (frames ++ frames') = appFrames frames ++ appFrames frames' :=
  List.filter_append _ _

/-- Bytes that start with an encoded message decode to it. -/
theorem sameMessage_decode {bytes : ℕ → UInt8} (h : ∀ i < msg.frame.length, bytes i = msg.frame.byte i) :
    SameMessage msg (.decode bytes) := by
  have hlength : msg.frame.length = 8 + sizeT msg.dataSize.toInt := rfl
  have hbyte (i : ℕ) (hi : i < 8 + sizeT msg.dataSize.toInt) : bytes i = msg.byte i :=
    h i (hlength ▸ hi)
  refine ⟨?_, ?_, fun i hi => ?_⟩
  · have hword : ofLeBytes bytes sizeofMsgType = msg.msgType.toNat :=
      ofLeBytes_of_eq msg.msgType.toNat_lt fun i hi => by
        rw [hbyte i (by simp only [sizeofMsgType] at hi; omega), msg.byte_type hi]
    simp only [HmrMsg.decode, hword, HmrMsgType.ofNat_toNat]
  · have hword : ofLeBytes (fun i => bytes (sizeofMsgType + i)) sizeofInt =
        msg.dataSize.toUInt32.toNat :=
      ofLeBytes_of_eq msg.dataSize.toUInt32.toNat_lt fun i hi => by
        simp only [sizeofMsgType, sizeofInt] at hi ⊢
        rw [hbyte _ (by omega), msg.byte_size hi]
    simp only [HmrMsg.decode, hword, UInt32.ofNat_toNat, Int32.toInt32_toUInt32]
  · have hsize : i < sizeT msg.dataSize.toInt := by
      unfold sizeT
      have hrange := msg.dataSize.toInt_lt
      omega
    exact (hbyte (8 + i) (by omega)).trans (msg.byte_data i)

/-- Carried frames go to `process_resp` together. -/
theorem Frame.Carries.forApp (h : frame.Carries encoded) (hlen : sizeofMsgType ≤ encoded.length) :
    frame.forApp = encoded.forApp := by
  rw [Frame.forApp, h.receivedType hlen, Frame.forApp]

/-- Those that go there are carried frames of each other. -/
theorem carries_appFrames (h : List.Forall₂ Frame.Carries frames frames')
    (hlen : ∀ frame ∈ frames', sizeofMsgType ≤ frame.length) :
    List.Forall₂ Frame.Carries (appFrames frames) (appFrames frames') := by
  induction h with
  | nil => exact .nil
  | cons hcarries _ ih =>
    have hrest := ih fun frame hframe => hlen frame (List.mem_cons_of_mem _ hframe)
    simp only [appFrames, List.filter_cons, hcarries.forApp (hlen _ (by simp))] at hrest ⊢
    split
    · exact .cons hcarries hrest
    · exact hrest

/-- A task is posted as a SEND exactly if it is neither READ nor WRITE. -/
theorem hmrGetOpcodeFromTask_eq_send {task : HmrTask} :
    hmrGetOpcodeFromTask task = .send ↔ task.taskType ≠ .read ∧ task.taskType ≠ .write := by
  unfold hmrGetOpcodeFromTask
  split <;> simp_all

/-- The loop's requests are posted for the frames of the tasks. -/
theorem fillSendWrs_encodedFrame (peer : HmrPeerInfo) (i : ℕ) (tasks : List HmrTask) :
    (fillSendWrs peer i tasks).1.map IbvSendWr.encodedFrame = tasks.map HmrTask.encodedFrame := by
  induction tasks generalizing peer i with
  | nil => rfl
  | cons task rest ih =>
    rw [fillSendWrs, List.map_cons, ih, List.map_cons]
    rfl

/-- So does the chain. -/
theorem sendChain_encodedFrame (peer : HmrPeerInfo) (tasks : List HmrTask) :
    (sendChain peer tasks).filterMap IbvSendWr.encodedFrame = tasks.filterMap HmrTask.encodedFrame := by
  apply filterMap_eq_of_map_eq
  rw [sendChain_eq, map_endChain _ (fun _ => rfl), fillSendWrs_encodedFrame]

end Frames

section Flow

variable {accepted : List HmrMsg} {t t' u : HmrRdmaTransport} {inbox : List Frame}
  {responses : List HmrMsg} {msg : HmrMsg} {o : Outcomes}

/-- No more messages have been handed over than accepted. -/
theorem MessageFlow.responses_le (h : MessageFlow accepted t inbox responses) :
    responses.length ≤ accepted.length := by
  have hlen := h.handed.length_eq
  rw [List.length_take] at hlen
  omega

/-- The completion queue has no more frames than are under way. -/
theorem MessageFlow.inbox_le (h : MessageFlow accepted t inbox responses) :
    inbox.length ≤ t.qp.encoded.length := by
  have hlen := h.inbox.length_eq
  rw [List.length_take] at hlen
  omega

/-- A step that sends nothing keeps the flow. -/
theorem MessageFlow.of_same (h : MessageFlow accepted t inbox responses)
    (hsends : t'.sendTaskList = t.sendTaskList ∧ t'.qp.underWay = t.qp.underWay ∧
      t'.qp.sendLog = t.qp.sendLog)
    (hsq : t'.qp.sq.Sublist t.qp.sq) : MessageFlow accepted t' inbox responses := by
  obtain ⟨hlist, hway, hlog⟩ := hsends
  have hwire : t'.qp.encoded = t.qp.encoded := congrArg Prod.snd hway
  have hsent : t'.sentFrames = t.sentFrames := by
    rw [HmrRdmaTransport.sentFrames, hlog, HmrRdmaTransport.sentFrames]
  have hqueued : t'.queuedFrames = t.queuedFrames := by
    rw [HmrRdmaTransport.queuedFrames, hlist, HmrRdmaTransport.queuedFrames]
  refine ⟨by rw [hlog]; exact h.posted, by rw [hlist]; exact h.queued, ?_, ?_, h.handed,
    by rw [hwire]; exact h.inbox, ?_⟩
  · rw [hsent, hqueued]
    exact h.log
  · rw [hsent, hwire]
    exact h.encoded
  · rw [hlog]
    exact hsq.trans h.outstanding

/-- Posting more requests puts their frames behind those sent. -/
theorem MessageFlow.post (h : MessageFlow accepted t inbox responses) {accepted' : List HmrMsg}
    (peer : HmrPeerInfo) (pool : Option HmrMempool) (next : ℕ) (chain : List IbvSendWr)
    (rest : List HmrTask) (hposted : ∀ wr ∈ chain, wr.wrId.Encoded)
    (hqueued : ∀ task ∈ rest, task.Encoded ∧ task.taskType ≠ .mr)
    (hlog : accepted'.map HmrMsg.frame = appFrames t.sentFrames ++
      (appFrames (chain.filterMap IbvSendWr.encodedFrame) ++ rest.filterMap HmrTask.encodedFrame))
    (hhanded : accepted'.take responses.length = accepted.take responses.length) :
    MessageFlow accepted' { HmrRdmaTransport.ibvPostSend
      { t with peerInfo := peer, normalMempool := pool, nextTask := next } chain with
        sendTaskList := rest } inbox responses := by
  have hsent : HmrRdmaTransport.sentFrames { HmrRdmaTransport.ibvPostSend
      { t with peerInfo := peer, normalMempool := pool, nextTask := next } chain with
        sendTaskList := rest } = t.sentFrames ++ chain.filterMap IbvSendWr.encodedFrame :=
    List.filterMap_append
  obtain ⟨taken, hwire, hcount⟩ := h.encoded
  refine ⟨?_, hqueued, ?_, ⟨taken, ?_, hcount⟩, ?_, ?_, h.outstanding.append (.refl chain)⟩
  · intro wr hwr
    exact (List.mem_append.mp hwr).elim (h.posted wr) (hposted wr)
  · rw [hlog, hsent, appFrames_append, List.append_assoc]
    rfl
  · rw [hsent, hwire, List.append_assoc]
    rfl
  · rw [hhanded]
    exact h.handed
  · have hpre : (t.qp.encoded ++ chain.filterMap IbvSendWr.encodedFrame).take inbox.length =
        t.qp.encoded.take inbox.length := List.take_append_of_le_length h.inbox_le
    exact hpre.symm ▸ h.inbox

/-- The task of an accepted message starts with its type. -/
theorem acceptedTask_encoded (pool : HmrMempool) (msg : HmrMsg) (id : ℕ) :
    (acceptedTask pool msg id).Encoded :=
  ⟨sizeofMsgType_le_frame msg, receivedType_frame msg⟩

/-- The task of an accepted message is posted for its frame if the message is two-sided. -/
theorem acceptedTask_encodedFrame (pool : HmrMempool) {msg : HmrMsg} (id : ℕ) (hmr : msg.msgType ≠ .mr) :
    (acceptedTask pool msg id).encodedFrame = if msg.TwoSided then some msg.frame else none := by
  have hread : (acceptedTask pool msg id).taskType = .read ↔ msg.msgType = .read :=
    HmrTaskType.ofMsgType_inj (t := .read)
  have hwrite : (acceptedTask pool msg id).taskType = .write ↔ msg.msgType = .write :=
    HmrTaskType.ofMsgType_eq_write
  simp only [HmrTask.encodedFrame, hmrGetOpcodeFromTask_eq_send, HmrMsg.TwoSided, ne_eq, hmr, hread,
    hwrite, not_false_eq_true, true_and]
  rfl

/-- Submitting a message queues it if it is two-sided. -/
theorem MessageFlow.submit (h : MessageFlow accepted t inbox responses)
    (hsubmit : SubmitResult o t msg t') :
    MessageFlow (accepted ++ if msg.TwoSided then [msg] else []) t' inbox responses := by
  have hhanded : (accepted ++ if msg.TwoSided then [msg] else []).take responses.length =
      accepted.take responses.length := List.take_append_of_le_length h.responses_le
  cases hsubmit with
  | queued pool _ htype =>
    have hposted := h.post t.peerInfo (some (pool.afterSendTask msg)) (t.nextTask + 1) []
      (t.sendTaskList ++ [acceptedTask pool msg t.nextTask]) (by simp) ?_ ?_ hhanded
    · refine hposted.of_same ⟨rfl, ?_, ?_⟩ ?_
      all_goals simp [HmrRdmaTransport.queued, HmrRdmaTransport.created, HmrRdmaTransport.ibvPostSend]
    · intro task htask
      rcases List.mem_append.mp htask with hold | hnew
      · exact h.queued task hold
      · obtain rfl := List.mem_singleton.mp hnew
        exact ⟨acceptedTask_encoded pool msg _, fun hmr => htype (HmrTaskType.ofMsgType_eq_mr.mp hmr)⟩
    · rw [List.map_append, h.log, List.append_assoc, List.filterMap_append, List.filterMap_cons,
        acceptedTask_encodedFrame pool _ htype]
      split <;> simp [appFrames, HmrRdmaTransport.queuedFrames]
  | posted pool _ htype =>
    have htwo : ¬msg.TwoSided := fun htwo => htwo.1 htype
    have hmr : (acceptedTask pool msg t.nextTask).taskType = .mr :=
      HmrTaskType.ofMsgType_eq_mr.mpr htype
    have hposted := h.post t.peerInfo (some (pool.afterSendTask msg)) (t.nextTask + 1)
      [directSendWr t.peerInfo (acceptedTask pool msg t.nextTask)] t.sendTaskList ?_ h.queued ?_
      hhanded
    · exact hposted.of_same ⟨rfl, rfl, rfl⟩ (.refl _)
    · intro wr hwr
      obtain rfl := List.mem_singleton.mp hwr
      exact acceptedTask_encoded pool msg _
    · -- an MR is not counted
      have happ : appFrames ([directSendWr t.peerInfo (acceptedTask pool msg t.nextTask)].filterMap
          IbvSendWr.encodedFrame) = [] := by
        rw [appFrames, List.filter_eq_nil_iff]
        intro frame hframe
        obtain ⟨wr, hwr, rfl⟩ := mem_encodedFrames hframe
        obtain rfl := List.mem_singleton.mp hwr
        have htaskType := (acceptedTask_encoded pool msg t.nextTask).taskType
        rw [hmr] at htaskType
        simp [Frame.forApp, directSendWr, htaskType]
      rw [happ, if_neg htwo, List.append_nil, h.log]
      rfl
  | dropped pool _ htype =>
    rw [if_neg fun htwo : msg.TwoSided => htwo.1 htype, List.append_nil]
    exact h.of_same ⟨rfl, rfl, rfl⟩ (.refl _)

/-- A tick posts what is queued, or no SEND of it. -/
theorem MessageFlow.tick {a : Option ℕ} (h : MessageFlow accepted t inbox responses)
    (htick : TickResult t a t')
    (hfail : ∀ k, a = some k → ∀ wr ∈ (sendChain t.peerInfo t.sendTaskList).take k,
      wr.opcode ≠ .send) : MessageFlow accepted t' inbox responses := by
  have hencoded {wr : IbvSendWr} (hwr : wr ∈ sendChain t.peerInfo t.sendTaskList) :
      wr.wrId.Encoded := (h.queued _ (mem_sendChain_wrId hwr)).1
  cases htick with
  | idle => exact h
  | flushed =>
    refine (h.post _ t.normalMempool t.nextTask (sendChain t.peerInfo t.sendTaskList) []
      (fun wr hwr => hencoded hwr) (by simp) ?_ rfl).of_same ⟨rfl, rfl, rfl⟩ (.refl _)
    have happ : appFrames t.queuedFrames = t.queuedFrames := by
      refine List.filter_eq_self.mpr fun frame hframe => ?_
      obtain ⟨task, htask, hsome⟩ := List.mem_filterMap.mp hframe
      obtain ⟨-, hsome⟩ := Option.ite_none_right_eq_some.mp hsome
      obtain rfl := Option.some.inj hsome
      obtain ⟨hencoded, hmr⟩ := h.queued task htask
      simpa [Frame.forApp, hencoded.taskType] using hmr
    have hqueued : t.sendTaskList.filterMap HmrTask.encodedFrame = t.queuedFrames := rfl
    rw [h.log, sendChain_encodedFrame, hqueued, happ, List.filterMap_nil, List.append_nil]
  | failed k =>
    have hnone : ((sendChain t.peerInfo t.sendTaskList).take k).filterMap IbvSendWr.encodedFrame = [] :=
      List.filterMap_eq_nil_iff.mpr fun wr hwr => if_neg (hfail k rfl wr hwr)
    refine (h.post _ t.normalMempool t.nextTask _ t.sendTaskList
      (fun wr hwr => hencoded (List.mem_of_mem_take hwr)) h.queued ?_ rfl).of_same ⟨rfl, rfl, rfl⟩
      (.refl _)
    rw [h.log, hnone]
    rfl

/-- The DONE message by which a handled frame was answered, if the list got longer. -/
def closingAnswer (t t' : HmrRdmaTransport) : List HmrMsg :=
  if t.sendTaskList.length < t'.sendTaskList.length then [closingMsg] else []

/-- There is one or none. -/
theorem closingAnswer_cases (t t' : HmrRdmaTransport) :
    closingAnswer t t' = [] ∨ closingAnswer t t' = [closingMsg] := by
  unfold closingAnswer
  split
  · exact .inr rfl
  · exact .inl rfl

/-- A step that keeps the list has not answered. -/
theorem MessageFlow.unanswered (h : MessageFlow accepted t' inbox responses)
    (hlist : t'.sendTaskList = t.sendTaskList) :
    MessageFlow (accepted ++ closingAnswer t t') t' inbox responses := by
  rwa [closingAnswer, hlist, if_neg (lt_irrefl _), List.append_nil]

/-- Sending the MR keeps the flow. -/
theorem MessageFlow.sendMr {mr : IbvMr} {r : ℤ} (h : MessageFlow accepted t inbox responses)
    (hsend : SendResult o t (mrMsg mr) r t') : MessageFlow accepted t' inbox responses := by
  cases hsend with
  | refused => exact h
  | submitted _ _ hsubmit =>
    have hflow := h.submit hsubmit
    rwa [if_neg fun htwo : (mrMsg mr).TwoSided => htwo.1 rfl, List.append_nil] at hflow

/-- Sending DONE queues it, if the state is not beyond. -/
theorem MessageFlow.sendClosing {r : ℤ} (h : MessageFlow accepted t inbox responses)
    (hsend : SendResult o t closingMsg r t') :
    MessageFlow (accepted ++ closingAnswer t t') t' inbox responses := by
  cases hsend with
  | refused => exact h.unanswered rfl
  | submitted _ _ hsubmit =>
    have hflow := h.submit hsubmit
    have htwo : closingMsg.TwoSided := by decide
    rw [if_pos htwo] at hflow
    cases hsubmit with
    | queued pool =>
      have hlonger : closingAnswer t (t.queued pool closingMsg) = [closingMsg] := by
        simp [closingAnswer, HmrRdmaTransport.queued]
      rwa [hlonger]
    | posted _ _ htype | dropped _ _ htype => exact absurd htype htwo.1

/-- Handling a frame keeps the flow of the side's own messages, with its DONE if it answers. -/
theorem MessageFlow.recvBody {bytes : ℕ → UInt8} {taskType : HmrTaskType}
    (h : MessageFlow accepted t inbox responses) (hbody : RecvBody o t bytes taskType u) :
    MessageFlow (accepted ++ closingAnswer t u) u inbox responses := by
  have hrespond (taskType : HmrTaskType) :
      MessageFlow accepted (t.respond taskType (.decode bytes)) inbox responses :=
    h.of_same (by simp) (by simp)
  cases hbody with
  | firstMr pool r v _ _ hsend =>
    have hlearn : MessageFlow accepted (t.learnMr (.decode bytes)) inbox responses :=
      h.of_same ⟨rfl, rfl, rfl⟩ (.refl _)
    exact .unanswered ((hlearn.sendMr hsend).of_same ⟨rfl, rfl, rfl⟩ (.refl _)) hsend.list_mr
  | laterMr => exact .unanswered (h.of_same ⟨rfl, rfl, rfl⟩ (.refl _)) rfl
  | finish r _ hsend =>
    have hflow := (hrespond .finish).sendClosing hsend
    rwa [closingAnswer, respond_sendTaskList] at hflow
  | done => exact .unanswered ((hrespond .done).of_same ⟨rfl, rfl, rfl⟩ (.refl _)) (by simp)
  | plain => exact .unanswered (hrespond taskType) (by simp)

/-- So does the whole receive completion. -/
theorem MessageFlow.recvComplete {frame : Frame} {status : IbvWcStatus}
    (h : MessageFlow accepted t inbox responses)
    (hstep : dataStep t (.recvComplete frame status o) = some t') :
    MessageFlow (accepted ++ closingAnswer t t') t' inbox responses := by
  cases dataStep_recvComplete hstep with
  | flushed => exact .unanswered (h.of_same ⟨rfl, rfl, rfl⟩ (.refl _)) rfl
  | received wr pool u _ _ _ hbody hrepost =>
    obtain ⟨hlist, hsq, hwire, hlog⟩ := hrepost.sends
    have hpolled : MessageFlow accepted (t.pollRecv.hcaWrite wr.sgList.addr frame) inbox responses :=
      h.of_same ⟨rfl, rfl, rfl⟩ (.refl _)
    have hanswer : closingAnswer t t' =
        closingAnswer (t.pollRecv.hcaWrite wr.sgList.addr frame) u := by
      rw [closingAnswer, hlist]
      rfl
    rw [hanswer]
    exact (hpolled.recvBody hbody).of_same ⟨hlist, hwire, hlog⟩ (by rw [hsq])

/-- A send completion keeps the flow. -/
theorem MessageFlow.sendComplete {i : ℕ} {status : IbvWcStatus}
    (h : MessageFlow accepted t inbox responses)
    (hstep : dataStep t (.sendComplete i status o) = some t') :
    MessageFlow accepted t' inbox responses := by
  obtain ⟨-, hlist, -, hqp⟩ := dataStep_sendComplete_frame hstep
  refine h.of_same ⟨hlist, by rw [hqp]; rfl, by rw [hqp]; rfl⟩ ?_
  rw [hqp]
  exact List.eraseIdx_sublist _ _

end Flow

section Delivery

variable {accepted : List HmrMsg} {t : HmrRdmaTransport} {inbox rest : List Frame}
  {responses : List HmrMsg} {frame encoded : Frame}

/-- The next frame under way may reach the completion queue. -/
theorem MessageFlow.deliver (h : MessageFlow accepted t inbox responses)
    (hnext : t.qp.encoded[inbox.length]? = some encoded) (hcarries : frame.Carries encoded) :
    MessageFlow accepted t (inbox ++ [frame]) responses := by
  refine { h with inbox := ?_ }
  have htake : t.qp.encoded.take (inbox ++ [frame]).length =
      t.qp.encoded.take inbox.length ++ [encoded] := by
    rw [List.length_append, List.length_singleton, List.take_add_one, hnext]
    rfl
  rw [htake]
  exact List.rel_append h.inbox (.cons hcarries .nil)

/-- Every frame sent has room for its type. -/
theorem MessageFlow.sent_length (h : MessageFlow accepted t inbox responses) {frame : Frame}
    (hframe : frame ∈ t.sentFrames) : sizeofMsgType ≤ frame.length := by
  obtain ⟨wr, hwr, rfl⟩ := mem_encodedFrames hframe
  exact (h.posted wr hwr).length

/-- The first frame of the completion queue carries the first under way, which starts with its
type. -/
theorem MessageFlow.first (h : MessageFlow accepted t (frame :: inbox) responses) :
    ∃ encoded rest, t.qp.encoded = encoded :: rest ∧ frame.Carries encoded ∧
      sizeofMsgType ≤ encoded.length := by
  cases hwire : t.qp.encoded with
  | nil =>
    have hle := h.inbox_le
    simp [hwire] at hle
  | cons encoded rest =>
    have hinbox := h.inbox
    simp only [hwire, List.length_cons, List.take_succ_cons, List.forall₂_cons] at hinbox
    refine ⟨encoded, rest, rfl, hinbox.1, ?_⟩
    obtain ⟨taken, hsent, -⟩ := h.encoded
    exact h.sent_length (by simp [hsent, hwire])

/-- The messages not handed over are those under way and those queued. -/
theorem MessageFlow.left (h : MessageFlow accepted t inbox responses) :
    (accepted.drop responses.length).map HmrMsg.frame =
      appFrames t.qp.encoded ++ t.queuedFrames := by
  obtain ⟨taken, hsent, hcount⟩ := h.encoded
  rw [List.map_drop, h.log, hsent, appFrames_append, List.append_assoc, ← hcount, List.drop_left]

/-- The first message under way is the first accepted one not handed over. -/
theorem MessageFlow.next (h : MessageFlow accepted t inbox responses)
    (hhead : (appFrames t.qp.encoded).head? = some encoded) :
    ∃ msg, accepted[responses.length]? = some msg ∧ msg.frame = encoded := by
  obtain ⟨rest, hwire⟩ := List.head?_eq_some_iff.mp hhead
  have hget : accepted[responses.length]?.map HmrMsg.frame = some encoded := by
    rw [← List.head?_drop, ← List.head?_map, h.left, hwire]
    rfl
  exact Option.map_eq_some_iff.mp hget

/-- The completion queue's frames that go to `process_resp` carry those under way. -/
theorem MessageFlow.inboxApp (h : MessageFlow accepted t inbox responses) :
    List.Forall₂ Frame.Carries (appFrames inbox) (appFrames (t.qp.encoded.take inbox.length)) := by
  refine carries_appFrames h.inbox fun frame hframe => h.sent_length ?_
  obtain ⟨taken, hsent, -⟩ := h.encoded
  rw [hsent]
  exact List.mem_append_right _ (List.mem_of_mem_take hframe)

/-- The next message of the completion queue is the first accepted one not handed over. -/
theorem MessageFlow.nextApp (h : MessageFlow accepted t inbox responses)
    (hhead : (appFrames inbox).head? = some frame) :
    ∃ msg, accepted[responses.length]? = some msg ∧ frame.Carries msg.frame := by
  obtain ⟨frames, hinbox⟩ := List.head?_eq_some_iff.mp hhead
  have happ := h.inboxApp
  rw [hinbox, List.forall₂_cons_left_iff] at happ
  obtain ⟨encoded, encodeds, hcarries, -, hwire⟩ := happ
  have hnext : (appFrames t.qp.encoded).head? = some encoded := by
    rw [← List.take_append_drop inbox.length t.qp.encoded, appFrames_append, hwire]
    rfl
  obtain ⟨msg, hmsg, rfl⟩ := h.next hnext
  exact ⟨msg, hmsg, hcarries⟩

/-- A message whose frame has reached the peer is handed over or in the completion queue. -/
theorem MessageFlow.reached (h : MessageFlow accepted t inbox responses) {before after : List Frame}
    (hsplit : t.sentFrames = before ++ encoded :: after) (happ : encoded.forApp)
    (hafter : t.qp.encoded.length - inbox.length ≤ after.length) :
    ∃ msg n, accepted[n]? = some msg ∧ msg.frame = encoded ∧
      n < responses.length + (appFrames inbox).length := by
  obtain ⟨taken, hsent, hcount⟩ := h.encoded
  have hget : (accepted.map HmrMsg.frame)[(appFrames before).length]? = some encoded := by
    have hhead : appFrames (encoded :: after) = encoded :: appFrames after :=
      List.filter_cons_of_pos happ
    rw [h.log, hsplit, appFrames_append, hhead]
    simp
  obtain ⟨msg, hmsg, hframe⟩ := Option.map_eq_some_iff.mp (List.getElem?_map ▸ hget)
  refine ⟨msg, (appFrames before).length, hmsg, hframe, ?_⟩
  have hlength : before.length + (after.length + 1) = taken.length + t.qp.encoded.length := by
    have hlength := congrArg List.length (hsplit.symm.trans hsent)
    simpa using hlength
  -- up to the frame, what is sent is taken or in the completion queue
  have hpre : before ++ [encoded] <+: taken ++ t.qp.encoded.take inbox.length := by
    have hbefore : before ++ [encoded] <+: t.sentFrames := ⟨after, by simp [hsplit]⟩
    refine List.prefix_of_prefix_length_le hbefore ?_ ?_
    · rw [hsent]
      exact List.prefix_append_right_inj _ |>.mpr (List.take_prefix _ _)
    · have hinbox := h.inbox_le
      rw [List.length_append, List.length_append, List.length_take, List.length_singleton]
      omega
  have hsingle : appFrames [encoded] = [encoded] := List.filter_cons_of_pos happ
  have hle : (appFrames (before ++ [encoded])).length ≤
      (appFrames (taken ++ t.qp.encoded.take inbox.length)).length :=
    (hpre.filter Frame.forApp).length_le
  rw [appFrames_append, appFrames_append, hsingle, List.length_append, List.length_append,
    List.length_singleton, hcount, ← h.inboxApp.length_eq] at hle
  exact hle

/-- Taking an MR off the wire hands nothing over. -/
theorem MessageFlow.takeMr (h : MessageFlow accepted t (frame :: inbox) responses)
    (hwire : t.qp.encoded = encoded :: rest) (hmr : encoded.forApp = false) :
    MessageFlow accepted t.wireTaken inbox responses := by
  obtain ⟨taken, hsent, hcount⟩ := h.encoded
  have hinbox := h.inbox
  simp only [hwire, List.length_cons, List.take_succ_cons, List.forall₂_cons] at hinbox
  refine ⟨h.posted, h.queued, h.log, ⟨taken ++ [encoded], ?_, ?_⟩, h.handed, ?_, h.outstanding⟩
  · rw [show t.wireTaken.qp.encoded = rest by simp [HmrRdmaTransport.wireTaken, hwire],
      List.append_assoc, List.singleton_append, ← hwire]
    exact hsent
  · simp [appFrames, hmr, ← hcount]
  · rw [show t.wireTaken.qp.encoded = rest by simp [HmrRdmaTransport.wireTaken, hwire]]
    exact hinbox.2

/-- Taking a message off it hands it over. -/
theorem MessageFlow.takeApp (h : MessageFlow accepted t (frame :: inbox) responses)
    (hwire : t.qp.encoded = encoded :: rest) (happ : encoded.forApp) {handed : HmrMsg}
    (hsame : ∀ msg : HmrMsg, msg.frame = encoded → SameMessage msg handed) :
    MessageFlow accepted t.wireTaken inbox (responses ++ [handed]) := by
  obtain ⟨taken, hsent, hcount⟩ := h.encoded
  have hhead : (appFrames t.qp.encoded).head? = some encoded := by simp [appFrames, hwire, happ]
  obtain ⟨msg, hmsg, hframe⟩ := h.next hhead
  have hinbox := h.inbox
  simp only [hwire, List.length_cons, List.take_succ_cons, List.forall₂_cons] at hinbox
  refine ⟨h.posted, h.queued, h.log, ⟨taken ++ [encoded], ?_, ?_⟩, ?_, ?_, h.outstanding⟩
  · rw [show t.wireTaken.qp.encoded = rest by simp [HmrRdmaTransport.wireTaken, hwire],
      List.append_assoc, List.singleton_append, ← hwire]
    exact hsent
  · simp [appFrames, happ, ← hcount]
  · rw [List.length_append, List.length_singleton, List.take_add_one, hmsg]
    exact List.rel_append h.handed (.cons (hsame msg hframe) .nil)
  · rw [show t.wireTaken.qp.encoded = rest by simp [HmrRdmaTransport.wireTaken, hwire]]
    exact hinbox.2

end Delivery

end HmrRpc
