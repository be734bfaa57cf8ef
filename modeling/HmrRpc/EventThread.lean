import HmrRpc.Session
import HmrRpc.ConnectAttempt
import HmrRpc.MrExchange

/-!
# The event thread does not wait for itself

Handlers on the event thread call `hmr_rdma_send`, which spins until the state is a connected
one. Only this thread makes it one, so such a call must find it. The client's calls follow its
ESTABLISHED event. The server makes none before a message arrives, receives only behind the
accepting thread's store of CONNECTING, and the first message to arrive is the client's MR,
which is not answered unless the state is CONNECTED and leaves RCONNECTED behind.
-/

namespace HmrRpc

open Common

/-- The call does not end in the busy-wait. -/
def Unblocked {A : Type*} (call : Except Stop A) : Prop := call ≠ .error .spins

section Unblocked

variable {A B : Type*} {o : Outcomes} {t : HmrRdmaTransport} {msg : HmrMsg}

/-- A call that returns does not block. -/
theorem unblocked_ok (a : A) : Unblocked (.ok a) := by simp [Unblocked]

/-- Neither does one that crashes. -/
theorem unblocked_error {stop : Stop} (h : stop ≠ .spins) :
    Unblocked (.error stop : Except Stop A) :=
  fun hspins => h (Except.error.inj hspins)

/-- A sequence of calls that do not block does not. -/
theorem Unblocked.bind {call : Except Stop A} {f : A → Except Stop B} (h : Unblocked call)
    (hf : ∀ a, call = .ok a → Unblocked (f a)) : Unblocked (call.bind f) := by
  cases call with
  | error stop => exact fun hspins => h (congrArg _ (Except.error.inj hspins))
  | ok a => exact hf a rfl

/-- Neither does one with its value mapped. -/
theorem Unblocked.map {call : Except Stop A} {f : A → B} (h : Unblocked call) :
    Unblocked (call.map f) := by
  cases call with
  | error stop => exact fun hspins => h (congrArg _ (Except.error.inj hspins))
  | ok a => exact unblocked_ok _

/-- A connected state, or one beyond. -/
def HmrRdmaTransport.EndsWait (t : HmrRdmaTransport) : Prop := t.transState.sendable ∨ t.Beyond

/-- It ends the wait for every message but READ and WRITE. -/
theorem hmrMsgCheck_unblocked (h : t.EndsWait) (hread : msg.msgType ≠ .read)
    (hwrite : msg.msgType ≠ .write) : Unblocked (hmrMsgCheck t msg) := by
  rcases h with hsendable | hbeyond
  · have hready : hmrMsgReady t msg := by
      simpa [hmrMsgReady, hread, hwrite, HmrRdmaTransportState.sendable] using hsendable
    rw [hmrMsgCheck_eq_zero.mpr hready]
    exact unblocked_ok _
  · rw [hmrMsgCheck_of_beyond hbeyond]
    exact unblocked_ok _

/-- `hmr_rdma_send` waits nowhere else. -/
theorem hmrRdmaSend_unblocked (h : Unblocked (hmrMsgCheck t msg)) :
    Unblocked (hmrRdmaSend o t msg) := by
  unfold hmrRdmaSend
  cases hcheck : hmrMsgCheck t msg with
  | error stop => exact fun hspins => h (hcheck.trans (congrArg _ (Except.error.inj hspins)))
  | ok err =>
    simp only [submitMsg, hmrSendTaskCreate]
    by_cases herr : err = 0
    · cases hcalloc : o.sendCalloc <;> cases hpool : t.normalMempool <;>
        simp [herr, Unblocked]
      split_ifs <;> simp
    · simp [herr, Unblocked]

/-- `hmr_post_recv` waits for nothing. -/
theorem hmrPostRecv_unblocked (size : ℤ) : Unblocked (hmrPostRecv o t size) := by
  unfold hmrPostRecv hmrRecvTaskCreate
  cases o.recvCalloc <;> cases t.normalMempool <;> simp [Unblocked]

/-- `hmr_exchange_mr_info` waits for a state that ends the wait. -/
theorem hmrExchangeMrInfo_unblocked (h : t.EndsWait) : Unblocked (hmrExchangeMrInfo o t) := by
  unfold hmrExchangeMrInfo
  cases t.normalMempool with
  | none => exact unblocked_error (by decide)
  | some pool =>
    exact (hmrRdmaSend_unblocked (hmrMsgCheck_unblocked h (by simp [mrMsg]) (by simp [mrMsg]))).map

/-- The MR part of the success handler sends in CONNECTED only. -/
theorem handleMr_unblocked (task : HmrTask) (opcode : IbvWcOpcode) :
    Unblocked (handleMr o t task opcode msg) := by
  unfold handleMr
  split_ifs
  · exact unblocked_ok _
  · exact unblocked_ok _
  · refine Unblocked.map ?_
    split_ifs with hstate
    · exact hmrExchangeMrInfo_unblocked (.inl (.inl hstate))
    · exact unblocked_ok _
  · exact unblocked_ok _

/-- The closing part waits only to answer a received FINISH. -/
theorem closeConnection_unblocked {task : HmrTask} {opcode : IbvWcOpcode}
    (h : opcode = .recv → task.taskType = .finish → t.EndsWait) :
    Unblocked (closeConnection o t task opcode) := by
  unfold closeConnection hmrHandleCloseConnection
  split_ifs with _ hfinish
  · have hends := h hfinish.1 hfinish.2
    exact (hmrRdmaSend_unblocked (hmrMsgCheck_unblocked hends (by simp [closingMsg])
      (by simp [closingMsg]))).map
  · exact unblocked_error (by decide)
  all_goals exact unblocked_ok _

/-- So does the success handler. -/
theorem hmrWcSuccessHandler_unblocked {wc : IbvWc}
    (h : wc.opcode = .recv → ∀ pool, t.normalMempool = some pool →
      receivedType (pool.memory.bytesAt wc.wrId.sgeList.addr) = .finish → t.EndsWait) :
    Unblocked (hmrWcSuccessHandler o t wc) := by
  have hreads : Unblocked (t.bufferBytes wc.wrId) := by
    unfold HmrRdmaTransport.bufferBytes
    cases t.normalMempool with
    | none => exact unblocked_error (by decide)
    | some _ => exact unblocked_ok _
  refine Unblocked.bind (hreads.bind fun bytes hbytes => ?_) fun u _ => ?_
  · refine Unblocked.bind (closeConnection_unblocked fun hopcode htype => ?_) fun v _ =>
      handleMr_unblocked _ _
    simp only [hopcode, if_true] at htype ⊢
    obtain ⟨pool, hpool, rfl⟩ := bufferBytes_eq_ok hbytes
    have hends := h hopcode pool hpool htype
    simpa [HmrRdmaTransport.EndsWait, HmrRdmaTransport.Beyond] using hends
  · by_cases hopcode : wc.opcode = .recv
    · simp only [hopcode, if_true]
      exact (hmrPostRecv_unblocked _).bind fun _ _ => unblocked_ok _
    · simp only [hopcode, if_false]
      exact unblocked_ok _

end Unblocked

/-- A frame that can reach the side: the first of its peer's wire, at the client only behind its
ESTABLISHED event. -/
structure MayReach (c : Connection) (s : Side) (frame : Frame) : Prop where
  first : (c.trans s.peer).qp.wire.head? = some frame
  established : s = .client → (c.ends .client).established = .handled

/-- The transport a received frame is handled in. -/
def Connection.received (c : Connection) (s : Side) (wr : IbvRecvWr) (frame : Frame) :
    HmrRdmaTransport :=
  (c.trans s).pollRecv.hcaWrite wr.sgList.addr frame

/-- The calls the event thread may make next. -/
inductive HandlerCall (c : Connection) : Except Stop HmrRdmaTransport → Prop
  | established (s : Side) (o : Outcomes) (hpending : (c.ends s).established = .pending) :
      HandlerCall c (onCmEstablished o (c.trans s))
  | disconnected (s : Side) : HandlerCall c (onCmDisconnected (c.trans s))
  | timer (s : Side) (accepted : Option ℕ) : HandlerCall c (hmrSendTaskHandler accepted (c.trans s))
  | sent (s : Side) (i : ℕ) (wr : IbvSendWr) (status : IbvWcStatus) (o : Outcomes)
      (hwr : (c.trans s).qp.sq[i]? = some wr) :
      HandlerCall c (handleWc o ((c.trans s).pollSend i) ⟨wr.wrId, status, wr.opcode.wcOpcode⟩)
  | received (s : Side) (frame : Frame) (wr : IbvRecvWr) (o : Outcomes)
      (hreach : MayReach c s frame) (hwr : (c.trans s).qp.rq.head? = some wr) :
      HandlerCall c (handleWc o (c.received s wr frame) ⟨wr.wrId, .success, .recv⟩)
  | recvFailed (s : Side) (wr : IbvRecvWr) (status : IbvWcStatus) (o : Outcomes)
      (hstatus : status ≠ .success) (hwr : (c.trans s).qp.rq.head? = some wr) :
      HandlerCall c (handleWc o (c.trans s).pollRecv ⟨wr.wrId, status, .recv⟩)

/-- The calls of `hmr_rdma_send` in them, with the transport as each finds it. -/
inductive EventThreadSend (c : Connection) : HmrRdmaTransport → HmrMsg → Prop
  | established (s : Side) (pool : HmrMempool) (hpending : (c.ends s).established = .pending)
      (hclient : (c.trans s).isClient) (hpool : (c.trans s).normalMempool = some pool) :
      EventThreadSend c { c.trans s with transState := .connected } (mrMsg pool.rdmaMr)
  | exchange (s : Side) (frame : Frame) (wr : IbvRecvWr) (pool : HmrMempool)
      (hreach : MayReach c s frame) (hwr : (c.trans s).qp.rq.head? = some wr)
      (hpool : (c.received s wr frame).normalMempool = some pool)
      (htype : receivedType (pool.memory.bytesAt wr.wrId.sgeList.addr) = .mr)
      (hstate : (c.trans s).transState = .connected) :
      EventThreadSend c ((c.received s wr frame).learnMr
        (.decode (pool.memory.bytesAt wr.wrId.sgeList.addr))) (mrMsg pool.rdmaMr)
  | closing (s : Side) (frame : Frame) (wr : IbvRecvWr) (pool : HmrMempool)
      (hreach : MayReach c s frame) (hwr : (c.trans s).qp.rq.head? = some wr)
      (hpool : (c.received s wr frame).normalMempool = some pool)
      (htype : receivedType (pool.memory.bytesAt wr.wrId.sgeList.addr) = .finish) :
      EventThreadSend c ((c.received s wr frame).respond .finish
        (.decode (pool.memory.bytesAt wr.wrId.sgeList.addr))) closingMsg

/-- Every call of `hmr_rdma_send` on the event thread finds a state that ends its wait, and no
handler waits anywhere. -/
structure EventThreadRuns (c : Connection) : Prop where
  finds : ∀ t msg, EventThreadSend c t msg → t.EndsWait
  returns : ∀ call, HandlerCall c call → Unblocked call

/-- The application sends no MR message, and the post of the client's MR succeeds. -/
def SessionEvent.Exchanges : SessionEvent → Prop
  | .conn (.established _ o) => o.sendPost
  | e => e.AppSends

/-- What each party can be in: the client sends nothing before its ESTABLISHED event and is
connected behind it, and the server's first message is the client's MR. -/
structure PromptConnection (c : Connection) : Prop where
  sound : SoundConnection c
  waiting : c.accept = .waiting → (c.ends .client).established = .absent
  isClient : (c.trans .client).isClient
  silent : (c.ends .client).established ≠ .handled → (c.trans .client).transState = .connecting ∧
    (c.trans .client).sendTaskList = [] ∧ (c.ends .client).checked = [] ∧
    (c.trans .client).qp.wire = []
  client : (c.ends .client).established = .handled → (c.trans .client).transState.sendable
  unposted : (∀ left, c.accept ≠ .posting left) → (c.trans .server).mrsReceived = 0
  first : (c.ends .client).established = .handled → (c.trans .server).mrsReceived = 0 →
    ∃ frame, (c.trans .client).qp.wire.head? = some frame ∧ frame.IsMr
  server : 0 < (c.trans .server).mrsReceived → (c.trans .server).transState.sendable

/-- A step of one party that handles neither its ESTABLISHED event nor an MR. -/
structure Continues (e e' : Endpoint) : Prop where
  established : e'.established = e.established
  isClient : e'.trans.isClient = e.trans.isClient
  mrs : e'.trans.mrsReceived = e.trans.mrsReceived
  state : e'.trans.transState = e.trans.transState ∨
    (e.trans.transState.sendable ∧ e'.trans.transState.sendable)
  wire : e.trans.qp.wire <+: e'.trans.qp.wire
  silent : ¬e.trans.transState.sendable → e.trans.sendTaskList = [] → e.checked = [] →
    e'.trans.sendTaskList = [] ∧ e'.checked = [] ∧ e'.trans.qp.wire = e.trans.qp.wire

section Continues

variable {e : Endpoint} {t : HmrRdmaTransport} {o : Outcomes}

/-- Connected states stay connected. -/
theorem Continues.sendable {e' : Endpoint} (h : Continues e e') (hs : e.trans.transState.sendable) :
    e'.trans.transState.sendable := by
  rcases h.state with heq | ⟨-, hafter⟩
  · rwa [heq]
  · exact hafter

/-- A step that sends nothing and keeps the state. -/
theorem Continues.of_same (hrole : t.isClient = e.trans.isClient)
    (hmrs : t.mrsReceived = e.trans.mrsReceived) (hstate : t.transState = e.trans.transState)
    (hsends : t.sendTaskList = e.trans.sendTaskList ∧ t.qp.wire = e.trans.qp.wire) :
    Continues e { e with trans := t } :=
  ⟨rfl, hrole, hmrs, .inl hstate, by rw [hsends.2],
    fun _ hlist hchecked => ⟨hsends.1.trans hlist, hchecked, hsends.2⟩⟩

/-- A send completion is such a step. -/
theorem Continues.sendComplete {i : ℕ} {status : IbvWcStatus}
    (hdata : dataStep e.trans (.sendComplete i status o) = some t) :
    Continues e { e with trans := t } := by
  obtain ⟨-, hlist, -, hqp⟩ := dataStep_sendComplete_frame hdata
  obtain ⟨hrole, hmrs, hstate⟩ := dataStep_sendComplete_state hdata
  have hwire : t.qp.wire = e.trans.qp.wire := by
    rw [hqp]
    rfl
  refine ⟨rfl, hrole, hmrs, ?_, by rw [hwire],
    fun _ hnil hchecked => ⟨hlist.trans hnil, hchecked, hwire⟩⟩
  rcases hstate with heq | ⟨hbefore, hafter⟩
  · exact .inl heq
  · exact .inr ⟨.inl hbefore, .inr (.inl hafter)⟩

/-- So is a tick. -/
theorem Continues.tick {a : Option ℕ} (hdata : dataStep e.trans (.tick a) = some t) :
    Continues e { e with trans := t } := by
  refine ⟨rfl, dataStep_isClient hdata, ?_, .inl ?_, dataStep_wire hdata,
    fun _ hnil hchecked => ?_⟩
  · cases dataStep_tick hdata <;> rfl
  · cases dataStep_tick hdata <;> rfl
  · cases dataStep_tick hdata with
    | idle => exact ⟨hnil, hchecked, rfl⟩
    | flushed hne | failed k hne => exact absurd hnil hne

/-- So is a receive that failed. -/
theorem Continues.recvFail {frame : Frame} {status : IbvWcStatus} (hstatus : status ≠ .success)
    (hdata : dataStep e.trans (.recvComplete frame status o) = some t) :
    Continues e { e with trans := t } := by
  cases dataStep_recvComplete hdata with
  | flushed => exact .of_same rfl rfl rfl ⟨rfl, rfl⟩
  | received => contradiction

/-- So is an application call that passes its check, in a connected state. -/
theorem Continues.check {msg : HmrMsg} (hready : hmrMsgReady e.trans msg) :
    Continues e { e with checked := e.checked ++ [msg] } := by
  refine ⟨rfl, rfl, rfl, .inl rfl, List.prefix_rfl, fun hnot => absurd ?_ hnot⟩
  unfold hmrMsgReady at hready
  split at hready
  · simpa [HmrRdmaTransportState.sendable] using hready
  · exact .inr (.inr (of_decide_eq_true hready))

/-- So is the submission of its message. -/
theorem Continues.submit {i : ℕ} {msg : HmrMsg} (hmsg : e.checked[i]? = some msg)
    (hsubmit : SubmitResult o e.trans msg t) :
    Continues e { e with trans := t, checked := e.checked.eraseIdx i } := by
  refine ⟨rfl, hsubmit.isClient, hsubmit.mrsReceived, .inl hsubmit.transState, hsubmit.wire,
    fun _ _ hchecked => ?_⟩
  rw [hchecked] at hmsg
  contradiction

end Continues

/-- A frame at the head of a wire stays there while the wire grows. -/
theorem head?_of_prefix {wire wire' : List Frame} {frame : Frame} (h : wire <+: wire')
    (hhead : wire.head? = some frame) : wire'.head? = some frame := by
  obtain ⟨rest, rfl⟩ := h
  rw [List.head?_append, hhead, Option.some_or]

section Prompt

variable {c c' : Connection} {s : Side}

/-- A step of one party that only continues keeps the invariant. -/
theorem PromptConnection.setEnd (h : PromptConnection c) {e : Endpoint}
    (hsound : SoundConnection (c.setEnd s e)) (hcont : Continues (c.ends s) e) :
    PromptConnection (c.setEnd s e) := by
  cases s with
  | server =>
    have hmrs : e.trans.mrsReceived = (c.trans .server).mrsReceived := hcont.mrs
    refine ⟨hsound, h.waiting, h.isClient, h.silent, h.client, fun hphase => ?_,
      fun hhandled hzero => h.first hhandled (hmrs ▸ hzero), fun hpos => ?_⟩
    · exact hmrs.trans (h.unposted hphase)
    · exact hcont.sendable (h.server (hmrs ▸ hpos))
  | client =>
    have hestablished : e.established = (c.ends .client).established := hcont.established
    refine ⟨hsound, fun hphase => hestablished ▸ h.waiting hphase,
      hcont.isClient.trans h.isClient, fun hne => ?_,
      fun hhandled => hcont.sendable (h.client (hestablished ▸ hhandled)), h.unposted,
      fun hhandled hzero => ?_, h.server⟩
    · obtain ⟨hstate, hlist, hchecked, hwire⟩ := h.silent (hestablished ▸ hne)
      have hnot : ¬(c.trans .client).transState.sendable := by
        simp [hstate, HmrRdmaTransportState.sendable]
      obtain ⟨hlist', hchecked', hwire'⟩ := hcont.silent hnot hlist hchecked
      have hsame := hcont.state.resolve_right fun hor => hnot hor.1
      exact ⟨hsame.trans hstate, hlist', hchecked', hwire'.trans hwire⟩
    · obtain ⟨frame, hhead, hmr⟩ := h.first (hestablished ▸ hhandled) hzero
      exact ⟨frame, head?_of_prefix hcont.wire hhead, hmr⟩

/-- The client's ESTABLISHED event puts its MR first on its wire. -/
theorem PromptConnection.clientEstablished (h : PromptConnection c) {o : Outcomes}
    {t : HmrRdmaTransport} (hpost : o.sendPost) (hpending : (c.ends .client).established = .pending)
    (hphase : c.accept ≠ .waiting) (hhandler : onCmEstablished o (c.trans .client) = .ok t)
    (hsound : SoundConnection
      (c.setEnd .client { c.ends .client with trans := t, established := .handled })) :
    PromptConnection
      (c.setEnd .client { c.ends .client with trans := t, established := .handled }) := by
  have hsent := onCmEstablished_sent hhandler hpost
  refine ⟨hsound, fun hwaiting => absurd hwaiting hphase, hsent.role.trans h.isClient,
    fun hne => absurd rfl hne, fun _ => .inl (onCmEstablished_frame hhandler).1, h.unposted,
    fun _ _ => ?_, h.server⟩
  obtain ⟨-, -, -, hempty⟩ := h.silent (by simp [hpending])
  obtain ⟨frames, hlen, htype, hwire⟩ := hsent.wire
  rw [if_pos h.isClient] at hlen
  obtain ⟨frame, rfl⟩ := List.length_eq_one_iff.mp hlen
  rw [hempty, List.nil_append] at hwire
  exact ⟨frame, congrArg List.head? hwire, htype frame (by simp)⟩

/-- The server's makes it connected. -/
theorem PromptConnection.serverEstablished (h : PromptConnection c) {o : Outcomes}
    {t : HmrRdmaTransport} (hhandler : onCmEstablished o (c.trans .server) = .ok t)
    (hsound : SoundConnection
      (c.setEnd .server { c.ends .server with trans := t, established := .handled })) :
    PromptConnection
      (c.setEnd .server { c.ends .server with trans := t, established := .handled }) := by
  obtain ⟨hstate, -, -, hmrs⟩ := onCmEstablished_frame hhandler
  exact ⟨hsound, h.waiting, h.isClient, h.silent, h.client, fun hphase => hmrs.trans (h.unposted hphase),
    fun hhandled hzero => h.first hhandled (hmrs.symm.trans hzero), fun _ => .inl hstate⟩

/-- A receive that succeeds found a pool, and keeps a connected state. -/
theorem recvComplete_sendable {t t' : HmrRdmaTransport} {o : Outcomes} {frame : Frame}
    (hdata : dataStep t (.recvComplete frame .success o) = some t') :
    t.ownMr ≠ none ∧ (t.transState.sendable → t'.transState.sendable) := by
  cases dataStep_recvComplete hdata with
  | flushed _ _ _ hstatus => exact absurd rfl hstatus
  | received wr pool u _ hhead hpool hbody hrepost =>
    constructor
    · obtain ⟨pool', hown, -⟩ := Option.map_eq_some_iff.mp hpool
      have hown : t.normalMempool = some pool' := hown
      simp [HmrRdmaTransport.ownMr, hown]
    · intro hsendable
      rw [hrepost.transState, hbody.transState]
      split
      · exact .inr (.inr rfl)
      · exact hsendable

/-- A message that reaches the client leaves it connected. -/
theorem PromptConnection.clientReceived (h : PromptConnection c) {o : Outcomes} {frame : Frame}
    {t : HmrRdmaTransport} (hhandled : (c.ends .client).established = .handled)
    (hdata : dataStep (c.trans .client) (.recvComplete frame .success o) = some t)
    (hsound : SoundConnection
      ((c.setTrans .client t).setTrans .server (c.trans .server).wireTaken)) :
    PromptConnection ((c.setTrans .client t).setTrans .server (c.trans .server).wireTaken) := by
  refine ⟨hsound, h.waiting, (dataStep_isClient hdata).trans h.isClient,
    fun hne => absurd hhandled hne,
    fun _ => (recvComplete_sendable hdata).2 (h.client hhandled), h.unposted,
    fun _ hzero => ?_, h.server⟩
  obtain ⟨first, hhead, htype⟩ := h.first hhandled hzero
  exact ⟨first, head?_of_prefix (dataStep_wire hdata) hhead, htype⟩

/-- A message that reaches the server leaves it connected, as the first one is the client's MR. -/
theorem PromptConnection.serverReceived (h : PromptConnection c) {o : Outcomes} {frame : Frame}
    {t : HmrRdmaTransport} (hframe : (c.trans .client).qp.wire.head? = some frame)
    (hdata : dataStep (c.trans .server) (.recvComplete frame .success o) = some t)
    (hsound : SoundConnection
      ((c.setTrans .server t).setTrans .client (c.trans .client).wireTaken)) :
    PromptConnection ((c.setTrans .server t).setTrans .client (c.trans .client).wireTaken) := by
  have hhandled : (c.ends .client).established = .handled := by
    by_contra hne
    obtain ⟨-, -, -, hempty⟩ := h.silent hne
    simp [hempty] at hframe
  obtain ⟨hpool, hsendable⟩ := recvComplete_sendable hdata
  have hposting : ¬∀ left, c.accept ≠ .posting left := fun hne => hpool (h.sound.pool hne)
  have hdone : 0 < t.mrsReceived ∧ t.transState.sendable := by
    rcases Nat.eq_zero_or_pos (c.trans .server).mrsReceived with hzero | hpos
    · -- nothing has arrived yet, so this is the client's MR
      obtain ⟨first, hhead, hlen, htype⟩ := h.first hhandled hzero
      obtain rfl := Option.some.inj (hhead.symm.trans hframe)
      obtain ⟨addr, pool, u, -, hbody, hrepost⟩ :=
        dataStep_received (h.sound.recvs .server) hlen hdata
      rw [htype] at hbody
      rw [hrepost.mrsReceived, hrepost.transState, hbody.mrsReceived, hbody.transState]
      exact ⟨Nat.succ_pos _, .inr (.inr rfl)⟩
    · exact ⟨hpos.trans_le (dataStep_mrsReceived_le hdata), hsendable (h.server hpos)⟩
  exact ⟨hsound, h.waiting, h.isClient, fun hne => absurd hhandled hne, h.client,
    fun hphase => absurd hphase hposting, fun _ hzero => absurd hzero hdone.1.ne',
    fun _ => hdone.2⟩

/-- Every event keeps the invariant. -/
theorem PromptConnection.step {e : SessionEvent} (h : PromptConnection c) (hsends : e.Exchanges)
    (hfirst : ClientFirst c e) (hstep : sessionStep c e = some c') : PromptConnection c' := by
  have hsound : SoundConnection c' := h.sound.session hstep
  cases sessionStep_cases hstep with
  | disconnected s t hhandler =>
    obtain rfl := onCmDisconnected_eq hhandler
    exact h.setEnd hsound (.of_same rfl rfl rfl ⟨rfl, rfl⟩)
  | conn e _ hstep =>
    cases connectionStep_cases hstep with
    | established s o t hpending hhandler =>
      cases s with
      | client =>
        exact h.clientEstablished hsends hpending
          (fun hphase => by simp [h.waiting hphase] at hpending) hhandler hsound
      | server => exact h.serverEstablished hhandler hsound
    | sendComplete s i status o t hdata => exact h.setEnd hsound (.sendComplete hdata)
    | recvComplete s o frame t hframe hdata =>
      cases s with
      | client => exact h.clientReceived hfirst hdata hsound
      | server => exact h.serverReceived hframe hdata hsound
    | recvFail s status o t hstatus hdata => exact h.setEnd hsound (.recvFail hstatus hdata)
    | tick s a t hdata => exact h.setEnd hsound (.tick hdata)
    | check s msg hready => exact h.setEnd hsound (.check hready)
    | submit s i o msg t hmsg hsubmit => exact h.setEnd hsound (.submit hmsg hsubmit)
    | accept hphase =>
      have hne : (c.ends .client).established ≠ .handled := by simp [h.waiting hphase]
      exact ⟨hsound, nofun, h.isClient, fun _ => h.silent hne, nofun,
        fun _ => h.unposted (by simp [hphase]), nofun, h.server⟩
    | acceptConnecting hphase =>
      have hzero := h.unposted (by simp [hphase])
      exact ⟨hsound, nofun, h.isClient, h.silent, h.client, fun _ => hzero, h.first,
        fun hpos => absurd hzero hpos.ne'⟩
    | acceptMempool m hphase =>
      exact ⟨hsound, nofun, h.isClient, h.silent, h.client, fun hne => absurd rfl (hne _), h.first,
        h.server⟩
    | acceptPost o left t hphase hpost =>
      have hmrs : t.mrsReceived = (c.trans .server).mrsReceived := hpost.mrsReceived
      exact ⟨hsound, nofun, h.isClient, h.silent, h.client, fun hne => absurd rfl (hne _),
        fun hhandled hzero => h.first hhandled (hmrs.symm.trans hzero),
        fun hpos => hpost.transState ▸ h.server (hmrs ▸ hpos)⟩

/-- A FINISH that reaches a party finds it connected. -/
theorem PromptConnection.finish (h : PromptConnection c) {frame : Frame} {wr : IbvRecvWr}
    {pool : HmrMempool} (hreach : MayReach c s frame) (hwr : (c.trans s).qp.rq.head? = some wr)
    (hpool : (c.received s wr frame).normalMempool = some pool)
    (htype : receivedType (pool.memory.bytesAt wr.wrId.sgeList.addr) = .finish) :
    (c.trans s).transState.sendable := by
  cases s with
  | client => exact h.client (hreach.established rfl)
  | server =>
    have hfirst : (c.trans .client).qp.wire.head? = some frame := hreach.first
    have hhandled : (c.ends .client).established = .handled := by
      by_contra hne
      obtain ⟨-, -, -, hempty⟩ := h.silent hne
      simp [hempty] at hfirst
    apply h.server
    apply Nat.pos_of_ne_zero
    intro hzero
    obtain ⟨first, hhead, hlen, hmr⟩ := h.first hhandled hzero
    obtain rfl := Option.some.inj (hhead.symm.trans hfirst)
    have hmatch := h.sound.recvs .server wr (List.mem_of_mem_head? hwr)
    rw [receivedType_of_match hmatch hpool hlen, hmr] at htype
    contradiction

/-- So no call on the event thread waits. -/
theorem PromptConnection.runs (h : PromptConnection c) : EventThreadRuns c where
  finds t msg hsend := by
    cases hsend with
    | established => exact .inl (.inl rfl)
    | exchange s frame wr pool _ _ _ _ hstate => exact .inl (.inl hstate)
    | closing s frame wr pool hreach hwr hpool htype =>
      refine .inl ?_
      rw [respond_transState]
      exact h.finish hreach hwr hpool htype
  returns call hcall := by
    cases hcall with
    | established s o hpending =>
      unfold onCmEstablished
      simp only
      split
      · exact hmrExchangeMrInfo_unblocked (.inl (.inl rfl))
      · exact unblocked_ok _
    | disconnected s =>
      unfold onCmDisconnected
      split
      · exact unblocked_error (by decide)
      · exact unblocked_ok _
    | timer s accepted =>
      unfold hmrSendTaskHandler
      split_ifs
      · exact unblocked_ok _
      · exact unblocked_error (by decide)
      · cases accepted <;> exact unblocked_ok _
    | sent s i wr status o hwr =>
      unfold handleWc
      split
      · exact hmrWcSuccessHandler_unblocked fun hopcode => absurd hopcode (wcOpcode_ne_recv _)
      · exact unblocked_ok _
    | received s frame wr o hreach hwr =>
      refine hmrWcSuccessHandler_unblocked fun _ pool hpool htype => .inl ?_
      exact h.finish hreach hwr hpool htype
    | recvFailed s wr status o hstatus hwr =>
      rw [handleWc, if_neg hstatus]
      exact unblocked_ok _

/-- A connection that starts has the invariant. -/
theorem Connection.Starts.prompt (h : c.Starts) : PromptConnection c where
  sound := h.sound
  waiting _ := h.established .client
  isClient := h.client.1
  silent _ := ⟨h.client.2, (h.unused .client).list, h.checked .client, (h.unused .client).wire⟩
  client hhandled := by simp [h.established .client] at hhandled
  unposted _ := (h.unused .server).mrs
  first hhandled := by simp [h.established .client] at hhandled
  server hpos := absurd (h.unused .server).mrs hpos.ne'

/-- The event thread never waits for itself in any state of any run in which the client's MR is
posted, the application sends none, and the client handles ESTABLISHED first. -/
theorem eventThreadRuns_run {events : List SessionEvent} (hstart : c.Starts)
    (hsends : ∀ e ∈ events, e.Exchanges) (hfirst : Guarded sessionStep ClientFirst c events) :
    Always sessionStep EventThreadRuns c events :=
  always_of_guarded (fun _ h => h.runs)
    (fun _ _ _ hsends h hfirst hstep => h.step hsends hfirst hstep) hsends hstart.prompt hfirst

end Prompt

/-- The exchange of the sample parties, a FINISH of the client, and the server's answer. -/
def sampleClosing : List SessionEvent :=
  [.conn .accept, .conn .acceptConnecting, .conn (.acceptMempool sampleMempoolOutcomes),
    .conn (.acceptPost .ok), .conn (.acceptPost .ok), .conn (.established .client .ok),
    .conn (.recvComplete .server .ok), .conn (.established .server .ok),
    .conn (.check .client (sampleMsg .finish 8)), .conn (.submit .client 0 .ok),
    .conn (.tick .client none), .conn (.recvComplete .server .ok), .conn (.tick .server none),
    .conn (.recvComplete .client .ok), .disconnected .server]

/-- All its events can be taken, and none waits. -/
theorem eventThreadRuns_sample : (runEvents sessionStep sampleConnection sampleClosing).isSome ∧
    Always sessionStep EventThreadRuns sampleConnection sampleClosing := by
  refine ⟨by decide +kernel, eventThreadRuns_run sampleConnection_starts ?_ ?_⟩
  · simp [sampleClosing, SessionEvent.Exchanges, SessionEvent.AppSends, AppSends, sampleMsg,
      Outcomes.ok]
  · decide +kernel

end HmrRpc
