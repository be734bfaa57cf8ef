import HmrRpc.Resources
import HmrRpc.TwoParty

/-!
# The context and its event loop (`hmr_context.c`)

`hmr_context_run` takes a batch of ready events from the epoll set and calls the handler of
each in turn. The handlers of the event channels handle connection events, which create,
connect and disconnect transports and so change the epoll set while the rest of the batch is
still to come. Next to the event thread the application creates and connects transports,
accepts connections and sends.

The events of a connection arrive in the order the connection manager gives them, on the
event channel of its id, which for an accepted connection is the listener's.
-/

namespace HmrRpc

open Common

/-- How far the connection manager has come with a transport's id. -/
inductive CmPhase
  | idle | listening | resolvingAddr | resolvingRoute | connecting | requested | accepted
  | established | disconnected | failed
  deriving DecidableEq, Repr

/-- A connection is on its way. -/
def CmPhase.Pending (p : CmPhase) : Prop :=
  p = .resolvingAddr ∨ p = .resolvingRoute ∨ p = .connecting ∨ p = .requested ∨ p = .accepted

instance (p : CmPhase) : Decidable p.Pending := inferInstanceAs (Decidable (_ ∨ _))

/-- The phase behind an event whose handler returns a value, if the event can come. -/
def CmPhase.after (p : CmPhase) (event : RdmaCmEventType) (retval : ℤ) : Option CmPhase :=
  match event with
  | .addrResolved =>
    if p = .resolvingAddr then some (if retval = 0 then .resolvingRoute else .failed) else none
  | .routeResolved =>
    if p = .resolvingRoute then some (if retval = 0 then .connecting else .failed) else none
  | .connectRequest => if p = .listening then some p else none
  | .established => if p = .connecting ∨ p = .accepted then some .established else none
  | .disconnected => if p = .accepted ∨ p = .established then some .disconnected else none
  | .addrError | .routeError | .connectError | .unreachable | .rejected =>
    if p.Pending then some .failed else none
  | _ => if p = .idle then none else some p

/-- An established connection stays so until it is disconnected. -/
theorem CmPhase.after_established {p : CmPhase} {event : RdmaCmEventType} {retval : ℤ}
    (h : CmPhase.established.after event retval = some p) (hne : event ≠ .disconnected) :
    p = .established := by
  cases event <;> simp_all [CmPhase.after, CmPhase.Pending]

/-- Nothing comes of a connection that has ended. -/
theorem CmPhase.after_ended {p p' : CmPhase} {event : RdmaCmEventType} {retval : ℤ}
    (h : p.after event retval = some p') (hended : p = .failed ∨ p = .disconnected) :
    p' = p ∧ event ≠ .routeResolved ∧ event ≠ .established ∧ event ≠ .disconnected := by
  rcases hended with rfl | rfl <;> cases event <;> simp_all [CmPhase.after, CmPhase.Pending]

/-- A transport of the context, with its resources, the phase of its id, and the transport whose
event channel brings the events of the id. -/
structure ContextTransport where
  trans : HmrRdmaTransport
  resources : Resources
  phase : CmPhase
  channel : ℕ

/-- An entry of the epoll set: a descriptor of a transport. -/
structure Registration where
  trans : ℕ
  descriptor : Descriptor
  deriving DecidableEq, Repr

/-- The size of the array `hmr_context_run` takes ready events into. -/
def maxEvents : ℕ := 1024

/-- The context: the transports made so far, `is_stop`, the ready events not dispatched yet, the
handler in progress, and the accepting thread with its transport. -/
structure HmrContext where
  transports : List ContextTransport
  isStop : Bool
  batch : List Registration
  running : Option Registration
  accept : AcceptPhase
  accepting : ℕ

/-- `hmr_context_create`. -/
def hmrContextCreate : HmrContext := ⟨[], false, [], none, .waiting, 0⟩

/-- An event of the context. -/
inductive ContextEvent
  /-- The application calls `hmr_rdma_create`. -/
  | create (o : CreateOutcomes)
  | connect (i : ℕ) (o : ConnectOutcomes)
  | listen (i : ℕ) (ok : Bool)
  | send (i : ℕ) (msg : HmrMsg) (o : Outcomes)
  /-- `epoll_wait` returns ready events. -/
  | wait (batch : List Registration)
  /-- The handler of the next ready event is called. -/
  | dispatch
  /-- The handler of an event channel handles an event of a transport. -/
  | cm (i : ℕ) (event : RdmaCmEventType) (o : CmCalls)
  /-- The handler of a timer or of a completion channel does its work. -/
  | work (e : DataEvent)
  /-- The handler returns. -/
  | handled
  /-- `rdma_accept` returns for a requested connection. -/
  | accept (i : ℕ) (ok : Bool)
  | acceptConnecting
  | acceptMempool (m : MempoolOutcomes)
  | acceptPost (o : Outcomes)

/-- The descriptor whose handler does the work. -/
def DataEvent.handledBy : DataEvent → Option Descriptor
  | .send .. => none
  | .tick _ => some .stTimerfd
  | .sendComplete .. | .recvComplete .. => some .compChannel

/-- `hmr_handle_ec_event` on the transport behind the event's id. -/
def ContextTransport.hmrHandleEcEvent (t : ContextTransport) (event : RdmaCmEventType)
    (o : CmCalls) : Option (ℤ × ContextTransport) :=
  (HmrRpc.hmrHandleEcEvent event o.outcomes t.trans).toOption.bind fun (retval, trans) =>
    (t.phase.after event retval).bind fun phase =>
      (t.resources.hmrHandleEcEvent event o t.trans.normalMempool.isSome).map fun resources =>
        (retval, { t with trans := trans, resources := resources, phase := phase })

/-- The transport `on_cm_connect_request` creates. -/
def requestTransport (o : CmCalls) (channel : ℕ) : Option ContextTransport :=
  (Resources.onCmConnectRequest o).map fun resources =>
    ⟨HmrRpc.onCmConnectRequest o.deviceFound o.qpOk hmrRdmaCreate, resources,
      if o.deviceFound ∧ o.qpOk then .requested else .failed, channel⟩

namespace HmrContext

variable (ctx : HmrContext)

/-- The descriptor is in the epoll set. -/
def Registered (reg : Registration) : Prop :=
  ∃ t, ctx.transports[reg.trans]? = some t ∧ reg.descriptor ∈ t.resources.registered

instance (reg : Registration) : Decidable (ctx.Registered reg) :=
  decidable_of_iff (ctx.transports[reg.trans]?.any
    fun t => reg.descriptor ∈ t.resources.registered) (by simp [Registered, Option.any_eq_true])

/-- One transport takes a step. -/
def update (i : ℕ) (f : ContextTransport → Option ContextTransport) : Option HmrContext :=
  ctx.transports[i]?.bind fun t =>
    (f t).map fun t' => { ctx with transports := ctx.transports.set i t' }

end HmrContext

/-- A step of one transport's messages. -/
def ContextTransport.data (t : ContextTransport) (e : DataEvent) : Option ContextTransport :=
  (dataStep t.trans e).map fun trans => { t with trans := trans }

/-- One event of the context. -/
def contextStep (ctx : HmrContext) : ContextEvent → Option HmrContext
  | .create o =>
    some { ctx with transports := ctx.transports ++ ((Resources.hmrRdmaCreate o).map
      fun r => ⟨hmrRdmaCreate, r, .idle, ctx.transports.length⟩).toList }
  | .connect i o =>
    ctx.update i fun t =>
      if t.phase = .idle then
        some { t with
          trans := hmrRdmaConnect (o.retval = 0) t.trans
          phase := if o.retval = 0 then .resolvingAddr else .idle }
      else none
  | .listen i ok =>
    ctx.update i fun t =>
      if t.phase = .idle then
        some { t with
          trans := hmrRdmaListen ok t.trans
          phase := if ok then .listening else .idle }
      else none
  | .send i msg o => ctx.update i fun t => t.data (.send msg o)
  | .wait batch =>
    if ctx.running = none ∧ ctx.batch = [] ∧ ctx.isStop = false ∧ batch.length ≤ maxEvents ∧
        batch.Nodup ∧ ∀ reg ∈ batch, ctx.Registered reg then
      some { ctx with batch := batch }
    else none
  | .dispatch =>
    match ctx.running, ctx.batch with
    | none, reg :: rest => some { ctx with running := some reg, batch := rest }
    | _, _ => none
  | .cm i event o =>
    ctx.transports[i]?.bind fun t =>
      if ctx.running = some ⟨t.channel, .eventChannel⟩ then
        (t.hmrHandleEcEvent event o).map fun (retval, t') =>
          { ctx with
            transports := ctx.transports.set i t' ++
              if event = .connectRequest then (requestTransport o t.channel).toList else []
            isStop := ctx.isStop || event = .connectError ||
              (event = .routeResolved ∧ o.qpOk ∧ o.connect ≠ 0) ||
              (event = .disconnected ∧ t.trans.isClient)
            -- a value other than zero ends the loop of `hmr_rdma_event_channel_handler`
            running := if retval = 0 then ctx.running else none }
      else none
  | .work e =>
    ctx.running.bind fun reg =>
      if e.handledBy = some reg.descriptor then ctx.update reg.trans fun t => t.data e else none
  | .handled => if ctx.running.isSome then some { ctx with running := none } else none
  | .accept i ok =>
    if ctx.accept = .waiting ∨ ctx.accept = .posting 0 then
      (ctx.update i fun t =>
        if t.phase = .requested then some { t with phase := if ok then .accepted else .failed }
        else none).map fun ctx =>
          if ok then { ctx with accept := .accepted, accepting := i } else ctx
    else none
  | .acceptConnecting =>
    if ctx.accept = .accepted then
      (ctx.update ctx.accepting fun t =>
        some { t with trans := HmrRpc.acceptConnecting t.trans }).map fun ctx =>
          { ctx with accept := .connecting }
    else none
  | .acceptMempool m =>
    if ctx.accept = .connecting then
      (ctx.update ctx.accepting fun t =>
        some { t with
          trans := HmrRpc.acceptMempool m t.trans
          resources := t.resources.hmrMempoolCreate m }).map fun ctx =>
            { ctx with accept := .posting (prePostCount maxRecvSize) }
    else none
  | .acceptPost o =>
    match ctx.accept with
    | .posting (left + 1) =>
      (ctx.update ctx.accepting fun t =>
        (hmrPostRecv o t.trans t.trans.defaultRecvSize).toOption.map fun trans =>
          { t with trans := trans }).map fun ctx => { ctx with accept := .posting left }
    | _ => none

/-- A step of a transport that destroys no queue pair and changes no registration. -/
structure QuietChange (t t' : ContextTransport) : Prop where
  status : t'.trans.qp.status = t.trans.qp.status
  resources : t'.resources = t.resources ∨ ∃ m, t'.resources = t.resources.hmrMempoolCreate m
  phase : t'.phase = t.phase ∨
    t.phase = .idle ∧ (t'.phase = .listening ∨ t'.phase = .resolvingAddr)

/-- Its resources are changed aside, if at all. -/
theorem QuietChange.aside {t t' : ContextTransport} (h : QuietChange t t') :
    t.resources.Aside t'.resources := by
  rcases h.resources with hsame | ⟨m, hpool⟩
  · rw [hsame]
    exact .refl _
  · rw [hpool]
    exact t.resources.hmrMempoolCreate_aside m

/-- The events that only change a transport quietly. -/
def ContextEvent.IsQuiet : ContextEvent → Prop
  | .connect .. | .listen .. | .send .. | .work .. => True
  | .acceptConnecting | .acceptMempool .. | .acceptPost .. => True
  | _ => False

/-- What an event of the context did. -/
inductive ContextResult (ctx : HmrContext) : ContextEvent → HmrContext → Prop
  | created (o : CreateOutcomes) (r : Resources) (hcreate : Resources.hmrRdmaCreate o = some r) :
      ContextResult ctx (.create o)
        { ctx with
          transports := ctx.transports ++ [⟨hmrRdmaCreate, r, .idle, ctx.transports.length⟩] }
  | notCreated (o : CreateOutcomes) : ContextResult ctx (.create o) ctx
  | quiet (e : ContextEvent) (he : e.IsQuiet) (i : ℕ) (t t' : ContextTransport)
      (accept : AcceptPhase) (ht : ctx.transports[i]? = some t) (hchange : QuietChange t t') :
      ContextResult ctx e { ctx with transports := ctx.transports.set i t', accept := accept }
  | waited (batch : List Registration) (hrunning : ctx.running = none)
      (hbatch : ∀ reg ∈ batch, ctx.Registered reg) :
      ContextResult ctx (.wait batch) { ctx with batch := batch }
  | dispatched (reg : Registration) (rest : List Registration) (hrunning : ctx.running = none)
      (hbatch : ctx.batch = reg :: rest) :
      ContextResult ctx .dispatch { ctx with running := some reg, batch := rest }
  | cm (i : ℕ) (event : RdmaCmEventType) (o : CmCalls) (t t' : ContextTransport) (retval : ℤ)
      (isStop : Bool) (ht : ctx.transports[i]? = some t)
      (hrunning : ctx.running = some ⟨t.channel, .eventChannel⟩)
      (hhandler : t.hmrHandleEcEvent event o = some (retval, t')) :
      ContextResult ctx (.cm i event o)
        { ctx with
          transports := ctx.transports.set i t' ++
            if event = .connectRequest then (requestTransport o t.channel).toList else []
          isStop := isStop
          running := if retval = 0 then ctx.running else none }
  | handled (hrunning : ctx.running.isSome) :
      ContextResult ctx .handled { ctx with running := none }
  | accepted (i : ℕ) (t : ContextTransport) (ht : ctx.transports[i]? = some t)
      (hphase : t.phase = .requested) :
      ContextResult ctx (.accept i true)
        { ctx with
          transports := ctx.transports.set i { t with phase := .accepted }
          accept := .accepted
          accepting := i }
  | refused (i : ℕ) (t : ContextTransport) (ht : ctx.transports[i]? = some t)
      (hphase : t.phase = .requested) :
      ContextResult ctx (.accept i false)
        { ctx with transports := ctx.transports.set i { t with phase := .failed } }

/-- A returning step of one transport is a step of one transport of the context. -/
theorem update_eq_some {ctx ctx' : HmrContext} {i : ℕ}
    {f : ContextTransport → Option ContextTransport} (h : ctx.update i f = some ctx') :
    ∃ t t', ctx.transports[i]? = some t ∧ f t = some t' ∧
      ctx' = { ctx with transports := ctx.transports.set i t' } := by
  obtain ⟨t, ht, h⟩ := Option.bind_eq_some_iff.mp h
  obtain ⟨t', ht', rfl⟩ := Option.map_eq_some_iff.mp h
  exact ⟨t, t', ht, ht', rfl⟩

/-- An event of the messages keeps the queue pair. -/
theorem dataStep_status {t t' : HmrRdmaTransport} {e : DataEvent} (hstep : dataStep t e = some t') :
    t'.qp.status = t.qp.status := by
  cases e with
  | send msg o =>
    obtain ⟨r, hsend⟩ := dataStep_send hstep
    exact congrArg (fun side => side.2.2.2) hsend.receiverSide
  | tick a => cases dataStep_tick hstep <;> rfl
  | sendComplete i status o =>
    rw [(dataStep_sendComplete_frame hstep).2.2.2]
    rfl
  | recvComplete frame status o =>
    cases dataStep_recvComplete hstep with
    | flushed => rfl
    | received wr pool u _ _ _ hbody hrepost =>
      exact congrArg (fun side => side.2.2.2) (hrepost.receiverSide.trans hbody.receiverSide)

/-- So does one of a transport of the context. -/
theorem data_quietChange {t t' : ContextTransport} {e : DataEvent} (h : t.data e = some t') :
    QuietChange t t' := by
  obtain ⟨trans, htrans, rfl⟩ := Option.map_eq_some_iff.mp h
  exact ⟨dataStep_status htrans, .inl rfl, .inl rfl⟩

/-- A connection event: its handler, on the channel that brings it. -/
theorem contextStep_cm {ctx ctx' : HmrContext} {i : ℕ} {event : RdmaCmEventType} {o : CmCalls}
    (h : contextStep ctx (.cm i event o) = some ctx') :
    ∃ t t' retval isStop, ctx.transports[i]? = some t ∧
      ctx.running = some ⟨t.channel, .eventChannel⟩ ∧
      t.hmrHandleEcEvent event o = some (retval, t') ∧
      ctx' = { ctx with
        transports := ctx.transports.set i t' ++
          if event = .connectRequest then (requestTransport o t.channel).toList else []
        isStop := isStop
        running := if retval = 0 then ctx.running else none } := by
  obtain ⟨t, ht, h⟩ := Option.bind_eq_some_iff.mp h
  obtain ⟨hrunning, h⟩ := Option.ite_none_right_eq_some.mp h
  obtain ⟨⟨retval, t'⟩, hhandler, rfl⟩ := Option.map_eq_some_iff.mp h
  exact ⟨t, t', retval, _, ht, hrunning, hhandler, rfl⟩

/-- Every step of the context is one of the listed results. -/
theorem contextStep_cases {ctx ctx' : HmrContext} {e : ContextEvent}
    (h : contextStep ctx e = some ctx') : ContextResult ctx e ctx' := by
  cases e with
  | create o =>
    obtain rfl := Option.some.inj h
    cases hcreate : Resources.hmrRdmaCreate o with
    | none => simpa using ContextResult.notCreated o
    | some r => exact .created o r hcreate
  | connect i o =>
    obtain ⟨t, t', ht, hstep, rfl⟩ := update_eq_some h
    obtain ⟨hphase, hstep⟩ := Option.ite_none_right_eq_some.mp hstep
    obtain rfl := Option.some.inj hstep
    refine .quiet _ (by trivial) i t _ ctx.accept ht ⟨?_, .inl rfl, ?_⟩
    · unfold hmrRdmaConnect
      split <;> rfl
    · dsimp only
      split <;> simp [hphase]
  | listen i ok =>
    obtain ⟨t, t', ht, hstep, rfl⟩ := update_eq_some h
    obtain ⟨hphase, hstep⟩ := Option.ite_none_right_eq_some.mp hstep
    obtain rfl := Option.some.inj hstep
    refine .quiet _ (by trivial) i t _ ctx.accept ht ⟨?_, .inl rfl, ?_⟩
    · unfold hmrRdmaListen
      split <;> rfl
    · dsimp only
      split <;> simp [hphase]
  | send i msg o =>
    obtain ⟨t, t', ht, hstep, rfl⟩ := update_eq_some h
    exact .quiet _ (by trivial) i t t' ctx.accept ht (data_quietChange hstep)
  | wait batch =>
    obtain ⟨⟨hrunning, -, -, -, -, hbatch⟩, h⟩ := Option.ite_none_right_eq_some.mp h
    obtain rfl := Option.some.inj h
    exact .waited batch hrunning hbatch
  | dispatch =>
    simp only [contextStep] at h
    split at h
    · rename_i reg rest hrunning hbatch
      obtain rfl := Option.some.inj h
      exact .dispatched reg rest hrunning hbatch
    · contradiction
  | cm i event o =>
    obtain ⟨t, t', retval, isStop, ht, hrunning, hhandler, rfl⟩ := contextStep_cm h
    exact .cm i event o t t' retval isStop ht hrunning hhandler
  | work e =>
    obtain ⟨reg, -, h⟩ := Option.bind_eq_some_iff.mp h
    obtain ⟨-, h⟩ := Option.ite_none_right_eq_some.mp h
    obtain ⟨t, t', ht, hstep, rfl⟩ := update_eq_some h
    exact .quiet _ (by trivial) reg.trans t t' ctx.accept ht (data_quietChange hstep)
  | handled =>
    obtain ⟨hrunning, h⟩ := Option.ite_none_right_eq_some.mp h
    obtain rfl := Option.some.inj h
    exact .handled hrunning
  | accept i ok =>
    obtain ⟨-, h⟩ := Option.ite_none_right_eq_some.mp h
    obtain ⟨ctx₁, hupdate, rfl⟩ := Option.map_eq_some_iff.mp h
    obtain ⟨t, t', ht, hstep, rfl⟩ := update_eq_some hupdate
    obtain ⟨hphase, hstep⟩ := Option.ite_none_right_eq_some.mp hstep
    obtain rfl := Option.some.inj hstep
    cases ok with
    | true => exact .accepted i t ht hphase
    | false => exact .refused i t ht hphase
  | acceptConnecting =>
    obtain ⟨-, h⟩ := Option.ite_none_right_eq_some.mp h
    obtain ⟨ctx₁, hupdate, rfl⟩ := Option.map_eq_some_iff.mp h
    obtain ⟨t, t', ht, hstep, rfl⟩ := update_eq_some hupdate
    obtain rfl := Option.some.inj hstep
    exact .quiet _ (by trivial) ctx.accepting t _ .connecting ht ⟨rfl, .inl rfl, .inl rfl⟩
  | acceptMempool m =>
    obtain ⟨-, h⟩ := Option.ite_none_right_eq_some.mp h
    obtain ⟨ctx₁, hupdate, rfl⟩ := Option.map_eq_some_iff.mp h
    obtain ⟨t, t', ht, hstep, rfl⟩ := update_eq_some hupdate
    obtain rfl := Option.some.inj hstep
    exact .quiet _ (by trivial) ctx.accepting t _ (.posting (prePostCount maxRecvSize)) ht
      ⟨rfl, .inr ⟨m, rfl⟩, .inl rfl⟩
  | acceptPost o =>
    simp only [contextStep] at h
    split at h
    · rename_i left _
      obtain ⟨ctx₁, hupdate, rfl⟩ := Option.map_eq_some_iff.mp h
      obtain ⟨t, t', ht, hstep, rfl⟩ := update_eq_some hupdate
      obtain ⟨trans, htrans, rfl⟩ := Option.map_eq_some_iff.mp hstep
      have hpost := hmrPostRecv_cases (ok_of_toOption htrans)
      have hstatus : trans.qp.status = t.trans.qp.status :=
        congrArg (fun side => side.2.2.2) hpost.receiverSide
      exact .quiet _ (by trivial) ctx.accepting t _ (.posting left) ht ⟨hstatus, .inl rfl, .inl rfl⟩
    · contradiction

/-- An event handled for a transport: its own handler, the next phase of its id, and its
resources. -/
theorem hmrHandleEcEvent_cases {t t' : ContextTransport} {event : RdmaCmEventType} {o : CmCalls}
    {retval : ℤ} (h : t.hmrHandleEcEvent event o = some (retval, t')) :
    HmrRpc.hmrHandleEcEvent event o.outcomes t.trans = .ok (retval, t'.trans) ∧
      t.phase.after event retval = some t'.phase ∧
      t.resources.hmrHandleEcEvent event o t.trans.normalMempool.isSome = some t'.resources := by
  obtain ⟨⟨retval', trans⟩, htrans, h⟩ := Option.bind_eq_some_iff.mp h
  obtain ⟨phase, hphase, h⟩ := Option.bind_eq_some_iff.mp h
  obtain ⟨resources, hresources, h⟩ := Option.map_eq_some_iff.mp h
  obtain ⟨rfl, rfl⟩ := Prod.mk.inj h
  exact ⟨ok_of_toOption htrans, hphase, hresources⟩

/-- A connection request leaves the listener as it is. -/
theorem hmrHandleEcEvent_connectRequest {t t' : ContextTransport} {o : CmCalls} {retval : ℤ}
    (h : t.hmrHandleEcEvent .connectRequest o = some (retval, t')) : t' = t := by
  obtain ⟨⟨retval', trans⟩, htrans, h⟩ := Option.bind_eq_some_iff.mp h
  obtain ⟨phase, hphase, h⟩ := Option.bind_eq_some_iff.mp h
  obtain ⟨resources, hresources, h⟩ := Option.map_eq_some_iff.mp h
  obtain ⟨-, rfl⟩ := Prod.mk.inj (Except.ok.inj (ok_of_toOption htrans))
  obtain ⟨-, hphase⟩ := Option.ite_none_right_eq_some.mp hphase
  obtain rfl := Option.some.inj hphase
  obtain rfl := Option.some.inj hresources
  exact (Prod.mk.inj h).2.symm

/-- The transport made for it: what `hmr_rdma_create` returns, with what `hmr_qp_create` adds. -/
theorem requestTransport_cases {o : CmCalls} {channel : ℕ} {t : ContextTransport}
    (h : requestTransport o channel = some t) :
    ∃ r, Resources.hmrRdmaCreate o.create = some r ∧ o.create.calloc ∧
      t.trans = HmrRpc.onCmConnectRequest o.deviceFound o.qpOk hmrRdmaCreate ∧
      t.resources = (if o.deviceFound then (r.hmrQpCreate o.qp).2 else r) ∧
      r.Keeps t.resources ∧ t.phase = if o.deviceFound ∧ o.qpOk then .requested else .failed := by
  obtain ⟨resources, hresources, rfl⟩ := Option.map_eq_some_iff.mp h
  obtain ⟨r, hr, rfl⟩ := Option.map_eq_some_iff.mp hresources
  obtain ⟨hcalloc, -⟩ := Option.ite_none_right_eq_some.mp hr
  refine ⟨r, hr, hcalloc, rfl, rfl, ?_, rfl⟩
  dsimp only
  split
  · exact r.hmrQpCreate_keeps o.qp
  · exact .refl r

/-- What holds of new transports and is kept by every step of one holds of all the transports
behind an event. -/
theorem forall_transports_step {P : ContextTransport → Prop} {ctx ctx' : HmrContext}
    {e : ContextEvent} (hstep : contextStep ctx e = some ctx') (h : ∀ t ∈ ctx.transports, P t)
    (hcreate : ∀ o r i, Resources.hmrRdmaCreate o = some r → P ⟨hmrRdmaCreate, r, .idle, i⟩)
    (hquiet : ∀ t t', P t → QuietChange t t' → P t')
    (haccept : ∀ t phase, P t → t.phase = .requested → phase = .accepted ∨ phase = .failed →
      P { t with phase := phase })
    (hevent : ∀ i event o t t' retval, e = .cm i event o → P t →
      t.hmrHandleEcEvent event o = some (retval, t') → P t')
    (hrequest : ∀ i o channel t, e = .cm i .connectRequest o →
      requestTransport o channel = some t → P t) : ∀ t ∈ ctx'.transports, P t := by
  have hset {i : ℕ} {t' : ContextTransport} (ht' : P t') :
      ∀ t ∈ ctx.transports.set i t', P t := by
    intro t ht
    rcases List.mem_or_eq_of_mem_set ht with hold | rfl
    · exact h t hold
    · exact ht'
  cases contextStep_cases hstep with
  | created o r hr =>
    intro t ht
    rcases List.mem_append.mp ht with hold | hnew
    · exact h t hold
    · obtain rfl := List.mem_singleton.mp hnew
      exact hcreate o r _ hr
  | quiet _ _ i t t' accept ht hchange =>
    exact hset (hquiet t t' (h t (List.mem_of_getElem? ht)) hchange)
  | cm i event o t t' retval isStop ht _ hhandler =>
    intro u hu
    rcases List.mem_append.mp hu with hold | hnew
    · exact hset (hevent i event o t t' retval rfl (h t (List.mem_of_getElem? ht)) hhandler) u hold
    · split at hnew
      · rename_i hrequested
        subst hrequested
        exact hrequest i o t.channel u rfl (Option.mem_toList.mp hnew)
      · contradiction
  | accepted i t ht hphase =>
    exact hset (haccept t .accepted (h t (List.mem_of_getElem? ht)) hphase (.inl rfl))
  | refused i t ht hphase =>
    exact hset (haccept t .failed (h t (List.mem_of_getElem? ht)) hphase (.inr rfl))
  | _ => exact h

/-- Every call of a connection's set-up succeeds. -/
def sampleCalls : CmCalls where
  create := ⟨true, true, true, ⟨true, true⟩, true, true⟩
  deviceFound := true
  mempool := sampleMempoolOutcomes
  resolveRoute := 0
  qp := ⟨true, true, true, ⟨true, true⟩, true, true, true⟩
  connect := 0
  addTimer := ⟨true, true⟩
  exchange := .ok
  posts := fun _ => .ok

/-- A connection request comes in on a listening transport, is accepted, and the connection is
established. -/
def acceptedConnection : List ContextEvent :=
  [.wait [⟨0, .eventChannel⟩], .dispatch, .cm 0 .connectRequest sampleCalls, .handled,
    .accept 1 true, .acceptConnecting, .acceptMempool sampleMempoolOutcomes,
    .wait [⟨0, .eventChannel⟩], .dispatch, .cm 1 .established sampleCalls, .handled]

end HmrRpc
