import HmrRpc.ConnectAttempt

/-!
# What a transport holds

Setting up a transport and its connection acquires descriptors, verbs objects and memory in
several functions, which register some of the descriptors with the context's epoll set on the
way, and each of which cleans up a part when a call of it fails.

An object is named by its role, as a transport has at most one for each. The resources of a
transport keep, as history, what was created and what was released of them.
-/

namespace HmrRpc

/-- The descriptors of a transport that go into the epoll set. -/
inductive Descriptor
  | eventChannel | compChannel | stTimerfd
  deriving DecidableEq, Repr

/-- The objects made for a transport: heap memory, descriptors and verbs objects. -/
inductive ContextObject
  | rdmaTransport | hmrCq | mempool | memRegion
  /-- The `hmr_event_data` of a descriptor. -/
  | eventData (d : Descriptor)
  | eventChannel | compChannel | timerfd
  | cq | qp | sendMr | recvMr | rdmaMr
  deriving DecidableEq, Repr

/-- The `data` pointer a descriptor is registered with. -/
def Descriptor.data : Descriptor → ContextObject
  | .eventChannel => .eventChannel
  | .compChannel => .hmrCq
  | .stTimerfd => .rdmaTransport

/-- The objects of a transport, its descriptors in the epoll set, and whether `st_timerfd` is one. -/
structure Resources where
  created : List ContextObject
  released : List ContextObject
  registered : List Descriptor
  stTimerfd : Bool

/-- The results of the calls of `hmr_context_add_event_fd`. -/
structure AddEventOutcomes where
  calloc : Bool
  epollCtl : Bool

/-- The results of the calls of `hmr_rdma_create` and those it calls. -/
structure CreateOutcomes where
  calloc : Bool
  createEventChannel : Bool
  fcntl : Bool
  addEventFd : AddEventOutcomes
  timerfdCreate : Bool
  timerfdSettime : Bool

/-- The results of the calls of `hmr_qp_create` and `hmr_cq_get`. -/
structure QpOutcomes where
  calloc : Bool
  createCompChannel : Bool
  fcntl : Bool
  addEventFd : AddEventOutcomes
  createCq : Bool
  reqNotifyCq : Bool
  createQp : Bool

/-- `hmr_cq_get` succeeds. -/
def QpOutcomes.cqOk (o : QpOutcomes) : Bool :=
  o.calloc && o.createCompChannel && o.fcntl && o.addEventFd.calloc && o.addEventFd.epollCtl &&
    o.createCq && o.reqNotifyCq

/-- The results of the calls the handlers of connection events make. -/
structure CmCalls where
  create : CreateOutcomes
  deviceFound : Bool
  mempool : MempoolOutcomes
  resolveRoute : ℤ
  qp : QpOutcomes
  connect : ℤ
  addTimer : AddEventOutcomes
  exchange : Outcomes
  posts : ℕ → Outcomes

/-- `hmr_qp_create` succeeds. -/
def CmCalls.qpOk (o : CmCalls) : Bool := o.qp.cqOk && o.qp.createQp

/-- The results as far as the transport itself depends on them. -/
def CmCalls.outcomes (o : CmCalls) : CmOutcomes where
  transCreated := o.create.calloc
  deviceFound := o.deviceFound
  mempool := o.mempool
  resolveRoute := o.resolveRoute
  qpCreate := if o.qpOk then 0 else -1
  connect := o.connect
  exchange := o.exchange
  posts := o.posts

namespace Resources

variable (r : Resources)

/-- An object of the transport is created. -/
def create (x : ContextObject) : Resources := { r with created := r.created ++ [x] }

/-- It is freed or destroyed. -/
def release (x : ContextObject) : Resources := { r with released := r.released ++ [x] }

/-- It is allocated and not yet freed or destroyed. -/
def Live (x : ContextObject) : Prop := x ∈ r.created ∧ x ∉ r.released

instance (x : ContextObject) : Decidable (r.Live x) := inferInstanceAs (Decidable (_ ∧ _))

/-- `hmr_context_add_event_fd`, which succeeds for an open descriptor only. -/
def hmrContextAddEventFd (o : AddEventOutcomes) (isOpen : Bool) (d : Descriptor) :
    Bool × Resources :=
  if o.calloc then
    let r := r.create (.eventData d)
    if isOpen ∧ o.epollCtl then (true, { r with registered := r.registered ++ [d] })
    else (false, r.release (.eventData d))
  else (false, r)

/-- `hmr_context_del_event_fd`. The `hmr_event_data` stays. -/
def hmrContextDelEventFd (d : Descriptor) : Resources :=
  { r with registered := r.registered.filter (· ≠ d) }

/-- `hmr_timerfd_create`. -/
def hmrTimerfdCreate (o : CreateOutcomes) : Bool × Resources :=
  if o.timerfdCreate then
    -- a timer that cannot be set stays open
    if o.timerfdSettime then (true, r.create .timerfd) else (false, r.create .timerfd)
  else (false, r)

/-- `hmr_rdma_event_channel_init`. Nobody looks at the value it returns. -/
def hmrRdmaEventChannelInit (o : CreateOutcomes) : Resources :=
  if o.createEventChannel then
    let r := r.create .eventChannel
    if o.fcntl then (r.hmrContextAddEventFd o.addEventFd true .eventChannel).2
    else r.release .eventChannel
  else r

/-- `hmr_rdma_create`. -/
def hmrRdmaCreate (o : CreateOutcomes) : Option Resources :=
  if o.calloc then
    let r := hmrRdmaEventChannelInit ⟨[.rdmaTransport], [], [], false⟩ o
    let timer := r.hmrTimerfdCreate o
    some { timer.2 with stTimerfd := timer.1 }
  else none

/-- `ibv_destroy_comp_channel`, which fails while a completion queue uses the channel. -/
def ibvDestroyCompChannel : Resources := if r.Live .cq then r else r.release .compChannel

/-- The label `cleanhcq` of `hmr_cq_get`. -/
def cleanHcq : Resources := r.release .hmrCq

/-- The label `cleanchannel`. -/
def cleanChannel : Resources := r.ibvDestroyCompChannel.cleanHcq

/-- The label `cleaneventfd`. -/
def cleanEventFd : Resources := (r.hmrContextDelEventFd .compChannel).cleanChannel

/-- `hmr_cq_get`. -/
def hmrCqGet (o : QpOutcomes) : Bool × Resources :=
  if ¬o.calloc then (false, r)
  else
    let r := r.create .hmrCq
    if ¬o.createCompChannel then (false, r.cleanHcq)
    else
      let r := r.create .compChannel
      if ¬o.fcntl then (false, r.cleanChannel)
      else
        let added := r.hmrContextAddEventFd o.addEventFd true .compChannel
        let r := added.2
        if ¬added.1 then (false, r.cleanChannel)
        else if ¬o.createCq then (false, r.cleanEventFd)
        else
          let r := r.create .cq
          if ¬o.reqNotifyCq then (false, r.cleanEventFd) else (true, r)

/-- `hmr_qp_create`. When `rdma_create_qp` fails, only the `hmr_cq` is freed. -/
def hmrQpCreate (o : QpOutcomes) : Bool × Resources :=
  let got := r.hmrCqGet o
  let r := got.2
  if ¬got.1 then (false, r)
  else if ¬o.createQp then (false, r.release .hmrCq)
  else (true, r.create .qp)

/-- `hmr_qp_release`, on a transport with a queue pair. -/
def hmrQpRelease : Resources :=
  (((r.release .qp).release .cq).hmrContextDelEventFd .compChannel).release .hmrCq

/-- `hmr_mempool_create`. -/
def hmrMempoolCreate (o : MempoolOutcomes) : Resources :=
  if ¬o.callocOk then r
  else
    let r := r.create .mempool
    if o.malloc.isNone then r.release .mempool
    else
      let r := r.create .memRegion
      if o.sendMr.isNone then (r.release .memRegion).release .mempool
      else
        let r := r.create .sendMr
        if o.recvMr.isNone then ((r.release .sendMr).release .memRegion).release .mempool
        else
          let r := r.create .recvMr
          -- the failed `rdma_mr` is deregistered in place of `recv_mr`
          if o.rdmaMr.isNone then ((r.release .sendMr).release .memRegion).release .mempool
          else r.create .rdmaMr

/-- `hmr_mempool_release`; the struct stays. -/
def hmrMempoolRelease (pool : Bool) : Resources :=
  if pool then
    (((r.release .sendMr).release .recvMr).release .rdmaMr).release .memRegion
  else r

/-- `on_cm_route_resolved`. -/
def onCmRouteResolved (o : CmCalls) : Resources :=
  let qp := r.hmrQpCreate o.qp
  if qp.1 ∧ o.connect ≠ 0 then qp.2.hmrQpRelease else qp.2

/-- `on_cm_connect_request`, for the transport it creates. -/
def onCmConnectRequest (o : CmCalls) : Option Resources :=
  (hmrRdmaCreate o.create).map fun r => if o.deviceFound then (r.hmrQpCreate o.qp).2 else r

/-- `on_cm_disconnected`, which follows `event_channel`. -/
def onCmDisconnected (pool : Bool) : Option Resources :=
  if r.Live .eventChannel then
    some (((((r.release .qp).hmrMempoolRelease pool).hmrContextDelEventFd
      .compChannel).hmrContextDelEventFd .eventChannel).hmrContextDelEventFd .stTimerfd)
  else none

/-- `hmr_handle_ec_event`, for the transport behind the event's id. -/
def hmrHandleEcEvent (event : RdmaCmEventType) (o : CmCalls) (pool : Bool) : Option Resources :=
  match event with
  | .addrResolved => some (if o.deviceFound then r.hmrMempoolCreate o.mempool else r)
  | .routeResolved => some (r.onCmRouteResolved o)
  | .established => some (r.hmrContextAddEventFd o.addTimer r.stTimerfd .stTimerfd).2
  | .disconnected => r.onCmDisconnected pool
  | _ => some r

/-- The `data` pointer of every registered descriptor points to a live object. -/
def RegistrationsLive : Prop := ∀ d ∈ r.registered, r.Live d.data

instance : Decidable r.RegistrationsLive := inferInstanceAs (Decidable (∀ d ∈ r.registered, _))

end Resources

/-- A step that touches no descriptor but the completion channel, and nothing the others point to. -/
structure Resources.Keeps (r r' : Resources) : Prop where
  created : r.created ⊆ r'.created
  released : ∀ d : Descriptor, d ≠ .compChannel → d.data ∈ r'.released → d.data ∈ r.released
  registered : ∀ d, d ≠ .compChannel → (d ∈ r'.registered ↔ d ∈ r.registered)

/-- A step that leaves the registrations alone, and what they point to. -/
structure Resources.Aside (r r' : Resources) : Prop where
  created : r.created ⊆ r'.created
  released : ∀ d : Descriptor, d.data ∈ r'.released → d.data ∈ r.released
  same : r'.registered = r.registered

namespace Resources

section Keeps

variable {r r' r'' : Resources} {x : ContextObject}

theorem Keeps.refl (r : Resources) : r.Keeps r :=
  ⟨List.Subset.refl _, fun _ _ => id, fun _ _ => Iff.rfl⟩

theorem Keeps.trans (h : r.Keeps r') (h' : r'.Keeps r'') : r.Keeps r'' where
  created := List.Subset.trans h.created h'.created
  released d hne := h.released d hne ∘ h'.released d hne
  registered d hne := (h'.registered d hne).trans (h.registered d hne)

/-- What another descriptor points to stays live. -/
theorem Keeps.live {d : Descriptor} (h : r.Keeps r') (hne : d ≠ .compChannel)
    (hlive : r.Live d.data) : r'.Live d.data :=
  ⟨h.created hlive.1, hlive.2 ∘ h.released d hne⟩

/-- The transport stays live. -/
theorem Keeps.transport (h : r.Keeps r') (hlive : r.Live .rdmaTransport) : r'.Live .rdmaTransport :=
  h.live (d := .stTimerfd) (by decide) hlive

/-- The registrations stay live if that of the completion channel does. -/
theorem Keeps.registrationsLive (h : r.Keeps r') (hlive : r.RegistrationsLive)
    (hcq : .compChannel ∈ r'.registered → r'.Live .hmrCq) :
    r'.RegistrationsLive := by
  intro d hd
  by_cases hne : d = .compChannel
  · subst hne
    exact hcq hd
  · exact h.live hne (hlive d ((h.registered d hne).mp hd))

theorem Aside.refl (r : Resources) : r.Aside r := ⟨List.Subset.refl _, fun _ => id, rfl⟩

theorem Aside.toKeeps (h : r.Aside r') : r.Keeps r' :=
  ⟨h.created, fun d _ => h.released d, fun _ _ => h.same ▸ Iff.rfl⟩

/-- Steps aside keep them live. -/
theorem Aside.registrationsLive (h : r.Aside r') (hlive : r.RegistrationsLive) :
    r'.RegistrationsLive := by
  intro d hd
  obtain ⟨hcreated, hreleased⟩ := hlive d (h.same ▸ hd)
  exact ⟨h.created hcreated, hreleased ∘ h.released d⟩

/-- Creating an object keeps what a step keeps. -/
theorem Keeps.create (h : r.Keeps r') (x : ContextObject) : r.Keeps (r'.create x) :=
  h.trans ⟨List.subset_append_left _ _, fun _ _ => id, fun _ _ => Iff.rfl⟩

/-- So does releasing one that no other descriptor points to. -/
theorem Keeps.release (h : r.Keeps r') (hx : ∀ d : Descriptor, d ≠ .compChannel → d.data ≠ x) :
    r.Keeps (r'.release x) := by
  refine h.trans ⟨List.Subset.refl _, fun d hne hmem => ?_, fun _ _ => Iff.rfl⟩
  rcases List.mem_append.mp hmem with hold | hnew
  · exact hold
  · exact absurd (List.mem_singleton.mp hnew) (hx d hne)

/-- So does taking the completion channel out of the epoll set. -/
theorem Keeps.del (h : r.Keeps r') : r.Keeps (r'.hmrContextDelEventFd .compChannel) := by
  refine h.trans ⟨List.Subset.refl _, fun _ _ => id, fun d hne => ?_⟩
  simp [hmrContextDelEventFd, hne]

/-- What `hmr_context_add_event_fd` does when it succeeds and when it fails. -/
theorem hmrContextAddEventFd_cases (r : Resources) (a : AddEventOutcomes) (isOpen : Bool)
    (d : Descriptor) :
    (isOpen ∧ r.hmrContextAddEventFd a isOpen d = (true, { r with
        created := r.created ++ [.eventData d]
        registered := r.registered ++ [d] })) ∨
      ((r.hmrContextAddEventFd a isOpen d).1 = false ∧
        r.Aside (r.hmrContextAddEventFd a isOpen d).2) := by
  unfold hmrContextAddEventFd
  dsimp only
  split_ifs with hcalloc hopen
  · exact .inl ⟨hopen.1, rfl⟩
  · refine .inr ⟨rfl, List.subset_append_left _ _, fun d => ?_, rfl⟩
    cases d <;> simp [Resources.release, Resources.create, Descriptor.data]
  · exact .inr ⟨rfl, List.Subset.refl _, fun _ => id, rfl⟩

/-- So does putting the completion channel in. -/
theorem Keeps.add (h : r.Keeps r') (a : AddEventOutcomes) (isOpen : Bool) :
    r.Keeps (r'.hmrContextAddEventFd a isOpen .compChannel).2 := by
  refine h.trans ?_
  rcases hmrContextAddEventFd_cases r' a isOpen .compChannel with ⟨-, hadded⟩ | ⟨-, haside⟩
  · rw [hadded]
    refine ⟨List.subset_append_left _ _, fun _ _ hmem => hmem, fun d hne => ?_⟩
    simp [hne]
  · exact haside.toKeeps

theorem Keeps.cleanHcq (h : r.Keeps r') : r.Keeps r'.cleanHcq :=
  h.release (by rintro ⟨⟩ <;> simp [Descriptor.data])

theorem Keeps.cleanChannel (h : r.Keeps r') : r.Keeps r'.cleanChannel := by
  unfold Resources.cleanChannel ibvDestroyCompChannel
  split
  · exact h.cleanHcq
  · exact (h.release (by rintro ⟨⟩ <;> simp [Descriptor.data])).cleanHcq

theorem Keeps.cleanEventFd (h : r.Keeps r') : r.Keeps r'.cleanEventFd := h.del.cleanChannel

end Keeps

section Functions

variable (r : Resources) (o : QpOutcomes)

/-- Creating a pool is aside. -/
theorem hmrMempoolCreate_aside (m : MempoolOutcomes) : r.Aside (r.hmrMempoolCreate m) := by
  unfold hmrMempoolCreate
  dsimp only
  split_ifs <;> refine ⟨by simp [create, release], fun d => ?_, rfl⟩ <;> cases d <;>
    simp [create, release, Descriptor.data]

/-- So is releasing it. -/
theorem hmrMempoolRelease_aside (pool : Bool) : r.Aside (r.hmrMempoolRelease pool) := by
  unfold hmrMempoolRelease
  split_ifs <;> refine ⟨by simp [release], fun d => ?_, rfl⟩ <;> cases d <;>
    simp [release, Descriptor.data]

/-- `hmr_context_add_event_fd` succeeds when its calls do. -/
theorem hmrContextAddEventFd_fst (a : AddEventOutcomes) (isOpen : Bool) (d : Descriptor) :
    (r.hmrContextAddEventFd a isOpen d).1 = (a.calloc && (isOpen && a.epollCtl)) := by
  unfold hmrContextAddEventFd
  split_ifs <;> simp_all

/-- `hmr_cq_get` succeeds when all its calls do. -/
theorem hmrCqGet_fst : (r.hmrCqGet o).1 = o.cqOk := by
  unfold hmrCqGet QpOutcomes.cqOk
  dsimp only
  rw [hmrContextAddEventFd_fst]
  split_ifs <;> simp_all

/-- It keeps the transport and its event channel. -/
theorem hmrCqGet_keeps : r.Keeps (r.hmrCqGet o).2 := by
  have hcreated := ((Keeps.refl r).create .hmrCq).create .compChannel
  have hadded := hcreated.add o.addEventFd true
  unfold hmrCqGet
  dsimp only
  split_ifs
  · exact hadded.create .cq
  · exact (hadded.create .cq).cleanEventFd
  · exact hadded.cleanEventFd
  · exact hadded.cleanChannel
  · exact hcreated.cleanChannel
  · exact ((Keeps.refl r).create .hmrCq).cleanHcq
  · exact .refl r

/-- A successful `hmr_cq_get` registers the completion channel. -/
theorem hmrCqGet_of_ok (hok : o.cqOk) : r.hmrCqGet o = (true, { r with
    created := r.created ++ [.hmrCq, .compChannel, .eventData .compChannel, .cq]
    registered := r.registered ++ [.compChannel] }) := by
  simp only [QpOutcomes.cqOk, Bool.and_eq_true] at hok
  simp [hmrCqGet, hmrContextAddEventFd, create, hok]

/-- A failed one leaves it unregistered. -/
theorem hmrCqGet_of_failed (hok : o.cqOk = false) (hfresh : .compChannel ∉ r.registered) :
    .compChannel ∉ (r.hmrCqGet o).2.registered := by
  have hchannel (r : Resources) : r.cleanChannel.registered = r.registered := by
    unfold cleanChannel ibvDestroyCompChannel
    split <;> rfl
  have hevent (r : Resources) : .compChannel ∉ r.cleanEventFd.registered := by
    simp [cleanEventFd, hchannel, hmrContextDelEventFd]
  have hget := r.hmrCqGet_fst o
  rw [hok] at hget
  unfold hmrCqGet at hget ⊢
  dsimp only at hget ⊢
  split_ifs at hget ⊢ with hcalloc hcomp hfcntl hadded
  · exact hevent _
  · exact hevent _
  · rcases hmrContextAddEventFd_cases ((r.create .hmrCq).create .compChannel) o.addEventFd true
      .compChannel with ⟨-, heq⟩ | ⟨-, haside⟩
    · exact absurd (congrArg Prod.fst heq) hadded
    · rw [hchannel, haside.same]
      exact hfresh
  · rw [hchannel]
    exact hfresh
  · exact hfresh
  · exact hfresh

/-- `hmr_qp_create` touches no other descriptor. -/
theorem hmrQpCreate_keeps : r.Keeps (r.hmrQpCreate o).2 := by
  have hgot := r.hmrCqGet_keeps o
  unfold hmrQpCreate
  dsimp only
  split_ifs
  · exact hgot.create .qp
  · exact hgot.cleanHcq
  · exact hgot

/-- It succeeds when all its calls do. -/
theorem hmrQpCreate_fst : (r.hmrQpCreate o).1 = (o.cqOk && o.createQp) := by
  unfold hmrQpCreate
  dsimp only
  rw [hmrCqGet_fst]
  split_ifs <;> simp_all

/-- `hmr_qp_release` touches no other descriptor, and the completion channel is not registered
behind it. -/
theorem hmrQpRelease_keeps :
    r.Keeps r.hmrQpRelease ∧ .compChannel ∉ r.hmrQpRelease.registered := by
  refine ⟨?_, by simp [hmrQpRelease, release, hmrContextDelEventFd]⟩
  exact (((Keeps.refl r).release (by rintro ⟨⟩ <;> simp [Descriptor.data])).release
    (by rintro ⟨⟩ <;> simp [Descriptor.data])).del.cleanHcq

/-- `on_cm_route_resolved` touches no other descriptor. -/
theorem onCmRouteResolved_keeps (o : CmCalls) : r.Keeps (r.onCmRouteResolved o) := by
  have hcreated := r.hmrQpCreate_keeps o.qp
  unfold onCmRouteResolved
  dsimp only
  split_ifs
  · exact hcreated.trans (hmrQpRelease_keeps _).1
  · exact hcreated

/-- The handlers of the other events, a pool apart, create and register nothing. -/
theorem hmrHandleEcEvent_aside {r r' : Resources} {event : RdmaCmEventType} {o : CmCalls}
    {pool : Bool} (h : r.hmrHandleEcEvent event o pool = some r') (hroute : event ≠ .routeResolved)
    (hestablished : event ≠ .established) (hdisconnected : event ≠ .disconnected) : r.Aside r' := by
  cases event with
  | addrResolved =>
    obtain rfl := Option.some.inj h
    split
    · exact r.hmrMempoolCreate_aside o.mempool
    · exact .refl r
  | routeResolved | established | disconnected => contradiction
  | _ =>
    obtain rfl := Option.some.inj h
    exact .refl r

/-- Before the connection is established, no handler touches another descriptor. -/
theorem hmrHandleEcEvent_keeps {r r' : Resources} {event : RdmaCmEventType} {o : CmCalls}
    {pool : Bool} (h : r.hmrHandleEcEvent event o pool = some r')
    (hestablished : event ≠ .established) (hdisconnected : event ≠ .disconnected) : r.Keeps r' := by
  by_cases hroute : event = .routeResolved
  · subst hroute
    obtain rfl := Option.some.inj h
    exact r.onCmRouteResolved_keeps o
  · exact (hmrHandleEcEvent_aside h hroute hestablished hdisconnected).toKeeps

/-- A handled DISCONNECTED releases nothing a descriptor points to, and leaves none registered. -/
theorem onCmDisconnected_cases {r r' : Resources} {pool : Bool}
    (h : r.onCmDisconnected pool = some r') :
    (∀ d : Descriptor, r.Live d.data → r'.Live d.data) ∧ r'.registered = [] := by
  obtain ⟨-, h⟩ := Option.ite_none_right_eq_some.mp h
  obtain rfl := Option.some.inj h
  refine ⟨fun d hd => ?_, List.filter_eq_nil_iff.mpr fun d hd => ?_⟩
  · have hpool := (r.release .qp).hmrMempoolRelease_aside pool
    have hqp : (r.release .qp).Live d.data := by
      refine ⟨hd.1, fun hmem => ?_⟩
      rcases List.mem_append.mp hmem with hold | hnew
      · exact hd.2 hold
      · cases d <;> simp [Descriptor.data] at hnew
    exact ⟨hpool.created hqp.1, hqp.2 ∘ hpool.released d⟩
  · simp only [hmrContextDelEventFd, List.mem_filter] at hd
    cases d <;> simp_all

/-- What `hmr_rdma_create` returns: a live transport, with at most its event channel registered and
no completion queue yet. -/
theorem hmrRdmaCreate_cases {o : CreateOutcomes} {r : Resources} (h : hmrRdmaCreate o = some r) :
    r.Live .rdmaTransport ∧ r.RegistrationsLive ∧ (∀ d ∈ r.registered, d = .eventChannel) ∧
      .hmrCq ∉ r.released := by
  obtain ⟨-, h⟩ := Option.ite_none_right_eq_some.mp h
  obtain rfl := Option.some.inj h
  unfold hmrTimerfdCreate hmrRdmaEventChannelInit hmrContextAddEventFd
  dsimp only
  split_ifs <;> simp [RegistrationsLive, Live, create, release, Descriptor.data]

end Functions

end Resources

end HmrRpc
