import HmrRpc.Context

/-!
# What the epoll set points to

Every descriptor is registered with a pointer that its handler will follow: to the event
channel, the `hmr_cq` or the transport. The last is never freed, and the first only ahead of
its registration. The `hmr_cq` is freed by the clean-up of `hmr_cq_get`, by `hmr_qp_release`
and by `hmr_qp_create`, and the last alone leaves its completion channel registered.
-/

namespace HmrRpc

open Common

/-- Every registered descriptor of the context points to a live object. -/
def HmrContext.RegistrationsLive (ctx : HmrContext) : Prop :=
  ∀ (reg : Registration) (t : ContextTransport), ctx.transports[reg.trans]? = some t →
    reg.descriptor ∈ t.resources.registered → t.resources.Live reg.descriptor.data

/-- Where a handler gets to `rdma_create_qp`, the call succeeds. -/
def CreatesQp (_ : HmrContext) : ContextEvent → Prop
  | .cm _ event o =>
    event = .routeResolved ∨ (event = .connectRequest ∧ o.create.calloc ∧ o.deviceFound) →
      o.qp.cqOk → o.qp.createQp
  | _ => True

/-- The phases before the queue pair is asked for. -/
def CmPhase.Early (p : CmPhase) : Prop :=
  p = .idle ∨ p = .listening ∨ p = .resolvingAddr ∨ p = .resolvingRoute

/-- An early phase comes behind an early one, and asks for no queue pair. -/
theorem CmPhase.after_early {p p' : CmPhase} {event : RdmaCmEventType} {retval : ℤ}
    (h : p.after event retval = some p') (hearly : p'.Early) :
    p.Early ∧ event ≠ .routeResolved ∧ event ≠ .established ∧ event ≠ .disconnected := by
  cases event with
  | addrResolved =>
    obtain ⟨rfl, -⟩ := Option.ite_none_right_eq_some.mp h
    exact ⟨.inr (.inr (.inl rfl)), by decide⟩
  | connectRequest =>
    obtain ⟨rfl, -⟩ := Option.ite_none_right_eq_some.mp h
    exact ⟨.inr (.inl rfl), by decide⟩
  | routeResolved =>
    obtain ⟨-, h⟩ := Option.ite_none_right_eq_some.mp h
    obtain rfl := Option.some.inj h
    split at hearly <;> simp [CmPhase.Early] at hearly
  | established | disconnected | addrError | routeError | connectError | unreachable | rejected =>
    obtain ⟨-, h⟩ := Option.ite_none_right_eq_some.mp h
    obtain rfl := Option.some.inj h
    simp [CmPhase.Early] at hearly
  | _ =>
    obtain ⟨-, h⟩ := Option.ite_none_left_eq_some.mp h
    obtain rfl := Option.some.inj h
    exact ⟨hearly, by decide⟩

/-- A transport that was never freed, whose descriptors point to live objects, and which has
nothing of a completion queue before it asks for one. -/
structure ContextTransport.RegistrationInv (t : ContextTransport) : Prop where
  live : t.resources.Live .rdmaTransport
  registrations : t.resources.RegistrationsLive
  early : t.phase.Early → .compChannel ∉ t.resources.registered ∧ .hmrCq ∉ t.resources.released

section QueuePair

variable {r r' : Resources} {o : QpOutcomes}

namespace Resources

/-- The registrations stay live when `hmr_qp_create` gets its queue pair. -/
theorem hmrQpCreate_live (hlive : r.RegistrationsLive)
    (hfresh : .compChannel ∉ r.registered ∧ .hmrCq ∉ r.released) (hqp : o.cqOk → o.createQp) :
    (r.hmrQpCreate o).2.RegistrationsLive := by
  refine (r.hmrQpCreate_keeps o).registrationsLive hlive fun hreg => ?_
  unfold hmrQpCreate at hreg ⊢
  dsimp only at hreg ⊢
  rw [hmrCqGet_fst] at hreg ⊢
  cases hok : o.cqOk with
  | false =>
    simp only [hok, Bool.false_eq_true, not_false_eq_true, if_true] at hreg
    exact absurd hreg (r.hmrCqGet_of_failed o hok hfresh.1)
  | true =>
    simp only [hqp hok, not_true_eq_false, if_false, r.hmrCqGet_of_ok o hok]
    simp [Live, create, hfresh.2]

/-- When it does not, the completion channel points to the freed `hmr_cq`. -/
theorem hmrQpCreate_dangles (hok : o.cqOk) (hqp : o.createQp = false) :
    .compChannel ∈ (r.hmrQpCreate o).2.registered ∧ ¬(r.hmrQpCreate o).2.Live .hmrCq := by
  simp [hmrQpCreate, r.hmrCqGet_of_ok o hok, hqp, release, Live]

/-- A handler that creates its queue pair keeps the registrations live. -/
theorem hmrHandleEcEvent_live {event : RdmaCmEventType} {o : CmCalls} {pool : Bool}
    (h : r.hmrHandleEcEvent event o pool = some r') (hlive : r.RegistrationsLive)
    (htransport : r.Live .rdmaTransport)
    (hfresh : event = .routeResolved → .compChannel ∉ r.registered ∧ .hmrCq ∉ r.released)
    (hqp : event = .routeResolved → o.qp.cqOk → o.qp.createQp) : r'.RegistrationsLive := by
  cases event with
  | routeResolved =>
    obtain rfl := Option.some.inj h
    have hcreated := hmrQpCreate_live hlive (hfresh rfl) (hqp rfl)
    unfold onCmRouteResolved
    dsimp only
    split_ifs
    · obtain ⟨hkeeps, hunregistered⟩ := hmrQpRelease_keeps (r.hmrQpCreate o.qp).2
      exact hkeeps.registrationsLive hcreated fun hreg => absurd hreg hunregistered
    · exact hcreated
  | established =>
    obtain rfl := Option.some.inj h
    rcases hmrContextAddEventFd_cases r o.addTimer r.stTimerfd .stTimerfd with
      ⟨-, hadded⟩ | ⟨-, haside⟩
    · rw [hadded]
      intro d hd
      rcases List.mem_append.mp hd with hold | hnew
      · exact ⟨List.mem_append_left _ (hlive d hold).1, (hlive d hold).2⟩
      · obtain rfl := List.mem_singleton.mp hnew
        exact ⟨List.mem_append_left _ htransport.1, htransport.2⟩
    · exact haside.registrationsLive hlive
  | disconnected =>
    obtain ⟨-, hnone⟩ := onCmDisconnected_cases h
    intro d hd
    rw [hnone] at hd
    contradiction
  | _ =>
    have haside := hmrHandleEcEvent_aside h (by decide) (by decide) (by decide)
    exact haside.registrationsLive hlive

/-- No handler frees the transport. -/
theorem hmrHandleEcEvent_transport {event : RdmaCmEventType} {o : CmCalls} {pool : Bool}
    (h : r.hmrHandleEcEvent event o pool = some r') (hlive : r.Live .rdmaTransport) :
    r'.Live .rdmaTransport := by
  cases event with
  | established =>
    obtain rfl := Option.some.inj h
    rcases hmrContextAddEventFd_cases r o.addTimer r.stTimerfd .stTimerfd with
      ⟨-, hadded⟩ | ⟨-, haside⟩
    · rw [hadded]
      exact ⟨List.mem_append_left _ hlive.1, hlive.2⟩
    · exact haside.toKeeps.transport hlive
  | disconnected => exact (onCmDisconnected_cases h).1 .stTimerfd hlive
  | _ =>
    have hkeeps := hmrHandleEcEvent_keeps h (by decide) (by decide)
    exact hkeeps.transport hlive

end Resources

end QueuePair

section Transport

variable {t t' : ContextTransport}

/-- A step aside of the resources, behind which the phase is early only if it was before. -/
theorem ContextTransport.RegistrationInv.aside (hinv : t.RegistrationInv)
    (haside : t.resources.Aside t'.resources) (hearly : t'.phase.Early → t.phase.Early) :
    t'.RegistrationInv where
  live := haside.toKeeps.transport hinv.live
  registrations := haside.registrationsLive hinv.registrations
  early hphase := by
    obtain ⟨hcomp, hcq⟩ := hinv.early (hearly hphase)
    exact ⟨haside.same ▸ hcomp, hcq ∘ haside.released .compChannel⟩

/-- A quiet step is one. -/
theorem ContextTransport.RegistrationInv.quiet (hinv : t.RegistrationInv)
    (hchange : QuietChange t t') : t'.RegistrationInv := by
  refine hinv.aside hchange.aside fun hphase => ?_
  rcases hchange.phase with hsame | ⟨hidle, -⟩
  · exact hsame ▸ hphase
  · exact .inl hidle

/-- What `hmr_rdma_create` returns keeps the invariant. -/
theorem registrationInv_create {o : CreateOutcomes} {r : Resources} (channel : ℕ)
    (h : Resources.hmrRdmaCreate o = some r) :
    (ContextTransport.mk hmrRdmaCreate r .idle channel).RegistrationInv := by
  obtain ⟨hlive, hregistrations, honly, hcq⟩ := Resources.hmrRdmaCreate_cases h
  refine ⟨hlive, hregistrations, fun _ => ⟨fun hcomp => ?_, hcq⟩⟩
  exact absurd (honly _ hcomp) (by decide)

/-- So does what `on_cm_connect_request` creates, with its queue pair. -/
theorem registrationInv_request {o : CmCalls} {channel : ℕ}
    (h : requestTransport o channel = some t)
    (hqp : o.create.calloc ∧ o.deviceFound → o.qp.cqOk → o.qp.createQp) : t.RegistrationInv := by
  obtain ⟨r, hr, hcalloc, -, hresources, hkeeps, hphase⟩ := requestTransport_cases h
  obtain ⟨hlive, hregistrations, honly, hcq⟩ := Resources.hmrRdmaCreate_cases hr
  refine ⟨hkeeps.transport hlive, ?_, fun hearly => ?_⟩
  · rw [hresources]
    split
    · rename_i hdevice
      refine Resources.hmrQpCreate_live hregistrations ⟨fun hcomp => ?_, hcq⟩
        (hqp ⟨hcalloc, hdevice⟩)
      exact absurd (honly _ hcomp) (by decide)
    · exact hregistrations
  · rw [hphase] at hearly
    split at hearly <;> simp [CmPhase.Early] at hearly

/-- And every handler of a transport, when it gets its queue pair. -/
theorem registrationInv_event {event : RdmaCmEventType} {o : CmCalls} {retval : ℤ}
    (hinv : t.RegistrationInv) (h : t.hmrHandleEcEvent event o = some (retval, t'))
    (hqp : event = .routeResolved → o.qp.cqOk → o.qp.createQp) : t'.RegistrationInv := by
  obtain ⟨-, hphase, hresources⟩ := hmrHandleEcEvent_cases h
  refine ⟨Resources.hmrHandleEcEvent_transport hresources hinv.live, ?_, fun hearly => ?_⟩
  · refine Resources.hmrHandleEcEvent_live hresources hinv.registrations hinv.live ?_ hqp
    rintro rfl
    obtain ⟨hresolving, -⟩ := Option.ite_none_right_eq_some.mp hphase
    exact hinv.early (.inr (.inr (.inr hresolving)))
  · obtain ⟨hbefore, hroute, hestablished, hdisconnected⟩ := CmPhase.after_early hphase hearly
    have haside :=
      Resources.hmrHandleEcEvent_aside hresources hroute hestablished hdisconnected
    exact (hinv.aside haside fun _ => hbefore).early hearly

end Transport

/-- Every transport of the context keeps the invariant. -/
def RegistrationsInv (ctx : HmrContext) : Prop := ∀ t ∈ ctx.transports, t.RegistrationInv

/-- In particular its registrations are live. -/
theorem RegistrationsInv.live {ctx : HmrContext} (hinv : RegistrationsInv ctx) :
    ctx.RegistrationsLive :=
  fun reg t ht hreg => (hinv t (List.mem_of_getElem? ht)).registrations reg.descriptor hreg

/-- A step whose handler gets its queue pair keeps all the transports' invariants. -/
theorem registrationsInv_step {ctx ctx' : HmrContext} {e : ContextEvent}
    (hinv : RegistrationsInv ctx) (hqp : CreatesQp ctx e) (hstep : contextStep ctx e = some ctx') :
    RegistrationsInv ctx' := by
  refine forall_transports_step hstep hinv ?_ ?_ ?_ ?_ ?_
  · exact fun o r channel hr => registrationInv_create channel hr
  · exact fun t t' ht => ht.quiet
  · rintro t phase ht - hphase
    refine ht.aside (.refl _) fun hearly => ?_
    rcases hphase with rfl | rfl <;> simp [CmPhase.Early] at hearly
  · rintro i event o t t' retval rfl ht hhandler
    exact registrationInv_event ht hhandler fun hevent => hqp (.inl hevent)
  · rintro i o channel t rfl hrequest
    exact registrationInv_request hrequest fun hcalls => hqp (.inr ⟨rfl, hcalls⟩)

/-- A handler that gets its completion queue but no queue pair leaves a registration that
dangles. -/
theorem createsQp_of_live {ctx ctx' : HmrContext} {e : ContextEvent}
    (hstep : contextStep ctx e = some ctx') (hlive : ctx'.RegistrationsLive) :
    CreatesQp ctx e := by
  cases e with
  | cm i event o =>
    intro hasks hok
    by_contra hqp
    have hdangles (r : Resources) := r.hmrQpCreate_dangles hok (by simpa using hqp)
    have habsurd {u : ContextTransport} (hu : u ∈ ctx'.transports)
        (r : Resources) (hr : u.resources = (r.hmrQpCreate o.qp).2) : False := by
      obtain ⟨j, hj⟩ := List.mem_iff_getElem?.mp hu
      have hgone := hlive ⟨j, .compChannel⟩ u hj
      rw [hr] at hgone
      exact (hdangles r).2 (hgone (hdangles r).1)
    obtain ⟨t, t', retval, isStop, ht, -, hhandler, rfl⟩ := contextStep_cm hstep
    obtain ⟨-, -, hresources⟩ := hmrHandleEcEvent_cases hhandler
    obtain ⟨hi, -⟩ := List.getElem?_eq_some_iff.mp ht
    rcases hasks with rfl | ⟨rfl, hcalloc, hdevice⟩
    · have hresolved : t'.resources = (t.resources.hmrQpCreate o.qp).2 := by
        obtain hresources := Option.some.inj hresources
        rw [← hresources]
        simp [Resources.onCmRouteResolved, Resources.hmrQpCreate_fst, hqp]
      exact habsurd (List.mem_append_left _ (List.mem_set hi t')) t.resources hresolved
    · obtain ⟨r, hr⟩ : ∃ r, Resources.hmrRdmaCreate o.create = some r := ⟨_, if_pos hcalloc⟩
      obtain ⟨u, hu, hresources⟩ : ∃ u, requestTransport o t.channel = some u ∧
          u.resources = (r.hmrQpCreate o.qp).2 := by
        simp [requestTransport, Resources.onCmConnectRequest, hr, hdevice]
      exact habsurd (List.mem_append_right _ (by simp [hu])) r hresources
  | _ => trivial

/-- The registrations of a context dangle in no state exactly when every `rdma_create_qp` its
handlers get to succeeds. -/
theorem registrationsLive_iff (events : List ContextEvent) :
    Always contextStep HmrContext.RegistrationsLive hmrContextCreate events ↔
      Guarded contextStep CreatesQp hmrContextCreate events :=
  always_iff_guarded (D := fun _ => True) (fun _ => RegistrationsInv.live)
    (fun _ _ _ _ => registrationsInv_step) (fun _ _ _ _ _ => createsQp_of_live)
    (fun _ _ => trivial) fun _ ht => absurd ht List.not_mem_nil

/-- A connection request whose `rdma_create_qp` fails leaves the completion channel of a freed
`hmr_cq` in the epoll set. -/
theorem registration_dangles :
    ¬∀ events : List ContextEvent, Always contextStep HmrContext.RegistrationsLive
      hmrContextCreate events := by
  intro h
  have hrun : (runEvents contextStep hmrContextCreate [.create sampleCalls.create,
      .listen 0 true, .wait [⟨0, .eventChannel⟩], .dispatch, .cm 0 .connectRequest
        { sampleCalls with qp := { sampleCalls.qp with createQp := false } }]).map
      (fun ctx => ctx.transports[1]?.map fun t =>
        (decide (.compChannel ∈ t.resources.registered), decide (t.resources.Live .hmrCq))) =
          some (some (true, false)) := by
    decide +kernel
  obtain ⟨ctx, hctx, hdangles⟩ := Option.map_eq_some_iff.mp hrun
  obtain ⟨t, ht, hdangles⟩ := Option.map_eq_some_iff.mp hdangles
  obtain ⟨hregistered, hfreed⟩ := Prod.mk.inj hdangles
  have hlive := (h _).of_run hctx ⟨1, .compChannel⟩ t ht (of_decide_eq_true hregistered)
  exact of_decide_eq_false hfreed hlive

end HmrRpc
