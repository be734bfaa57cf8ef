import HmrRpc.Registrations

/-!
# The handlers of a batch (`hmr_context_run`)

The ready events are taken from the epoll set once, and the handler of each is called in turn,
whatever the handlers before it took out of the set. Handling DISCONNECTED takes out every
descriptor of the transport, behind the queue pair and the pool they are served with, and that
is the only way a descriptor that was ever ready is taken out.
-/

namespace HmrRpc

open Common

/-- The transport of a timer or a completion channel still has its queue pair. -/
def HmrContext.Serves (ctx : HmrContext) (reg : Registration) : Prop :=
  reg.descriptor ≠ .eventChannel →
    ∀ t, ctx.transports[reg.trans]? = some t → t.trans.qp.status ≠ .gone

/-- The handler called next is that of a registered descriptor, and neither it nor the one in
progress works on a destroyed queue pair. -/
structure HmrContext.HandlersCurrent (ctx : HmrContext) : Prop where
  next : ctx.running = none → ∀ reg ∈ ctx.batch.head?, ctx.Registered reg ∧ ctx.Serves reg
  running : ∀ reg, ctx.running = some reg → ctx.Serves reg

/-- DISCONNECTED is handled for a transport none of whose ready events is still to come. -/
def DisconnectsBehind (ctx : HmrContext) : ContextEvent → Prop
  | .cm i .disconnected _ => ∀ reg ∈ ctx.batch, reg.trans ≠ i
  | _ => True

instance (ctx : HmrContext) (e : ContextEvent) : Decidable (DisconnectsBehind ctx e) := by
  unfold DisconnectsBehind
  split <;> infer_instance

/-- What the phase of a transport says of its descriptors: there is no completion channel before
the queue pair is asked for, no timer before the connection is established, and neither behind
the queue pair. -/
structure ContextTransport.DescriptorInv (t : ContextTransport) : Prop where
  comp : t.phase.Early → .compChannel ∉ t.resources.registered
  timer : .stTimerfd ∈ t.resources.registered → t.phase = .established
  gone : t.trans.qp.status = .gone → (t.phase = .failed ∨ t.phase = .disconnected) ∧
    ∀ d ∈ t.resources.registered, d = .eventChannel

section Handlers

/-- Posting receives destroys no queue pair. -/
theorem postRecvs_status {o : ℕ → Outcomes} {n : ℕ} {t t' : HmrRdmaTransport}
    (h : postRecvs o n t = .ok t') : t'.qp.status = t.qp.status :=
  postRecvs_preserves (f := fun t => t.qp.status)
    (fun hpost => congrArg (fun side => side.2.2.2) hpost.receiverSide) h

/-- A queue pair is gone behind DISCONNECTED, and behind an `rdma_connect` that fails. -/
theorem hmrHandleEcEvent_gone {event : RdmaCmEventType} {o : CmOutcomes} {retval : ℤ}
    {t t' : HmrRdmaTransport} (h : hmrHandleEcEvent event o t = .ok (retval, t'))
    (hgone : t'.qp.status = .gone) :
    t.qp.status = .gone ∨ event = .disconnected ∨
      event = .routeResolved ∧ o.qpCreate = 0 ∧ o.connect ≠ 0 ∧ retval = o.connect := by
  cases event with
  | addrResolved =>
    obtain ⟨-, rfl⟩ := Prod.mk.inj (Except.ok.inj h)
    unfold onCmAddrResolved at hgone
    split at hgone <;> exact .inl hgone
  | routeResolved =>
    obtain ⟨u, hu, hpair⟩ := map_eq_ok h
    obtain ⟨rfl, rfl⟩ := Prod.mk.inj hpair
    by_cases hqp : o.qpCreate = 0
    · by_cases hconnect : o.connect = 0
      · simp only [onCmRouteResolved, hqp, hconnect, decide_true, if_true] at hu
        rw [postRecvs_status hu] at hgone
        contradiction
      · exact .inr (.inr ⟨rfl, hqp, hconnect, by simp [CmOutcomes.routeResolvedRetval, hqp]⟩)
    · simp only [onCmRouteResolved, hqp, decide_false, Bool.false_eq_true, if_false] at hu
      exact .inl (Except.ok.inj hu ▸ hgone)
  | established =>
    obtain ⟨u, hu, hpair⟩ := map_eq_ok h
    obtain ⟨-, rfl⟩ := Prod.mk.inj hpair
    rcases onCmEstablished_cases hu with ⟨-, rfl⟩ | ⟨-, pool, r, -, hsend⟩
    · exact .inl hgone
    · exact .inl ((congrArg (fun side => side.2.2.2) hsend.receiverSide).symm.trans hgone)
  | disconnected => exact .inr (.inl rfl)
  | _ =>
    obtain ⟨-, rfl⟩ := Prod.mk.inj (Except.ok.inj h)
    exact .inl hgone

/-- A handler of another event takes no descriptor out. -/
theorem Resources.hmrHandleEcEvent_registered {r r' : Resources} {event : RdmaCmEventType}
    {o : CmCalls} {pool : Bool} (h : r.hmrHandleEcEvent event o pool = some r')
    (hdisconnected : event ≠ .disconnected)
    (hfresh : event = .routeResolved → .compChannel ∉ r.registered) :
    r.registered ⊆ r'.registered := by
  intro d hd
  by_cases hestablished : event = .established
  · subst hestablished
    obtain rfl := Option.some.inj h
    rcases Resources.hmrContextAddEventFd_cases r o.addTimer r.stTimerfd .stTimerfd with
      ⟨-, hadded⟩ | ⟨-, haside⟩
    · rw [hadded]
      exact List.mem_append_left _ hd
    · exact haside.same ▸ hd
  · by_cases hroute : event = .routeResolved
    · have hne : d ≠ .compChannel := by
        rintro rfl
        exact hfresh hroute hd
      exact ((hmrHandleEcEvent_keeps h hestablished hdisconnected).registered d hne).mpr hd
    · exact (hmrHandleEcEvent_aside h hroute hestablished hdisconnected).same ▸ hd

variable {t t' : ContextTransport} {event : RdmaCmEventType} {o : CmCalls} {retval : ℤ}

/-- A handler keeps what the phase says of the descriptors. -/
theorem descriptorInv_event (hinv : t.DescriptorInv)
    (h : t.hmrHandleEcEvent event o = some (retval, t')) : t'.DescriptorInv := by
  obtain ⟨htrans, hphase, hresources⟩ := hmrHandleEcEvent_cases h
  refine ⟨fun hearly => ?_, fun htimer => ?_, fun hgone => ?_⟩
  · obtain ⟨hbefore, hroute, hestablished, hdisconnected⟩ := CmPhase.after_early hphase hearly
    rw [(Resources.hmrHandleEcEvent_aside hresources hroute hestablished hdisconnected).same]
    exact hinv.comp hbefore
  · by_cases hestablished : event = .established
    · subst hestablished
      obtain ⟨-, hphase⟩ := Option.ite_none_right_eq_some.mp hphase
      exact (Option.some.inj hphase).symm
    · by_cases hdisconnected : event = .disconnected
      · subst hdisconnected
        rw [(Resources.onCmDisconnected_cases hresources).2] at htimer
        contradiction
      · have hkeeps := Resources.hmrHandleEcEvent_keeps hresources hestablished hdisconnected
        have hbefore := hinv.timer ((hkeeps.registered .stTimerfd (by decide)).mp htimer)
        rw [hbefore] at hphase
        exact CmPhase.after_established hphase hdisconnected
  · rcases hmrHandleEcEvent_gone htrans hgone with hbefore | rfl | ⟨rfl, hqp, hconnect, rfl⟩
    · obtain ⟨hended, honly⟩ := hinv.gone hbefore
      obtain ⟨hsame, hroute, hestablished, hdisconnected⟩ := CmPhase.after_ended hphase hended
      rw [hsame, (Resources.hmrHandleEcEvent_aside hresources hroute hestablished
        hdisconnected).same]
      exact ⟨hended, honly⟩
    · obtain ⟨-, hphase⟩ := Option.ite_none_right_eq_some.mp hphase
      rw [(Resources.onCmDisconnected_cases hresources).2]
      exact ⟨.inr (Option.some.inj hphase).symm, fun d hd => absurd hd List.not_mem_nil⟩
    · obtain ⟨hresolving, hphase⟩ := Option.ite_none_right_eq_some.mp hphase
      rw [if_neg hconnect] at hphase
      refine ⟨.inl (Option.some.inj hphase).symm, fun d hd => ?_⟩
      have hreleased : t'.resources = (t.resources.hmrQpCreate o.qp).2.hmrQpRelease := by
        have hok : o.qpOk := by simpa [CmCalls.outcomes] using hqp
        rw [← Option.some.inj hresources]
        unfold Resources.onCmRouteResolved
        dsimp only
        rw [Resources.hmrQpCreate_fst]
        exact if_pos ⟨hok, hconnect⟩
      cases d with
      | eventChannel => rfl
      | compChannel =>
        rw [hreleased] at hd
        exact absurd hd (Resources.hmrQpRelease_keeps _).2
      | stTimerfd =>
        have hkeeps := Resources.hmrHandleEcEvent_keeps hresources (by decide) (by decide)
        have htimer := hinv.timer ((hkeeps.registered .stTimerfd (by decide)).mp hd)
        rw [hresolving] at htimer
        contradiction

/-- So does a quiet step. -/
theorem descriptorInv_quiet (hinv : t.DescriptorInv) (hchange : QuietChange t t') :
    t'.DescriptorInv := by
  have hsame := hchange.aside.same
  refine ⟨fun hearly => ?_, fun htimer => ?_, fun hgone => ?_⟩
  · rw [hsame]
    rcases hchange.phase with hphase | ⟨hidle, -⟩
    · exact hinv.comp (hphase ▸ hearly)
    · exact hinv.comp (.inl hidle)
  · have hestablished := hinv.timer (hsame ▸ htimer)
    rcases hchange.phase with hphase | ⟨hidle, -⟩
    · exact hphase.trans hestablished
    · rw [hidle] at hestablished
      contradiction
  · obtain ⟨hended, honly⟩ := hinv.gone (hchange.status ▸ hgone)
    rw [hsame]
    rcases hchange.phase with hphase | ⟨hidle, -⟩
    · rw [hphase]
      exact ⟨hended, honly⟩
    · simp [hidle] at hended

/-- What `hmr_rdma_create` returns has at most its event channel registered, and no queue pair. -/
theorem descriptorInv_create {o : CreateOutcomes} {r : Resources} (channel : ℕ)
    (h : Resources.hmrRdmaCreate o = some r) :
    (ContextTransport.mk hmrRdmaCreate r .idle channel).DescriptorInv := by
  obtain ⟨-, -, honly, -⟩ := Resources.hmrRdmaCreate_cases h
  refine ⟨fun _ hcomp => ?_, fun htimer => ?_, fun hgone => nomatch hgone⟩
  · exact absurd (honly _ hcomp) (by decide)
  · exact absurd (honly _ htimer) (by decide)

/-- What `on_cm_connect_request` creates has no timer registered. -/
theorem descriptorInv_request {channel : ℕ} (h : requestTransport o channel = some t) :
    t.DescriptorInv := by
  obtain ⟨r, hr, -, htrans, -, hkeeps, hphase⟩ := requestTransport_cases h
  obtain ⟨-, -, honly, -⟩ := Resources.hmrRdmaCreate_cases hr
  refine ⟨fun hearly => ?_, fun htimer => ?_, fun hgone => ?_⟩
  · rw [hphase] at hearly
    split at hearly <;> simp [CmPhase.Early] at hearly
  · exact absurd (honly _ ((hkeeps.registered _ (by decide)).mp htimer)) (by decide)
  · rw [htrans] at hgone
    unfold onCmConnectRequest at hgone
    split at hgone <;> contradiction

end Handlers

section Context

variable {ctx ctx' : HmrContext} {e : ContextEvent} {reg : Registration}

/-- Every transport keeps its invariant in every run. -/
theorem descriptorInv_step (hinv : ∀ t ∈ ctx.transports, t.DescriptorInv)
    (hstep : contextStep ctx e = some ctx') : ∀ t ∈ ctx'.transports, t.DescriptorInv := by
  refine forall_transports_step hstep hinv ?_ ?_ ?_ ?_ ?_
  · exact fun o r channel hr => descriptorInv_create channel hr
  · exact fun t t' ht => descriptorInv_quiet ht
  · intro t phase ht hrequested hphase
    refine ⟨fun hearly => ?_, fun htimer => ?_, fun hgone => ?_⟩
    · rcases hphase with rfl | rfl <;> simp [CmPhase.Early] at hearly
    · simpa [hrequested] using ht.timer htimer
    · simpa [hrequested] using (ht.gone hgone).1
  · exact fun i event o t t' retval _ ht hhandler => descriptorInv_event ht hhandler
  · exact fun i o channel t _ hrequest => descriptorInv_request hrequest

/-- A registered timer or completion channel has its queue pair. -/
theorem HmrContext.Registered.serves (hreg : ctx.Registered reg)
    (hinv : ∀ t ∈ ctx.transports, t.DescriptorInv) : ctx.Serves reg := by
  intro hne t ht hgone
  obtain ⟨u, hu, hd⟩ := hreg
  obtain rfl := Option.some.inj (ht.symm.trans hu)
  exact hne (((hinv t (List.mem_of_getElem? ht)).gone hgone).2 _ hd)

/-- A descriptor stays registered when its transport keeps it, whatever transports are added. -/
theorem HmrContext.Registered.set {i : ℕ} {t t' : ContextTransport} {new : List ContextTransport}
    (hreg : ctx.Registered reg) (ht : ctx.transports[i]? = some t)
    (hkept : reg.trans = i → t.resources.registered ⊆ t'.resources.registered)
    (htransports : ctx'.transports = ctx.transports.set i t' ++ new) : ctx'.Registered reg := by
  obtain ⟨u, hu, hd⟩ := hreg
  obtain ⟨hi, -⟩ := List.getElem?_eq_some_iff.mp hu
  have hnew : ctx'.transports[reg.trans]? = (ctx.transports.set i t')[reg.trans]? := by
    rw [htransports, List.getElem?_append_left (by simpa using hi)]
  by_cases hsame : reg.trans = i
  · subst hsame
    obtain rfl := Option.some.inj (ht.symm.trans hu)
    exact ⟨t', by rw [hnew, List.getElem?_set_self hi], hkept rfl hd⟩
  · exact ⟨u, by rw [hnew, List.getElem?_set_ne (Ne.symm hsame), hu], hd⟩

/-- A step takes out no descriptor, those of a transport it disconnects apart. -/
theorem registered_step (hinv : ∀ t ∈ ctx.transports, t.DescriptorInv)
    (hstep : contextStep ctx e = some ctx') (hreg : ctx.Registered reg)
    (hother : ∀ i o, e = .cm i .disconnected o → reg.trans ≠ i) : ctx'.Registered reg := by
  cases contextStep_cases hstep with
  | created o r hr =>
    obtain ⟨u, hu, hd⟩ := hreg
    obtain ⟨hi, -⟩ := List.getElem?_eq_some_iff.mp hu
    exact ⟨u, (List.getElem?_append_left hi).trans hu, hd⟩
  | quiet _ _ i t t' accept ht hchange =>
    exact hreg.set ht (fun _ => hchange.aside.same ▸ List.Subset.refl _) (List.append_nil _).symm
  | cm i event o t t' retval isStop ht _ hhandler =>
    refine hreg.set ht (fun hsame => ?_) rfl
    obtain ⟨-, hphase, hresources⟩ := hmrHandleEcEvent_cases hhandler
    refine Resources.hmrHandleEcEvent_registered hresources ?_ ?_
    · rintro rfl
      exact hother i o rfl hsame
    · rintro rfl
      obtain ⟨hresolving, -⟩ := Option.ite_none_right_eq_some.mp hphase
      exact (hinv t (List.mem_of_getElem? ht)).comp (.inr (.inr (.inr hresolving)))
  | accepted i t ht _ =>
    refine hreg.set ht (fun _ => ?_) (List.append_nil _).symm
    exact List.Subset.refl _
  | refused i t ht _ =>
    refine hreg.set ht (fun _ => ?_) (List.append_nil _).symm
    exact List.Subset.refl _
  | _ => exact hreg

/-- What carries the handlers through a batch. -/
structure DispatchInv (ctx : HmrContext) : Prop where
  transports : ∀ t ∈ ctx.transports, t.DescriptorInv
  batch : ∀ reg ∈ ctx.batch, ctx.Registered reg
  running : ∀ reg, ctx.running = some reg → reg.descriptor ≠ .eventChannel → ctx.Registered reg

theorem DispatchInv.handlersCurrent (hinv : DispatchInv ctx) : ctx.HandlersCurrent where
  next _ reg hnext :=
    have hreg := hinv.batch reg (List.mem_of_mem_head? hnext)
    ⟨hreg, hreg.serves hinv.transports⟩
  running reg hrunning hne := (hinv.running reg hrunning hne).serves hinv.transports hne

/-- A step that disconnects no transport of a pending ready event keeps the invariant. -/
theorem dispatchInv_step (hinv : DispatchInv ctx) (hclear : DisconnectsBehind ctx e)
    (hstep : contextStep ctx e = some ctx') : DispatchInv ctx' := by
  have hbatch (reg : Registration) (hreg : reg ∈ ctx.batch) : ctx'.Registered reg := by
    refine registered_step hinv.transports hstep (hinv.batch reg hreg) ?_
    rintro i o rfl
    exact hclear reg hreg
  have hrunning (reg : Registration) (hrun : ctx.running = some reg)
      (hne : reg.descriptor ≠ .eventChannel) : ctx'.Registered reg := by
    refine registered_step hinv.transports hstep (hinv.running reg hrun hne) ?_
    rintro i o rfl
    -- a handler that disconnects is that of an event channel
    obtain ⟨t, -, -, -, -, hchannel, -, -⟩ := contextStep_cm hstep
    obtain rfl := Option.some.inj (hrun.symm.trans hchannel)
    contradiction
  refine ⟨descriptorInv_step hinv.transports hstep, ?_, ?_⟩
  · cases contextStep_cases hstep with
    | waited batch _ hwaited => exact hwaited
    | dispatched reg rest _ hnext => exact fun reg' hreg' => hbatch reg' (by simp [hnext, hreg'])
    | _ => exact hbatch
  · cases contextStep_cases hstep with
    | dispatched reg rest _ hnext =>
      intro reg' hreg' _
      obtain rfl := Option.some.inj hreg'
      exact hbatch reg (by simp [hnext])
    | cm i event o t t' retval isStop _ hchannel _ =>
      intro reg hreg hne
      dsimp only at hreg
      split at hreg
      · exact hrunning reg hreg hne
      · contradiction
    | handled => exact fun reg hreg => nomatch hreg
    | _ => exact hrunning

/-- If DISCONNECTED is handled behind the other ready events of its transport, every handler called
is that of a registered descriptor, and works on a queue pair that is still there. -/
theorem handlersCurrent_run {events : List ContextEvent}
    (hclear : Guarded contextStep DisconnectsBehind hmrContextCreate events) :
    Always contextStep HmrContext.HandlersCurrent hmrContextCreate events := by
  refine always_of_guarded (D := fun _ => True) (fun _ => DispatchInv.handlersCurrent)
    (fun _ _ _ _ => dispatchInv_step) (fun _ _ => trivial) ?_ hclear
  refine ⟨fun _ ht => absurd ht List.not_mem_nil, fun _ hreg => absurd hreg List.not_mem_nil, ?_⟩
  exact fun _ hreg => nomatch hreg

end Context

/-- A server with an established connection. -/
def establishedServer : List ContextEvent :=
  .create sampleCalls.create :: .listen 0 true :: acceptedConnection

/-- The timer of the connection and a DISCONNECTED are ready at once, the timer first. -/
def timerFirst : List ContextEvent :=
  establishedServer ++ [.wait [⟨1, .stTimerfd⟩, ⟨0, .eventChannel⟩], .dispatch, .handled, .dispatch,
    .cm 1 .disconnected sampleCalls, .handled]

/-- All these events can be taken, and every handler is current. -/
theorem handlersCurrent_sample : (runEvents contextStep hmrContextCreate timerFirst).isSome ∧
    Always contextStep HmrContext.HandlersCurrent hmrContextCreate timerFirst :=
  ⟨by decide +kernel, handlersCurrent_run (by decide +kernel)⟩

/-- If DISCONNECTED comes first in the batch, the timer's handler is called for a removed descriptor
of a transport without its queue pair. -/
theorem handler_stale : ¬∀ events : List ContextEvent,
    Always contextStep HmrContext.HandlersCurrent hmrContextCreate events := by
  intro h
  have hrun : (runEvents contextStep hmrContextCreate (establishedServer ++
      [.wait [⟨0, .eventChannel⟩, ⟨1, .stTimerfd⟩], .dispatch, .cm 1 .disconnected sampleCalls,
        .handled])).map (fun ctx => (ctx.running, ctx.batch,
          decide (ctx.Registered ⟨1, .stTimerfd⟩))) =
            some (none, [⟨1, .stTimerfd⟩], false) := by
    decide +kernel
  obtain ⟨ctx, hctx, hstale⟩ := Option.map_eq_some_iff.mp hrun
  simp only [Prod.mk.injEq] at hstale
  obtain ⟨hrunning, hbatch, hremoved⟩ := hstale
  have hcurrent := ((h _).of_run hctx).next hrunning ⟨1, .stTimerfd⟩ (by simp [hbatch])
  exact of_decide_eq_false hremoved hcurrent.1

end HmrRpc
