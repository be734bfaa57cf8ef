import HmrRpc.Registrations

/-!
# What a server keeps of closed connections (`on_cm_connect_request`, `on_cm_disconnected`)

A listening transport gets a new transport for every connection request. Handling DISCONNECTED
destroys the queue pair and the regions of the pool and clears the epoll set, and nothing else
releases what a transport holds: the failures of `on_cm_connect_request` and `hmr_rdma_accept`
leave everything behind that was made so far. The transport itself is freed nowhere, so a server
holds something of every connection it was ever asked for.
-/

namespace HmrRpc

open Common

/-- A connection is open, or on its way. -/
def CmPhase.Open (p : CmPhase) : Prop := p.Pending ∨ p = .established

instance (p : CmPhase) : Decidable p.Open := inferInstanceAs (Decidable (_ ∨ _))

/-- The phases of the id of a connection request. -/
def CmPhase.OfRequest (p : CmPhase) : Prop :=
  p = .requested ∨ p = .accepted ∨ p = .established ∨ p = .failed ∨ p = .disconnected

/-- Every object that was created was released exactly once, and no descriptor is registered. -/
def Resources.Drained (r : Resources) : Prop := r.registered = [] ∧ r.released.Perm r.created

namespace HmrContext

variable (ctx : HmrContext)

/-- The context has a listening transport and no other one. -/
def Listening : Prop := ∃ t, ctx.transports = [t] ∧ t.phase = .listening

/-- The connection of a transport is open or pending. -/
def OpenAt (j : ℕ) : Prop := ∃ t, ctx.transports[j]? = some t ∧ t.phase.Open

instance (j : ℕ) : Decidable (ctx.OpenAt j) :=
  decidable_of_iff (ctx.transports[j]?.any fun t => t.phase.Open)
    (by simp [OpenAt, Option.any_eq_true])

/-- Unless a connection is open or pending, nothing is held beyond what the listener holds. -/
def NothingHeld : Prop :=
  (∀ j, 0 < j → ¬ctx.OpenAt j) →
    ∀ j t, 0 < j → ctx.transports[j]? = some t → t.resources.Drained

end HmrContext

namespace ContextEvent

/-- The events of a context whose application has only a listening transport. -/
def OfServer : ContextEvent → Prop
  | .create _ | .connect .. | .listen .. => False
  | _ => True

/-- A connection request gets its transport. -/
def Creates : ContextEvent → Prop
  | .cm _ .connectRequest o => o.create.calloc
  | _ => False

/-- A connection request leaves a pending connection. -/
def Requests : ContextEvent → Prop
  | .cm _ .connectRequest o => o.create.calloc ∧ o.deviceFound ∧ o.qpOk
  | _ => False

/-- The connection of a transport ends. -/
def Ends (j : ℕ) : ContextEvent → Prop
  | .cm i event _ => i = j ∧ (event = .disconnected ∨ event.IsFailure)
  | .accept i ok => i = j ∧ ok = false
  | _ => False

instance (e : ContextEvent) : Decidable e.OfServer := by
  unfold OfServer
  split <;> infer_instance

instance (e : ContextEvent) : Decidable e.Creates := by
  unfold Creates
  split <;> infer_instance

instance (e : ContextEvent) : Decidable e.Requests := by
  unfold Requests
  split <;> infer_instance

instance (e : ContextEvent) (j : ℕ) : Decidable (e.Ends j) := by
  unfold Ends
  split <;> infer_instance

end ContextEvent

/-- Where a transport is made for a request or a connection ends, the request leaves a pending
connection or another connection is open or pending. -/
def KeepsOneOpen (ctx : HmrContext) (e : ContextEvent) : Prop :=
  (e.Creates ∨ ∃ j < ctx.transports.length, e.Ends j) →
    e.Requests ∨ ∃ j < ctx.transports.length, 0 < j ∧ ctx.OpenAt j ∧ ¬e.Ends j

instance (ctx : HmrContext) (e : ContextEvent) : Decidable (KeepsOneOpen ctx e) :=
  inferInstanceAs (Decidable (_ → _))

/-- The phases of the listener and of the transports made for requests, and what these keep. -/
structure ServerInv (ctx : HmrContext) : Prop where
  listener : ∃ t, ctx.transports[0]? = some t ∧ t.phase = .listening
  requests : ∀ j t, 0 < j → ctx.transports[j]? = some t →
    t.phase.OfRequest ∧ t.resources.Live .rdmaTransport

/-- What an event does to a server: which connections are open behind it, and how many transports
there are. -/
structure ServerStep (ctx : HmrContext) (e : ContextEvent) (ctx' : HmrContext) : Prop where
  inv : ServerInv ctx'
  openAt : ∀ j, ctx'.OpenAt j ↔
    (ctx.OpenAt j ∧ ¬e.Ends j) ∨ (e.Requests ∧ j = ctx.transports.length)
  length : ctx'.transports.length = ctx.transports.length + if e.Creates then 1 else 0
  ends : ∀ j, e.Ends j → 0 < j ∧ j < ctx.transports.length

/-- Once a transport was made for a request, a connection is open or pending. -/
def OneOpen (ctx : HmrContext) : Prop :=
  1 < ctx.transports.length → ∃ j < ctx.transports.length, 0 < j ∧ ctx.OpenAt j

section Phase

variable {p p' : CmPhase} {event : RdmaCmEventType} {retval : ℤ}

/-- The listener's id goes on listening. -/
theorem CmPhase.after_listening (h : CmPhase.listening.after event retval = some p) :
    p = .listening ∧ ¬(event = .disconnected ∨ event.IsFailure) := by
  cases event <;> simp_all [CmPhase.after, CmPhase.Pending, RdmaCmEventType.IsFailure]

/-- The id of a request is never the listener's, and a connection ends with DISCONNECTED and with
the failures. -/
theorem CmPhase.after_request (hp : p.OfRequest) (h : p.after event retval = some p') :
    p'.OfRequest ∧ event ≠ .connectRequest ∧
      (p'.Open ↔ p.Open ∧ ¬(event = .disconnected ∨ event.IsFailure)) := by
  cases event with
  | addrResolved | routeResolved | connectRequest =>
    obtain ⟨rfl, -⟩ := Option.ite_none_right_eq_some.mp h
    simp [CmPhase.OfRequest] at hp
  | established =>
    obtain ⟨rfl | rfl, h⟩ := Option.ite_none_right_eq_some.mp h
    · simp [CmPhase.OfRequest] at hp
    · obtain rfl := Option.some.inj h
      simp [CmPhase.OfRequest, CmPhase.Open, CmPhase.Pending, RdmaCmEventType.IsFailure]
  | disconnected | addrError | routeError | connectError | unreachable | rejected =>
    obtain ⟨-, h⟩ := Option.ite_none_right_eq_some.mp h
    obtain rfl := Option.some.inj h
    simp [CmPhase.OfRequest, CmPhase.Open, CmPhase.Pending, RdmaCmEventType.IsFailure]
  | _ =>
    obtain ⟨-, h⟩ := Option.ite_none_left_eq_some.mp h
    obtain rfl := Option.some.inj h
    simp [hp, RdmaCmEventType.IsFailure]

end Phase

section Step

variable {ctx ctx' : HmrContext} {e : ContextEvent}

/-- An event that leaves the transports alone. -/
theorem serverStep_same (hinv : ServerInv ctx) (htransports : ctx'.transports = ctx.transports)
    (hends : ∀ j, ¬e.Ends j) (hrequests : ¬e.Requests) (hcreates : ¬e.Creates) :
    ServerStep ctx e ctx' where
  inv := ⟨htransports ▸ hinv.listener, htransports ▸ hinv.requests⟩
  openAt j := by simp [HmrContext.OpenAt, htransports, hends, hrequests]
  length := by simp [htransports, hcreates]
  ends j h := absurd h (hends j)

/-- An event that changes one transport. -/
theorem serverStep_set {i : ℕ} {t t' : ContextTransport} (hinv : ServerInv ctx)
    (ht : ctx.transports[i]? = some t) (htransports : ctx'.transports = ctx.transports.set i t')
    (hlistening : t.phase = .listening → t'.phase = .listening)
    (hrequest : t.phase.OfRequest → t.resources.Live .rdmaTransport →
      t'.phase.OfRequest ∧ t'.resources.Live .rdmaTransport)
    (hopen : t'.phase.Open ↔ t.phase.Open ∧ ¬e.Ends i)
    (hends : ∀ j, e.Ends j → j = i ∧ t.phase ≠ .listening)
    (hrequests : ¬e.Requests) (hcreates : ¬e.Creates) : ServerStep ctx e ctx' := by
  obtain ⟨l, hl, hlphase⟩ := hinv.listener
  obtain ⟨hi, -⟩ := List.getElem?_eq_some_iff.mp ht
  have hself : ctx'.transports[i]? = some t' := by rw [htransports, List.getElem?_set_self hi]
  have hother {j : ℕ} (hj : j ≠ i) : ctx'.transports[j]? = ctx.transports[j]? := by
    rw [htransports, List.getElem?_set_ne hj.symm]
  refine ⟨⟨?_, fun j u hj hu => ?_⟩, fun j => ?_, ?_, fun j hj => ?_⟩
  · by_cases h0 : 0 = i
    · subst h0
      obtain rfl := Option.some.inj (hl.symm.trans ht)
      exact ⟨t', hself, hlistening hlphase⟩
    · exact ⟨l, (hother h0).trans hl, hlphase⟩
  · by_cases hji : j = i
    · subst hji
      obtain rfl := Option.some.inj (hself.symm.trans hu)
      obtain ⟨hphase, hlive⟩ := hinv.requests j t hj ht
      exact hrequest hphase hlive
    · exact hinv.requests j u hj ((hother hji).symm.trans hu)
  · by_cases hji : j = i
    · subst hji
      simp [HmrContext.OpenAt, hself, ht, hopen, hrequests]
    · have hne : ¬e.Ends j := fun hj => hji (hends j hj).1
      simp [HmrContext.OpenAt, hother hji, hne, hrequests]
  · simp [htransports, hcreates]
  · obtain ⟨rfl, hne⟩ := hends j hj
    refine ⟨Nat.pos_of_ne_zero ?_, hi⟩
    rintro rfl
    obtain rfl := Option.some.inj (hl.symm.trans ht)
    exact hne hlphase

/-- A connection request that gets its transport. -/
theorem serverStep_append {u : ContextTransport} (hinv : ServerInv ctx)
    (htransports : ctx'.transports = ctx.transports ++ [u]) (hphase : u.phase.OfRequest)
    (hlive : u.resources.Live .rdmaTransport) (hopen : u.phase.Open ↔ e.Requests)
    (hends : ∀ j, ¬e.Ends j) (hcreates : e.Creates) : ServerStep ctx e ctx' := by
  obtain ⟨l, hl, hlphase⟩ := hinv.listener
  have hold {j : ℕ} {t : ContextTransport} (ht : ctx.transports[j]? = some t) :
      ctx'.transports[j]? = some t := by
    obtain ⟨hj, -⟩ := List.getElem?_eq_some_iff.mp ht
    rw [htransports, List.getElem?_append_left hj, ht]
  have hcases {j : ℕ} {t : ContextTransport} (ht : ctx'.transports[j]? = some t) :
      ctx.transports[j]? = some t ∨ j = ctx.transports.length ∧ t = u := by
    rw [htransports, List.getElem?_append] at ht
    split at ht
    · exact .inl ht
    · rename_i hj
      obtain ⟨hj', rfl⟩ := List.getElem?_eq_some_iff.mp ht
      simp only [List.length_singleton] at hj'
      exact .inr ⟨by omega, by simp⟩
  refine ⟨⟨⟨l, hold hl, hlphase⟩, fun j t hj ht => ?_⟩, fun j => ?_, ?_, fun j hj => ?_⟩
  · rcases hcases ht with hbefore | ⟨-, rfl⟩
    · exact hinv.requests j t hj hbefore
    · exact ⟨hphase, hlive⟩
  · constructor
    · rintro ⟨t, ht, htopen⟩
      rcases hcases ht with hbefore | ⟨rfl, rfl⟩
      · exact .inl ⟨⟨t, hbefore, htopen⟩, hends j⟩
      · exact .inr ⟨hopen.mp htopen, rfl⟩
    · rintro (⟨⟨t, ht, htopen⟩, -⟩ | ⟨hrequests, rfl⟩)
      · exact ⟨t, hold ht, htopen⟩
      · exact ⟨u, by simp [htransports], hopen.mpr hrequests⟩
  · simp [htransports, hcreates]
  · exact absurd hj (hends j)

/-- Every transport of a server is the listener or was made for a request. -/
theorem ServerInv.phase {i : ℕ} {t : ContextTransport} (hinv : ServerInv ctx)
    (ht : ctx.transports[i]? = some t) : t.phase = .listening ∨ t.phase.OfRequest := by
  obtain ⟨l, hl, hlphase⟩ := hinv.listener
  rcases Nat.eq_zero_or_pos i with rfl | hi
  · obtain rfl := Option.some.inj (hl.symm.trans ht)
    exact .inl hlphase
  · exact .inr (hinv.requests i t hi ht).1

/-- Only a connection request makes a transport or leaves a pending connection. -/
theorem ContextEvent.plain_of_ne {i : ℕ} {event : RdmaCmEventType} {o : CmCalls}
    (hevent : event ≠ .connectRequest) :
    ¬(ContextEvent.cm i event o).Requests ∧ ¬(ContextEvent.cm i event o).Creates := by
  cases event with
  | connectRequest => exact absurd rfl hevent
  | _ => exact ⟨id, id⟩

/-- A connection event of a server. -/
theorem serverStep_cm {i : ℕ} {event : RdmaCmEventType} {o : CmCalls} (hinv : ServerInv ctx)
    (hstep : contextStep ctx (.cm i event o) = some ctx') : ServerStep ctx (.cm i event o) ctx' := by
  obtain ⟨t, t', retval, isStop, ht, -, hhandler, rfl⟩ := contextStep_cm hstep
  obtain ⟨-, hphase, hresources⟩ := hmrHandleEcEvent_cases hhandler
  by_cases hevent : event = .connectRequest
  · subst hevent
    obtain rfl := hmrHandleEcEvent_connectRequest hhandler
    have hends (j : ℕ) : ¬(ContextEvent.cm i .connectRequest o).Ends j := by
      simp [ContextEvent.Ends, RdmaCmEventType.IsFailure]
    have hset : ctx.transports.set i t' = ctx.transports := by
      obtain ⟨hi, rfl⟩ := List.getElem?_eq_some_iff.mp ht
      exact List.set_getElem_self hi
    cases hrequest : requestTransport o t'.channel with
    | none =>
      have hcalloc : o.create.calloc = false := by
        simpa [requestTransport, Resources.onCmConnectRequest, Resources.hmrRdmaCreate] using
          hrequest
      refine serverStep_same hinv (by simp [hset]) hends ?_ ?_ <;>
        simp [ContextEvent.Requests, ContextEvent.Creates, hcalloc]
    | some u =>
      obtain ⟨r, hr, hcalloc, -, -, hkeeps, huphase⟩ := requestTransport_cases hrequest
      obtain ⟨hlive, -⟩ := Resources.hmrRdmaCreate_cases hr
      refine serverStep_append (u := u) hinv (by simp [hset]) ?_
        (hkeeps.transport hlive) ?_ hends hcalloc
      · rw [huphase]
        split <;> simp [CmPhase.OfRequest]
      · rw [huphase]
        split <;> simp_all [ContextEvent.Requests, CmPhase.Open, CmPhase.Pending]
  · have hset : ctx.transports.set i t' ++ (if event = .connectRequest then
        (requestTransport o t.channel).toList else []) = ctx.transports.set i t' := by
      rw [if_neg hevent, List.append_nil]
    refine serverStep_set hinv ht hset (fun hlistening => ?_) (fun hrequest hlive => ?_) ?_
      (fun j hj => ?_) ?_ ?_
    · rw [hlistening] at hphase
      exact (CmPhase.after_listening hphase).1
    · exact ⟨(CmPhase.after_request hrequest hphase).1,
        Resources.hmrHandleEcEvent_transport hresources hlive⟩
    · rcases hinv.phase ht with hlistening | hrequest
      · rw [hlistening] at hphase ⊢
        rw [(CmPhase.after_listening hphase).1]
        simp [CmPhase.Open, CmPhase.Pending]
      · simp [(CmPhase.after_request hrequest hphase).2.2, ContextEvent.Ends]
    · obtain ⟨rfl, hended⟩ := hj
      refine ⟨rfl, fun hlistening => ?_⟩
      rw [hlistening] at hphase
      exact (CmPhase.after_listening hphase).2 hended
    · exact (ContextEvent.plain_of_ne hevent).1
    · exact (ContextEvent.plain_of_ne hevent).2

/-- What every event does to a server. -/
theorem serverStep_of_step (hinv : ServerInv ctx) (he : e.OfServer)
    (hstep : contextStep ctx e = some ctx') : ServerStep ctx e ctx' := by
  cases contextStep_cases hstep with
  | created | notCreated => exact he.elim
  | quiet _ hquiet i t t' accept ht hchange =>
    have hplain : (∀ j, ¬e.Ends j) ∧ ¬e.Requests ∧ ¬e.Creates := by
      cases e <;> simp_all [ContextEvent.IsQuiet, ContextEvent.Ends, ContextEvent.Requests,
        ContextEvent.Creates]
    have hphase : t'.phase = t.phase := by
      rcases hchange.phase with hsame | ⟨hidle, -⟩
      · exact hsame
      · rcases hinv.phase ht with h | h <;> simp [hidle, CmPhase.OfRequest] at h
    exact serverStep_set hinv ht rfl (hphase.trans ·)
      (fun hrequest hlive => ⟨hphase ▸ hrequest, hchange.aside.toKeeps.transport hlive⟩)
      (by simp [hphase, hplain.1]) (fun j hj => absurd hj (hplain.1 j)) hplain.2.1 hplain.2.2
  | waited | dispatched | handled =>
    exact serverStep_same hinv rfl (fun _ => id) id id
  | cm i event o => exact serverStep_cm hinv hstep
  | accepted i t ht hphase =>
    refine serverStep_set hinv ht rfl (fun hlistening => ?_) (fun _ hlive => ⟨.inr (.inl rfl), hlive⟩)
      ?_ (fun j hj => ?_) id id
    · simp [hphase] at hlistening
    · simp [hphase, CmPhase.Open, CmPhase.Pending, ContextEvent.Ends]
    · simp [ContextEvent.Ends] at hj
  | refused i t ht hphase =>
    refine serverStep_set hinv ht rfl (fun hlistening => ?_)
      (fun _ hlive => ⟨.inr (.inr (.inr (.inl rfl))), hlive⟩) ?_ (fun j hj => ?_) id id
    · simp [hphase] at hlistening
    · simp [hphase, CmPhase.Open, CmPhase.Pending, ContextEvent.Ends]
    · exact ⟨hj.1.symm, by simp [hphase]⟩

/-- An open connection is that of a transport. -/
theorem HmrContext.OpenAt.lt {j : ℕ} (h : ctx.OpenAt j) : j < ctx.transports.length := by
  obtain ⟨t, ht, -⟩ := h
  exact (List.getElem?_eq_some_iff.mp ht).1

/-- A step keeps one connection open exactly if it meets the condition. -/
theorem ServerStep.oneOpen_iff (h : ServerStep ctx e ctx') (hinv : ServerInv ctx)
    (hbefore : OneOpen ctx) : OneOpen ctx' ↔ KeepsOneOpen ctx e := by
  have hlength := h.length
  obtain ⟨l, hl, -⟩ := hinv.listener
  obtain ⟨hpos, -⟩ := List.getElem?_eq_some_iff.mp hl
  constructor
  · intro hopen hchange
    have hmany : 1 < ctx'.transports.length := by
      rcases hchange with hcreates | ⟨j, -, hj⟩
      · rw [if_pos hcreates] at hlength
        omega
      · obtain ⟨hj0, hjlt⟩ := h.ends j hj
        omega
    obtain ⟨j, -, hj0, hj⟩ := hopen hmany
    rcases (h.openAt j).mp hj with ⟨hold, hne⟩ | ⟨hrequests, -⟩
    · exact .inr ⟨j, hold.lt, hj0, hold, hne⟩
    · exact .inl hrequests
  · intro hkeeps hmany
    by_cases hchange : e.Creates ∨ ∃ j < ctx.transports.length, e.Ends j
    · rcases hkeeps hchange with hrequests | ⟨j, -, hj0, hj, hne⟩
      · have hnew := (h.openAt _).mpr (.inr ⟨hrequests, rfl⟩)
        exact ⟨_, hnew.lt, hpos, hnew⟩
      · have hstill := (h.openAt j).mpr (.inl ⟨hj, hne⟩)
        exact ⟨j, hstill.lt, hj0, hstill⟩
    · have hnone : ∀ j, ¬e.Ends j := fun j hj => hchange (.inr ⟨j, (h.ends j hj).2, hj⟩)
      rw [if_neg fun hcreates => hchange (.inl hcreates)] at hlength
      obtain ⟨j, -, hj0, hj⟩ := hbefore (by omega)
      have hstill := (h.openAt j).mpr (.inl ⟨hj, hnone j⟩)
      exact ⟨j, hstill.lt, hj0, hstill⟩

/-- While a connection is open nothing has to be released yet. -/
theorem OneOpen.nothingHeld (h : OneOpen ctx) : ctx.NothingHeld := by
  intro hclosed j t hj ht
  obtain ⟨hlt, -⟩ := List.getElem?_eq_some_iff.mp ht
  obtain ⟨k, -, hk, hopen⟩ := h (by omega)
  exact absurd hopen (hclosed k hk)

/-- As the transports of requests are never freed, nothing is held only while one is open. -/
theorem ServerInv.oneOpen (hinv : ServerInv ctx) (hheld : ctx.NothingHeld) : OneOpen ctx := by
  intro hmany
  by_contra hnone
  have hclosed (j : ℕ) (hj : 0 < j) : ¬ctx.OpenAt j := fun h => hnone ⟨j, h.lt, hj, h⟩
  have ht : ctx.transports[1]? = some ctx.transports[1] := List.getElem?_eq_getElem hmany
  obtain ⟨-, hcreated, hreleased⟩ := hinv.requests 1 _ (by omega) ht
  exact hreleased ((hheld hclosed 1 _ (by omega) ht).2.mem_iff.mpr hcreated)

end Step

/-- A server holds nothing beyond its listener, in every state of a run without an open or pending
connection, exactly when the run has no such state once a transport was made for a request. -/
theorem nothingHeld_iff {ctx : HmrContext} {events : List ContextEvent} (hctx : ctx.Listening)
    (hevents : ∀ e ∈ events, e.OfServer) :
    Always contextStep HmrContext.NothingHeld ctx events ↔
      Guarded contextStep KeepsOneOpen ctx events := by
  obtain ⟨l, htransports, hlphase⟩ := hctx
  have hstart : ServerInv ctx ∧ OneOpen ctx := by
    refine ⟨⟨⟨l, by simp [htransports], hlphase⟩, fun j t hj ht => ?_⟩, fun hmany => ?_⟩
    · obtain ⟨hlt, -⟩ := List.getElem?_eq_some_iff.mp ht
      simp only [htransports, List.length_singleton] at hlt
      omega
    · simp [htransports] at hmany
  refine always_iff_guarded (D := ContextEvent.OfServer)
    (I := fun ctx => ServerInv ctx ∧ OneOpen ctx) (fun _ hinv => hinv.2.nothingHeld)
    (fun s e t he hinv hkeeps hstep => ?_) (fun s e t he hinv hstep hheld => ?_) hevents hstart
  · have hserver := serverStep_of_step hinv.1 he hstep
    exact ⟨hserver.inv, (hserver.oneOpen_iff hinv.1 hinv.2).mpr hkeeps⟩
  · have hserver := serverStep_of_step hinv.1 he hstep
    exact (hserver.oneOpen_iff hinv.1 hinv.2).mp (hserver.inv.oneOpen hheld)

/-- A context behind `hmr_rdma_listen`. -/
def sampleListener : HmrContext :=
  { hmrContextCreate with
    transports := [⟨hmrRdmaListen true hmrRdmaCreate,
      ⟨[.rdmaTransport, .eventChannel, .eventData .eventChannel, .timerfd], [], [.eventChannel],
        true⟩, .listening, 0⟩] }

/-- All the events of a connection can be taken, and it is open or pending all along. -/
theorem nothingHeld_sample :
    (runEvents contextStep sampleListener acceptedConnection).isSome ∧
      Always contextStep HmrContext.NothingHeld sampleListener acceptedConnection :=
  ⟨by decide +kernel, (nothingHeld_iff ⟨_, rfl, rfl⟩ (by decide)).mpr (by decide +kernel)⟩

/-- When the only connection is disconnected, the queue pair and the regions of the pool are released,
and everything else is still there. -/
theorem connection_leaks : ¬∀ (ctx : HmrContext) (events : List ContextEvent), ctx.Listening →
    (∀ e ∈ events, e.OfServer) → Always contextStep HmrContext.NothingHeld ctx events := by
  intro h
  have hrun : (runEvents contextStep sampleListener (acceptedConnection ++
      [.wait [⟨0, .eventChannel⟩], .dispatch, .cm 1 .disconnected sampleCalls])).map
      (fun ctx => (ctx.transports.map ContextTransport.phase, ctx.transports[1]?.map fun t =>
        t.resources.created.filter (· ∉ t.resources.released))) =
          some ([.listening, .disconnected], some [.rdmaTransport, .eventChannel,
            .eventData .eventChannel, .timerfd, .hmrCq, .compChannel, .eventData .compChannel, .cq,
            .mempool, .eventData .stTimerfd]) := by
    decide +kernel
  obtain ⟨ctx, hctx, hleft⟩ := Option.map_eq_some_iff.mp hrun
  obtain ⟨hphases, hleft⟩ := Prod.mk.inj hleft
  obtain ⟨t, ht, hleft⟩ := Option.map_eq_some_iff.mp hleft
  have hclosed (j : ℕ) (hj : 0 < j) : ¬ctx.OpenAt j := by
    rintro ⟨u, hu, hopen⟩
    have hphase : u.phase ∈ ctx.transports.map ContextTransport.phase :=
      List.mem_map_of_mem (List.mem_of_getElem? hu)
    rw [hphases] at hphase
    rcases List.mem_pair.mp hphase with hphase | hphase <;>
      simp [hphase, CmPhase.Open, CmPhase.Pending] at hopen
  have hheld := (h _ _ ⟨_, rfl, rfl⟩ (by decide)).of_run hctx hclosed 1 t (by omega) ht
  have hmem : ContextObject.cq ∈ t.resources.created.filter (· ∉ t.resources.released) := by
    rw [hleft]
    decide
  obtain ⟨hcreated, hreleased⟩ := List.mem_filter.mp hmem
  exact of_decide_eq_true hreleased (hheld.2.mem_iff.mpr hcreated)

end HmrRpc
