import HmrRpc.CmEvents

/-!
# Sendable states and live resources

`hmr_msg_check` looks at `trans_state` only, while the queue pair and the pool come and go
in handlers that may leave it alone: a failed pool creation does not stop the connection,
and `on_cm_disconnected` never writes the state. A sendable state implies live resources
exactly in the runs where these handlers run in the states made for them.
-/

namespace HmrRpc

open Common

/-- Everything that can happen to a transport, in any order. -/
inductive LifecycleEvent
  | connect (ok : Bool)
  | listen (ok : Bool)
  | addrResolved (deviceFound : Bool) (m : MempoolOutcomes)
  | routeResolved (qpOk connectOk : Bool) (o : ℕ → Outcomes)
  | connectRequest (deviceFound qpOk : Bool)
  | acceptConnecting
  | acceptMempool (m : MempoolOutcomes)
  | acceptPosts (o : ℕ → Outcomes)
  | established (o : Outcomes)
  | disconnected
  | connectError
  | data (e : DataEvent)

/-- One event of a transport's life. -/
def lifecycleStep (t : HmrRdmaTransport) : LifecycleEvent → Option HmrRdmaTransport
  | .connect ok => some (hmrRdmaConnect ok t)
  | .listen ok => some (hmrRdmaListen ok t)
  | .addrResolved deviceFound m => some (onCmAddrResolved deviceFound m t)
  | .routeResolved qpOk connectOk o => (onCmRouteResolved qpOk connectOk o t).toOption
  | .connectRequest deviceFound qpOk => some (onCmConnectRequest deviceFound qpOk t)
  | .acceptConnecting => some (HmrRpc.acceptConnecting t)
  | .acceptMempool m => some (HmrRpc.acceptMempool m t)
  | .acceptPosts o => (hmrPrePostRecv o t).toOption
  | .established o => (onCmEstablished o t).toOption
  | .disconnected => (onCmDisconnected t).toOption
  | .connectError => some (onCmConnectError t)
  | .data e => dataStep t e

/-- The queue pair's life, and whether the pool is released, if there is one. -/
def HmrRdmaTransport.resources (t : HmrRdmaTransport) : Resource × Option Bool :=
  (t.qp.status, t.normalMempool.map HmrMempool.released)

/-- The queue pair and the pool have been created and neither destroyed nor released. -/
def ResourcesLive (t : HmrRdmaTransport) : Prop := t.resources = (.live, some false)

/-- If `hmr_msg_check` returns zero for some message, the resources are live. -/
def SendableLive (t : HmrRdmaTransport) : Prop :=
  ∀ msg, hmrMsgCheck t msg = .ok 0 → ResourcesLive t

/-- A state in which `hmr_msg_check` returns zero for some message. -/
def HmrRdmaTransportState.sendable (s : HmrRdmaTransportState) : Prop :=
  s = .connected ∨ s = .sconnected ∨ s = .rconnected

/-- The handlers that make a state sendable find live resources, and those that end or replace a
resource run outside these states or succeed. -/
def KeepsResources (t : HmrRdmaTransport) : LifecycleEvent → Prop
  | .established _ => ResourcesLive t
  | .disconnected => ¬t.transState.sendable
  | .addrResolved deviceFound m =>
    t.transState.sendable → deviceFound → (hmrMempoolCreate m).isSome
  | .acceptMempool m => t.transState.sendable → (hmrMempoolCreate m).isSome
  | .data (.recvComplete frame status _) =>
    status = .success → t.arrivingType frame = some .mr → ResourcesLive t
  | _ => True

section Frame

variable {o : Outcomes} {t t' : HmrRdmaTransport}

/-- The check passes for some message exactly in the sendable states. -/
theorem sendableLive_iff : SendableLive t ↔ (t.transState.sendable → ResourcesLive t) := by
  constructor
  · intro h hstate
    apply h (mrMsg ⟨0, 0, 0, 0, 0, 0, 0⟩)
    apply hmrMsgCheck_eq_zero.mpr
    simpa [hmrMsgReady, mrMsg, HmrRdmaTransportState.sendable] using hstate
  · intro h msg hcheck
    have hready := hmrMsgCheck_eq_zero.mp hcheck
    apply h
    unfold hmrMsgReady at hready
    split at hready
    · simpa [HmrRdmaTransportState.sendable] using hready
    · exact .inr (.inr (of_decide_eq_true hready))

/-- Sending neither creates nor ends a resource. -/
theorem SendResult.resources {msg : HmrMsg} {r : ℤ} (h : SendResult o t msg r t') :
    t'.resources = t.resources := by
  apply h.preserves
  intro hsubmit
  cases hsubmit with
  | queued pool hpool | posted pool hpool | dropped pool hpool =>
    simp only [HmrRdmaTransport.resources, hpool]
    rfl

/-- Nor does posting a receive. -/
theorem PostRecvResult.resources {size : ℤ} (h : PostRecvResult o t size t') :
    t'.resources = t.resources := by
  cases h with
  | noMemory => rfl
  | posted pool hpool | dropped pool hpool =>
    simp only [HmrRdmaTransport.resources, hpool]
    rfl

/-- Nor do the receives posted up front, which leave the state alone too. -/
theorem postRecvs_resources {o : ℕ → Outcomes} {n : ℕ} (h : postRecvs o n t = .ok t') :
    t'.resources = t.resources ∧ t'.transState = t.transState :=
  ⟨postRecvs_preserves PostRecvResult.resources h, postRecvs_preserves PostRecvResult.transState h⟩

/-- Handling a frame neither creates nor ends a resource. -/
theorem RecvBody.resources {bytes : ℕ → UInt8} {taskType : HmrTaskType}
    (h : RecvBody o t bytes taskType t') : t'.resources = t.resources :=
  h.preserves (fun _ _ => rfl) (fun _ => rfl) (fun _ => rfl) (fun _ _ => rfl) SendResult.resources

/-- A completed send keeps the resources and whether the state is sendable. -/
theorem sendComplete_resources {i : ℕ} {status : IbvWcStatus}
    (hstep : dataStep t (.sendComplete i status o) = some t') :
    t'.resources = t.resources ∧ (t'.transState.sendable ↔ t.transState.sendable) := by
  obtain ⟨hpool, -, -, hqp⟩ := dataStep_sendComplete_frame hstep
  refine ⟨by rw [HmrRdmaTransport.resources, hpool, hqp]; rfl, ?_⟩
  rcases (dataStep_sendComplete_state hstep).2.2 with hstate | ⟨hbefore, hafter⟩
  · rw [hstate]
  · simp [hbefore, hafter, HmrRdmaTransportState.sendable]

end Frame

section Step

variable {t t' : HmrRdmaTransport}

/-- What keeps the resources and the sendable states keeps the property. -/
theorem SendableLive.of_same (h : SendableLive t) (hresources : t'.resources = t.resources)
    (hstate : t'.transState.sendable → t.transState.sendable) : SendableLive t' := by
  rw [sendableLive_iff] at h ⊢
  intro hsendable
  rw [ResourcesLive, hresources]
  exact h (hstate hsendable)

/-- A state that is not sendable has the property. -/
theorem SendableLive.of_not_sendable (h : ¬t.transState.sendable) : SendableLive t :=
  sendableLive_iff.mpr fun hsendable => absurd hsendable h

/-- An event of the connection keeps the property exactly if an arriving MR finds live resources. -/
theorem sendableLive_data {e : DataEvent} (h : SendableLive t) (hstep : dataStep t e = some t') :
    SendableLive t' ↔ KeepsResources t (.data e) := by
  cases e with
  | send msg o =>
    obtain ⟨r, hsend⟩ := dataStep_send hstep
    exact iff_of_true (h.of_same hsend.resources (by rw [hsend.transState]; exact id)) trivial
  | tick a =>
    refine iff_of_true ?_ trivial
    cases dataStep_tick hstep <;> exact h.of_same rfl id
  | sendComplete i status o =>
    obtain ⟨hresources, hstate⟩ := sendComplete_resources hstep
    exact iff_of_true (h.of_same hresources hstate.mp) trivial
  | recvComplete frame status o =>
    cases dataStep_recvComplete hstep with
    | flushed _ _ _ hstatus =>
      exact iff_of_true (h.of_same rfl id) fun hsuccess => absurd hsuccess hstatus
    | received wr pool u _ hhead hpool hbody hrepost =>
      have hstate := hbody.transState
      have hsame : t'.resources = t.resources := by
        apply (hrepost.resources.trans hbody.resources).trans
        simp only [HmrRdmaTransport.resources, HmrRdmaTransport.hcaWrite, Option.map_map]
        rfl
      rw [← hrepost.transState] at hstate
      simp only [KeepsResources, arrivingType_eq hhead hpool, Option.some.injEq, true_implies]
      by_cases hmr : receivedType (pool.memory.bytesAt wr.wrId.sgeList.addr) = .mr
      · rw [if_pos hmr] at hstate
        rw [sendableLive_iff, hstate, ResourcesLive, hsame]
        simp [hmr, HmrRdmaTransportState.sendable, ResourcesLive]
      · rw [if_neg hmr] at hstate
        exact iff_of_true (h.of_same hsame (by rw [hstate]; exact id)) fun h => absurd h hmr

/-- Creating the queue pair keeps the property. -/
theorem SendableLive.qpCreated (h : SendableLive t) : SendableLive t.qpCreated := by
  rw [sendableLive_iff] at h ⊢
  intro hsendable
  have hpool : t.normalMempool.map HmrMempool.released = some false :=
    congrArg Prod.snd (h hsendable)
  simp [ResourcesLive, HmrRdmaTransport.resources, HmrRdmaTransport.qpCreated, hpool]

/-- Creating the pool keeps the property exactly if it succeeds or the state is not sendable. -/
theorem sendableLive_mempool (h : SendableLive t) (m : MempoolOutcomes) :
    SendableLive { t with normalMempool := hmrMempoolCreate m } ↔
      (t.transState.sendable → (hmrMempoolCreate m).isSome) := by
  rw [sendableLive_iff] at h ⊢
  apply imp_congr_right
  intro hsendable
  have hqp : t.qp.status = .live := congrArg Prod.fst (h hsendable)
  cases hcreate : hmrMempoolCreate m with
  | none => simp [ResourcesLive, HmrRdmaTransport.resources]
  | some pool =>
    simp [ResourcesLive, HmrRdmaTransport.resources, hqp, (hmrMempoolCreate_eq_some hcreate).2.2]

/-- A state made CONNECTED has the property exactly if the resources are live. -/
theorem sendableLive_established {o : Outcomes} (hstep : onCmEstablished o t = .ok t') :
    SendableLive t' ↔ ResourcesLive t := by
  have hresult : t'.transState = .connected ∧ t'.resources = t.resources := by
    rcases onCmEstablished_cases hstep with ⟨-, rfl⟩ | ⟨-, pool, r, -, hsend⟩
    · exact ⟨rfl, rfl⟩
    · exact ⟨hsend.transState, hsend.resources⟩
  rw [sendableLive_iff, hresult.1, ResourcesLive, hresult.2]
  simp [HmrRdmaTransportState.sendable, ResourcesLive]

/-- A disconnect has the property exactly if it meets a state that is not sendable. -/
theorem sendableLive_disconnected (hstep : onCmDisconnected t = .ok t') :
    SendableLive t' ↔ ¬t.transState.sendable := by
  rw [onCmDisconnected_eq hstep, sendableLive_iff]
  simp [ResourcesLive, HmrRdmaTransport.resources, HmrRdmaTransport.qpDestroyed]

/-- An event keeps the property exactly if it meets the condition. -/
theorem sendableLive_step {e : LifecycleEvent} (h : SendableLive t)
    (hstep : lifecycleStep t e = some t') : SendableLive t' ↔ KeepsResources t e := by
  cases e with
  | connect ok =>
    obtain rfl := Option.some.inj hstep
    cases ok with
    | false => exact iff_of_true h trivial
    | true =>
      refine iff_of_true (.of_not_sendable ?_) trivial
      simp [hmrRdmaConnect, HmrRdmaTransportState.sendable]
  | listen ok =>
    obtain rfl := Option.some.inj hstep
    cases ok with
    | false => exact iff_of_true h trivial
    | true =>
      refine iff_of_true (.of_not_sendable ?_) trivial
      simp [hmrRdmaListen, HmrRdmaTransportState.sendable]
  | addrResolved deviceFound m =>
    obtain rfl := Option.some.inj hstep
    cases deviceFound with
    | false => exact iff_of_true h fun _ hfound => by contradiction
    | true =>
      refine (sendableLive_mempool h m).trans ?_
      simp [KeepsResources]
  | routeResolved qpOk connectOk o =>
    refine iff_of_true ?_ trivial
    rcases onCmRouteResolved_cases (ok_of_toOption hstep) with
      ⟨-, rfl⟩ | ⟨-, -, rfl⟩ | ⟨-, -, hposts⟩
    · exact h
    · exact .of_not_sendable (by simp [HmrRdmaTransportState.sendable])
    · obtain ⟨hresources, hstate⟩ := postRecvs_resources hposts
      exact h.qpCreated.of_same hresources (by rw [hstate]; exact id)
  | connectRequest deviceFound qpOk =>
    obtain rfl := Option.some.inj hstep
    refine iff_of_true ?_ trivial
    unfold onCmConnectRequest
    split
    · exact h.qpCreated
    · exact h
  | acceptConnecting =>
    obtain rfl := Option.some.inj hstep
    refine iff_of_true (.of_not_sendable ?_) trivial
    simp [HmrRpc.acceptConnecting, HmrRdmaTransportState.sendable]
  | acceptMempool m =>
    obtain rfl := Option.some.inj hstep
    exact sendableLive_mempool h m
  | acceptPosts o =>
    obtain ⟨hresources, hstate⟩ := postRecvs_resources (ok_of_toOption hstep)
    exact iff_of_true (h.of_same hresources (by rw [hstate]; exact id)) trivial
  | established o => exact sendableLive_established (ok_of_toOption hstep)
  | disconnected => exact sendableLive_disconnected (ok_of_toOption hstep)
  | connectError =>
    obtain rfl := Option.some.inj hstep
    refine iff_of_true (.of_not_sendable ?_) trivial
    simp [onCmConnectError, HmrRdmaTransportState.sendable]
  | data e => exact sendableLive_data h hstep

end Step

/-- So a message is only taken while the resources it goes to are live. -/
theorem SendableLive.send {t t' : HmrRdmaTransport} {o : Outcomes} {msg : HmrMsg}
    (h : SendableLive t) (hsend : hmrRdmaSend o t msg = .ok (0, t')) : ResourcesLive t :=
  h msg (hmrRdmaSend_checked hsend)

/-- From its creation on, a transport is sendable with live resources only in every state of a
run if and only if each event of the run meets the condition. -/
theorem sendableLive_run_iff {t : HmrRdmaTransport} {events : List LifecycleEvent}
    (hinit : t.transState = .init) :
    Always lifecycleStep SendableLive t events ↔ Guarded lifecycleStep KeepsResources t events := by
  have hstart : SendableLive t := .of_not_sendable (by simp [hinit, HmrRdmaTransportState.sendable])
  exact always_iff_guarded (D := fun _ => True) (fun _ h => h)
    (fun _ _ _ _ h hkeeps hstep => (sendableLive_step h hstep).mpr hkeeps)
    (fun _ _ _ _ h hstep hafter => (sendableLive_step h hstep).mp hafter)
    (fun _ _ => trivial) hstart

/-- The life of a client that connects and loses its connection. -/
def sampleLifecycle : List LifecycleEvent :=
  [.connect true, .addrResolved true sampleMempoolOutcomes, .routeResolved true true fun _ => .ok,
    .established .ok, .disconnected]

/-- The condition decides that life. -/
theorem sendableLive_run_sample :
    Always lifecycleStep SendableLive hmrRdmaCreate sampleLifecycle ↔
      Guarded lifecycleStep KeepsResources hmrRdmaCreate sampleLifecycle :=
  sendableLive_run_iff rfl

/-- After it the transport still takes messages, for a destroyed queue pair and a released pool. -/
theorem disconnected_sendable :
    ¬∀ (t : HmrRdmaTransport) (events : List LifecycleEvent), t.transState = .init →
      Always lifecycleStep SendableLive t events := by
  intro h
  have hrun : (runEvents lifecycleStep hmrRdmaCreate sampleLifecycle).map
      (fun t => (t.transState, t.resources)) = some (.connected, .gone, some true) := by decide
  obtain ⟨t, ht, hobs⟩ := Option.map_eq_some_iff.mp hrun
  obtain ⟨hstate, hresources⟩ := Prod.mk.inj hobs
  have hlive := sendableLive_iff.mp ((h hmrRdmaCreate sampleLifecycle rfl).of_run ht) (.inl hstate)
  rw [ResourcesLive, hresources] at hlive
  contradiction

end HmrRpc
