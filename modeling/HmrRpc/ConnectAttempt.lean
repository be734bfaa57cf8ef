import HmrRpc.Lifecycle

/-!
# Connection attempts that fail (`hmr_rdma_connect`, `hmr_handle_ec_event`)

A caller of `hmr_rdma_send` spins in `hmr_msg_check` until the state is a connected one or
lies behind RCONNECTED. An attempt can fail in the call of `hmr_rdma_connect`, in the
handlers that set the connection up, and by an event of the connection manager; of these
only a failed `rdma_connect` and CONNECT_ERROR store the state that releases the caller.
-/

namespace HmrRpc

open Common

/-- `enum rdma_cm_event_type`. -/
inductive RdmaCmEventType
  | addrResolved | addrError | routeResolved | routeError | connectRequest | connectResponse
  | connectError | unreachable | rejected | established | disconnected | deviceRemoval
  | multicastJoin | multicastError | addrChange | timewaitExit
  deriving DecidableEq, Repr

/-- The results of the steps of `hmr_rdma_connect`, with the library calls' return values. -/
structure ConnectOutcomes where
  urlAndPort : Bool
  inetPton : ℤ
  createId : ℤ
  resolveAddr : ℤ

/-- The value `hmr_rdma_connect` returns; `inet_pton` returns zero for a malformed address, which
is not told from one. -/
def ConnectOutcomes.retval (o : ConnectOutcomes) : ℤ :=
  if ¬o.urlAndPort then -1
  else if o.inetPton < 0 then o.inetPton
  else if o.createId ≠ 0 then o.createId
  else o.resolveAddr

/-- The results of the steps of the connection event handlers. -/
structure CmOutcomes where
  transCreated : Bool
  deviceFound : Bool
  mempool : MempoolOutcomes
  resolveRoute : ℤ
  qpCreate : ℤ
  connect : ℤ
  exchange : Outcomes
  posts : ℕ → Outcomes

/-- The value `on_cm_addr_resolved` returns. -/
def CmOutcomes.addrResolvedRetval (o : CmOutcomes) : ℤ := if o.deviceFound then o.resolveRoute else -1

/-- The value `on_cm_route_resolved` returns. -/
def CmOutcomes.routeResolvedRetval (o : CmOutcomes) : ℤ :=
  if o.qpCreate ≠ 0 then o.qpCreate else o.connect

/-- The value `on_cm_connect_request` returns. -/
def CmOutcomes.connectRequestRetval (o : CmOutcomes) : ℤ :=
  if ¬o.transCreated then -1 else if ¬o.deviceFound then -1 else o.qpCreate

/-- `hmr_handle_ec_event`: the value returned and the transport left behind. The new transport of a
connect request is another one. -/
def hmrHandleEcEvent (event : RdmaCmEventType) (o : CmOutcomes) (t : HmrRdmaTransport) :
    Except Stop (ℤ × HmrRdmaTransport) :=
  match event with
  | .addrResolved => .ok (o.addrResolvedRetval, onCmAddrResolved o.deviceFound o.mempool t)
  | .routeResolved =>
    (onCmRouteResolved (o.qpCreate = 0) (o.connect = 0) o.posts t).map fun t =>
      (o.routeResolvedRetval, t)
  | .connectRequest => .ok (o.connectRequestRetval, t)
  | .established => (onCmEstablished o.exchange t).map fun t => (0, t)
  | .disconnected => (onCmDisconnected t).map fun t => (0, t)
  | .connectError => .ok (-1, onCmConnectError t)
  | _ => .ok (-1, t)

/-- The events that report the failure of an attempt. -/
def RdmaCmEventType.IsFailure (event : RdmaCmEventType) : Prop :=
  event = .addrError ∨ event = .routeError ∨ event = .connectError ∨ event = .unreachable ∨
    event = .rejected

instance (event : RdmaCmEventType) : Decidable event.IsFailure :=
  inferInstanceAs (Decidable (_ ∨ _))

/-- The events with a handler of their own. -/
def RdmaCmEventType.HasHandler (event : RdmaCmEventType) : Prop :=
  event = .addrResolved ∨ event = .routeResolved ∨ event = .connectRequest ∨
    event = .established ∨ event = .disconnected

instance (event : RdmaCmEventType) : Decidable event.HasHandler :=
  inferInstanceAs (Decidable (_ ∨ _))

/-- A transport, and whether its connection attempt has failed. -/
structure ConnectAttempt where
  trans : HmrRdmaTransport
  failed : Bool

/-- The call of `hmr_rdma_connect`, or an event of the connection manager. -/
inductive AttemptEvent
  | connect (o : ConnectOutcomes)
  | cm (event : RdmaCmEventType) (o : CmOutcomes)

/-- One event of a connection attempt. -/
def attemptStep (a : ConnectAttempt) : AttemptEvent → Option ConnectAttempt
  | .connect o => some ⟨hmrRdmaConnect (o.retval = 0) a.trans, a.failed || o.retval ≠ 0⟩
  | .cm event o =>
    (hmrHandleEcEvent event o a.trans).toOption.map fun (retval, t) =>
      ⟨t, a.failed || event.IsFailure || (event.HasHandler ∧ retval ≠ 0)⟩

/-- The state that ends the loops of `hmr_msg_check` with an error. -/
def HmrRdmaTransport.Beyond (t : HmrRdmaTransport) : Prop :=
  t.transState.toNat > HmrRdmaTransportState.rconnected.toNat

/-- A failed attempt has left a state beyond RCONNECTED, in which every sender is refused. -/
def ReleasesSenders (a : ConnectAttempt) : Prop :=
  a.failed → a.trans.Beyond ∧ ∀ msg, hmrMsgCheck a.trans msg = .ok (-1)

/-- The attempts this is about end with ESTABLISHED. -/
def BeforeEstablished : AttemptEvent → Prop
  | .connect _ => True
  | .cm event _ => event ≠ .established

/-- A failure is a failed `rdma_connect` or a CONNECT_ERROR, or finds a state beyond RCONNECTED, and
an attempt that has failed is not started again. -/
def StoresError (a : ConnectAttempt) : AttemptEvent → Prop
  | .connect o => if o.retval = 0 then a.failed = false else a.trans.Beyond
  | .cm .addrResolved o => o.addrResolvedRetval ≠ 0 → a.trans.Beyond
  | .cm .routeResolved o => o.qpCreate ≠ 0 → a.trans.Beyond
  | .cm .connectRequest o => o.connectRequestRetval ≠ 0 → a.trans.Beyond
  | .cm .connectError _ => True
  | .cm event _ => event.IsFailure → a.trans.Beyond

section Step

variable {a a' : ConnectAttempt}

/-- Beyond RCONNECTED no message is ready, and every one is refused. -/
theorem hmrMsgCheck_of_beyond {t : HmrRdmaTransport} (h : t.Beyond) (msg : HmrMsg) :
    hmrMsgCheck t msg = .ok (-1) := by
  have hready : hmrMsgReady t msg = false := by
    unfold HmrRdmaTransport.Beyond at h
    cases hstate : t.transState <;> simp [hstate, HmrRdmaTransportState.toNat] at h <;>
      simp [hmrMsgReady, hstate]
  rw [hmrMsgCheck, hready, if_neg (by decide)]
  exact if_pos h

/-- So the property is about the state alone. -/
theorem releasesSenders_iff : ReleasesSenders a ↔ (a.failed → a.trans.Beyond) :=
  ⟨fun h hfailed => (h hfailed).1, fun h hfailed =>
    ⟨h hfailed, fun msg => hmrMsgCheck_of_beyond (h hfailed) msg⟩⟩

/-- An event that keeps the state keeps the property exactly if it does not fail, or fails beyond
RCONNECTED. -/
theorem releasesSenders_keep (t : HmrRdmaTransport) (fails : Bool) (h : ReleasesSenders a)
    (hstate : t.transState = a.trans.transState) :
    ReleasesSenders ⟨t, a.failed || fails⟩ ↔ (fails → a.trans.Beyond) := by
  rw [releasesSenders_iff] at h ⊢
  simp only [Bool.or_eq_true, HmrRdmaTransport.Beyond, hstate] at h ⊢
  exact ⟨fun hafter hfails => hafter (.inr hfails), fun hfails hor => hor.elim h hfails⟩

/-- Storing ERROR has the property. -/
theorem releasesSenders_error {t : HmrRdmaTransport} {failed : Bool} (h : t.transState = .error) :
    ReleasesSenders ⟨t, failed⟩ := by
  rw [releasesSenders_iff]
  intro _
  simp only [HmrRdmaTransport.Beyond, h]
  decide

/-- `hmr_rdma_connect` keeps the property exactly if it is called once and succeeds. -/
theorem releasesSenders_connect {o : ConnectOutcomes} (h : ReleasesSenders a)
    (hstep : attemptStep a (.connect o) = some a') :
    ReleasesSenders a' ↔ StoresError a (.connect o) := by
  obtain rfl := Option.some.inj hstep
  by_cases hok : o.retval = 0
  · rw [releasesSenders_iff]
    simp [StoresError, hok, hmrRdmaConnect, HmrRdmaTransport.Beyond, HmrRdmaTransportState.toNat]
  · have hkeep := releasesSenders_keep (hmrRdmaConnect (o.retval = 0) a.trans)
      (decide (o.retval ≠ 0)) h (by simp [hmrRdmaConnect, hok])
    simpa [StoresError, hok] using hkeep

/-- A connection event keeps the property exactly if it stores ERROR when it fails, or finds a
state beyond RCONNECTED. -/
theorem releasesSenders_cm {event : RdmaCmEventType} {o : CmOutcomes} (h : ReleasesSenders a)
    (hbefore : event ≠ .established) (hstep : attemptStep a (.cm event o) = some a') :
    ReleasesSenders a' ↔ StoresError a (.cm event o) := by
  obtain ⟨⟨r, t⟩, hhandler, rfl⟩ := Option.map_eq_some_iff.mp hstep
  replace hhandler := ok_of_toOption hhandler
  have hkeep (hstate : t.transState = a.trans.transState) :=
    releasesSenders_keep t (event.IsFailure || (event.HasHandler ∧ r ≠ 0)) h hstate
  simp only [Bool.or_assoc]
  cases event with
  | established => contradiction
  | addrResolved =>
    obtain ⟨rfl, rfl⟩ := Prod.mk.inj (Except.ok.inj hhandler)
    refine (hkeep ?_).trans ?_
    · cases o.deviceFound <;> rfl
    · simp [StoresError, RdmaCmEventType.IsFailure, RdmaCmEventType.HasHandler]
  | routeResolved =>
    obtain ⟨u, hroute, hpair⟩ := map_eq_ok hhandler
    obtain ⟨rfl, rfl⟩ := Prod.mk.inj hpair
    by_cases hqp : o.qpCreate = 0
    · by_cases hconnect : o.connect = 0
      · simp only [hqp, hconnect, onCmRouteResolved, decide_true, if_true] at hroute
        refine (hkeep (postRecvs_resources hroute).2).trans ?_
        simp [StoresError, RdmaCmEventType.IsFailure, RdmaCmEventType.HasHandler,
          CmOutcomes.routeResolvedRetval, hqp, hconnect]
      · simp only [hqp, hconnect, onCmRouteResolved, decide_true, decide_false, if_true] at hroute
        obtain rfl := Except.ok.inj hroute
        exact iff_of_true (releasesSenders_error rfl) fun hne => absurd hqp hne
    · simp only [hqp, onCmRouteResolved, decide_false] at hroute
      obtain rfl := Except.ok.inj hroute
      refine (hkeep rfl).trans ?_
      simp [StoresError, RdmaCmEventType.IsFailure, RdmaCmEventType.HasHandler,
        CmOutcomes.routeResolvedRetval, hqp]
  | connectRequest =>
    obtain ⟨rfl, rfl⟩ := Prod.mk.inj (Except.ok.inj hhandler)
    refine (hkeep rfl).trans ?_
    simp [StoresError, RdmaCmEventType.IsFailure, RdmaCmEventType.HasHandler]
  | disconnected =>
    obtain ⟨u, hdisconnected, hpair⟩ := map_eq_ok hhandler
    obtain ⟨rfl, rfl⟩ := Prod.mk.inj hpair
    refine (hkeep (onCmDisconnected_transState hdisconnected)).trans ?_
    simp [StoresError, RdmaCmEventType.IsFailure, RdmaCmEventType.HasHandler]
  | connectError =>
    obtain ⟨rfl, rfl⟩ := Prod.mk.inj (Except.ok.inj hhandler)
    exact iff_of_true (releasesSenders_error rfl) trivial
  | _ =>
    obtain ⟨rfl, rfl⟩ := Prod.mk.inj (Except.ok.inj hhandler)
    refine (hkeep rfl).trans ?_
    simp [StoresError, RdmaCmEventType.IsFailure, RdmaCmEventType.HasHandler]

/-- An event before ESTABLISHED keeps the property exactly if it meets the condition. -/
theorem releasesSenders_step {e : AttemptEvent} (h : ReleasesSenders a) (hbefore : BeforeEstablished e)
    (hstep : attemptStep a e = some a') : ReleasesSenders a' ↔ StoresError a e := by
  cases e with
  | connect o => exact releasesSenders_connect h hstep
  | cm event o => exact releasesSenders_cm h hbefore hstep

end Step

/-- An attempt releases its senders in every state of a run before ESTABLISHED if and only if each
failure of the run is one that stores ERROR, or comes once the state is beyond RCONNECTED. -/
theorem releasesSenders_run_iff {a : ConnectAttempt} {events : List AttemptEvent}
    (hfresh : a.failed = false) (hbefore : ∀ e ∈ events, BeforeEstablished e) :
    Always attemptStep ReleasesSenders a events ↔ Guarded attemptStep StoresError a events :=
  always_iff_guarded (fun _ h => h)
    (fun _ _ _ hD h hstores hstep => (releasesSenders_step h hD hstep).mpr hstores)
    (fun _ _ _ hD h hstep hafter => (releasesSenders_step h hD hstep).mp hafter)
    hbefore fun hfailed => absurd hfailed (by simp [hfresh])

/-- A client on which nothing has failed yet. -/
def sampleAttempt : ConnectAttempt := ⟨hmrRdmaCreate, false⟩

/-- Every step of the handlers succeeds. -/
def CmOutcomes.ok : CmOutcomes := ⟨true, true, sampleMempoolOutcomes, 0, 0, 0, .ok, fun _ => .ok⟩

/-- `hmr_rdma_connect` succeeds, and the peer rejects the connection. -/
def rejectedAttempt : List AttemptEvent :=
  [.connect ⟨true, 1, 0, 0⟩, .cm .addrResolved .ok, .cm .rejected .ok]

/-- The condition decides that attempt. -/
theorem releasesSenders_run_sample :
    Always attemptStep ReleasesSenders sampleAttempt rejectedAttempt ↔
      Guarded attemptStep StoresError sampleAttempt rejectedAttempt :=
  releasesSenders_run_iff rfl fun e he => by
    simp only [rejectedAttempt, List.mem_cons, List.not_mem_nil, or_false] at he
    rcases he with rfl | rfl | rfl <;> simp [BeforeEstablished]

/-- After it the state is CONNECTING, in which a sender spins. -/
theorem rejected_spins :
    ¬∀ (a : ConnectAttempt) (events : List AttemptEvent), a.failed = false →
      (∀ e ∈ events, BeforeEstablished e) → Always attemptStep ReleasesSenders a events := by
  intro h
  have hbefore : ∀ e ∈ rejectedAttempt, BeforeEstablished e := by
    intro e he
    simp only [rejectedAttempt, List.mem_cons, List.not_mem_nil, or_false] at he
    rcases he with rfl | rfl | rfl <;> simp [BeforeEstablished]
  have hrun : (runEvents attemptStep sampleAttempt rejectedAttempt).map
      (fun a => (a.failed, a.trans.transState)) = some (true, .connecting) := by decide
  obtain ⟨a, ha, hobs⟩ := Option.map_eq_some_iff.mp hrun
  obtain ⟨hfailed, hstate⟩ := Prod.mk.inj hobs
  have hreleased := (h sampleAttempt rejectedAttempt rfl hbefore).of_run ha hfailed
  simp [HmrRdmaTransport.Beyond, hstate, HmrRdmaTransportState.toNat] at hreleased

end HmrRpc
