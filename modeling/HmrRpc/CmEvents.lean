import HmrRpc.TransportRun

/-!
# Connection events (`hmr_rdma_transport.c`)

The handlers of the connection manager's events, and the calls that open a connection.
`hmr_rdma_accept` writes the state, creates the pool and posts the receives on the
accepting thread, while the event thread may already handle the same transport, so its
three writes are separate steps. The value a handler returns only ends the loop that
called it.
-/

namespace HmrRpc

open Common

/-- `hmr_rdma_connect`, as far as it writes the state and the role; it does so only when no call
fails. -/
def hmrRdmaConnect (ok : Bool) (t : HmrRdmaTransport) : HmrRdmaTransport :=
  if ok then { t with transState := .connecting, isClient := true } else t

/-- `hmr_rdma_listen`. -/
def hmrRdmaListen (ok : Bool) (t : HmrRdmaTransport) : HmrRdmaTransport :=
  if ok then { t with transState := .listen, isClient := false } else t

/-- The transport with the queue pair of `hmr_qp_create`. -/
def HmrRdmaTransport.qpCreated (t : HmrRdmaTransport) : HmrRdmaTransport :=
  { t with qp := { t.qp with status := .live, sq := [], rq := [] } }

/-- The transport without it, as `hmr_qp_release` and `rdma_destroy_qp` leave it. -/
def HmrRdmaTransport.qpDestroyed (t : HmrRdmaTransport) : HmrRdmaTransport :=
  { t with qp := { t.qp with status := .gone } }

/-- `on_cm_addr_resolved`. A failed pool leaves its null pointer, and the handler goes on. -/
def onCmAddrResolved (deviceFound : Bool) (m : MempoolOutcomes) (t : HmrRdmaTransport) :
    HmrRdmaTransport :=
  if deviceFound then { t with normalMempool := hmrMempoolCreate m } else t

/-- `on_cm_route_resolved`. -/
def onCmRouteResolved (qpOk connectOk : Bool) (o : ℕ → Outcomes) (t : HmrRdmaTransport) :
    Except Stop HmrRdmaTransport :=
  if qpOk then
    if connectOk then hmrPrePostRecv o t.qpCreated
    else .ok { t.qpCreated.qpDestroyed with transState := .error }
  else .ok t

/-- `on_cm_connect_request`, on the transport it creates for the new connection. -/
def onCmConnectRequest (deviceFound qpOk : Bool) (t : HmrRdmaTransport) : HmrRdmaTransport :=
  if deviceFound ∧ qpOk then t.qpCreated else t

/-- `on_cm_established`. -/
def onCmEstablished (o : Outcomes) (t : HmrRdmaTransport) : Except Stop HmrRdmaTransport :=
  let t := { t with transState := .connected }
  if t.isClient then hmrExchangeMrInfo o t else .ok t

/-- `on_cm_disconnected`. A server prints from its pool first, and the completion queue behind
the queue pair is followed in any case. -/
def onCmDisconnected (t : HmrRdmaTransport) : Except Stop HmrRdmaTransport :=
  if t.qp.status ≠ .live ∨ (t.isClient = false ∧ t.normalMempool.isNone) then .error .nullDeref
  else .ok { t.qpDestroyed with normalMempool := hmrMempoolRelease t.normalMempool }

/-- The CONNECT_ERROR case of `hmr_handle_ec_event`. -/
def onCmConnectError (t : HmrRdmaTransport) : HmrRdmaTransport := { t with transState := .error }

/-- `hmr_rdma_accept` writing the state, once `rdma_accept` has returned. -/
def acceptConnecting (t : HmrRdmaTransport) : HmrRdmaTransport := { t with transState := .connecting }

/-- `hmr_rdma_accept` creating the pool. -/
def acceptMempool (m : MempoolOutcomes) (t : HmrRdmaTransport) : HmrRdmaTransport :=
  { t with normalMempool := hmrMempoolCreate m }

/-- What a returning `on_cm_route_resolved` leaves: the transport as it was, the error state of a
failed connect, or the receives posted to a new queue pair. -/
theorem onCmRouteResolved_cases {qpOk connectOk : Bool} {o : ℕ → Outcomes}
    {t t' : HmrRdmaTransport} (h : onCmRouteResolved qpOk connectOk o t = .ok t') :
    (qpOk = false ∧ t' = t) ∨
      (qpOk ∧ connectOk = false ∧ t' = { t.qpCreated.qpDestroyed with transState := .error }) ∨
      (qpOk ∧ connectOk ∧ hmrPrePostRecv o t.qpCreated = .ok t') := by
  cases qpOk with
  | false => exact .inl ⟨rfl, (Except.ok.inj h).symm⟩
  | true =>
    cases connectOk with
    | false => exact .inr (.inl ⟨rfl, rfl, (Except.ok.inj h).symm⟩)
    | true => exact .inr (.inr ⟨rfl, rfl, h⟩)

/-- A returning `on_cm_disconnected` has destroyed the queue pair and released the pool. -/
theorem onCmDisconnected_eq {t t' : HmrRdmaTransport} (h : onCmDisconnected t = .ok t') :
    t' = { t.qpDestroyed with normalMempool := hmrMempoolRelease t.normalMempool } := by
  unfold onCmDisconnected at h
  split at h
  · contradiction
  · exact (Except.ok.inj h).symm

/-- It stores no state. -/
theorem onCmDisconnected_transState {t t' : HmrRdmaTransport} (h : onCmDisconnected t = .ok t') :
    t'.transState = t.transState := by
  rw [onCmDisconnected_eq h]
  rfl

/-- What `on_cm_established` leaves: a connected state, and a client's MR sent. -/
theorem onCmEstablished_cases {o : Outcomes} {t t' : HmrRdmaTransport}
    (h : onCmEstablished o t = .ok t') :
    (t.isClient = false ∧ t' = { t with transState := .connected }) ∨
      (t.isClient ∧ ∃ pool r, t.normalMempool = some pool ∧
        SendResult o { t with transState := .connected } (mrMsg pool.rdmaMr) r t') := by
  unfold onCmEstablished at h
  cases hclient : t.isClient with
  | false =>
    simp only [hclient] at h
    exact .inl ⟨rfl, (Except.ok.inj h).symm⟩
  | true =>
    simp only [hclient, if_true, hmrExchangeMrInfo] at h
    cases hpool : t.normalMempool with
    | none => simp [hpool] at h
    | some pool =>
      simp only [hpool] at h
      obtain ⟨⟨r, u⟩, hsend, rfl⟩ := map_eq_ok h
      exact .inr ⟨rfl, pool, r, rfl, hmrRdmaSend_cases hsend⟩

/-- It keeps the own MR, the receives and the MRs handled. -/
theorem onCmEstablished_frame {o : Outcomes} {t t' : HmrRdmaTransport}
    (h : onCmEstablished o t = .ok t') : t'.transState = .connected ∧ t'.ownMr = t.ownMr ∧
      t'.qp.rq = t.qp.rq ∧ t'.mrsReceived = t.mrsReceived := by
  rcases onCmEstablished_cases h with ⟨-, rfl⟩ | ⟨-, pool, r, -, hsend⟩
  · exact ⟨rfl, rfl, rfl, rfl⟩
  · exact ⟨hsend.transState, hsend.ownMr, hsend.rq, hsend.mrsReceived⟩

end HmrRpc
