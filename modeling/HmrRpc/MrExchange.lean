import HmrRpc.ExchangeView
import HmrRpc.RemoteKey

/-!
# The MR exchange of a connection

Every event of the connection's exchange is a step of the exchange on its view: the MRs
are the only frames under way, so the view's counts are the lengths of the wires, and
the keys that arrive are the peer's by the invariant of the one-sided writes.
-/

namespace HmrRpc

open Common

/-- The view of a connection. -/
def Connection.view (c : Connection) : ExchangeView where
  accept := c.accept
  clientEvent := (c.ends .client).established
  serverEvent := (c.ends .server).established
  client := (c.trans .client).transState
  server := (c.trans .server).transState
  clientMrs := (c.trans .client).mrsReceived
  serverMrs := (c.trans .server).mrsReceived
  clientWire := (c.trans .client).qp.wire.length
  serverWire := (c.trans .server).qp.wire.length
  serverSq := (c.trans .server).qp.sq.length

/-- No message, completion or event of the connection manager is pending, and the accepting thread
is done. -/
structure Connection.Quiescent (c : Connection) : Prop where
  accept : c.accept = .posting 0
  events : ∀ s, (c.ends s).established ≠ .pending
  messages : ∀ s, (c.trans s).qp.wire = []
  completions : ∀ s, (c.trans s).qp.sq = []

/-- Both sides are in RCONNECTED and hold each other's MR. -/
def Connection.Exchanged (c : Connection) : Prop :=
  ∀ s, (c.trans s).transState = .rconnected ∧
    (c.trans s.peer).ownMr = some (c.trans s).peerInfo.normalMr

/-- The exchange has completed when nothing is pending. -/
def ExchangeCompletes (c : Connection) : Prop := c.Quiescent → c.Exchanged

/-- The events of the exchange, with every post succeeding. -/
def ExchangeEvent : ConnectionEvent → Prop
  | .established _ o | .recvComplete _ o | .acceptPost o => o.sendPost ∧ o.recvPost
  | .sendComplete _ _ status _ => status = .success
  | .accept | .acceptConnecting | .acceptMempool _ => True
  | .recvFail _ _ _ | .tick _ _ | .check _ _ | .submit _ _ _ => False

/-- The server's ESTABLISHED event is handled in CONNECTING: behind the accepting thread's store and
before the first MR is received. -/
def EstablishedInTime (c : Connection) : ConnectionEvent → Prop
  | .established .server _ => (c.trans .server).transState = .connecting
  | _ => True

/-- A frame that is handled as an MR, whatever the buffer it is received in held. -/
structure Frame.IsMr (frame : Frame) : Prop where
  length : sizeofMsgType ≤ frame.length
  type : receivedType frame.byte = .mr

/-- What a step of a party that sends `n` MRs does to its role and its queues. -/
structure MrsSent (n : ℕ) (t t' : HmrRdmaTransport) : Prop where
  role : t'.isClient = t.isClient
  sq : t'.qp.sq.length = t.qp.sq.length + n
  wire : ∃ frames : List Frame, frames.length = n ∧ (∀ frame ∈ frames, frame.IsMr) ∧
    t'.qp.wire = t.qp.wire ++ frames

section Party

variable {o : Outcomes} {t t' u : HmrRdmaTransport}

/-- A step that leaves the role and the queues alone sends no MR. -/
theorem MrsSent.none (hrole : t'.isClient = t.isClient) (hsq : t'.qp.sq = t.qp.sq)
    (hwire : t'.qp.wire = t.qp.wire) : MrsSent 0 t t' :=
  ⟨hrole, by rw [hsq, Nat.add_zero], [], rfl, by simp, by rw [hwire, List.append_nil]⟩

/-- Steps that follow each other send their MRs together. -/
theorem MrsSent.trans {n m : ℕ} (h : MrsSent n t u) (h' : MrsSent m u t') :
    MrsSent (n + m) t t' := by
  obtain ⟨frames, hlen, htype, hwire⟩ := h.wire
  obtain ⟨frames', hlen', htype', hwire'⟩ := h'.wire
  refine ⟨h'.role.trans h.role, by rw [h'.sq, h.sq, Nat.add_assoc], frames ++ frames', ?_, ?_, ?_⟩
  · rw [List.length_append, hlen, hlen']
  · intro frame hframe
    exact (List.mem_append.mp hframe).elim (htype frame) (htype' frame)
  · rw [hwire', hwire, List.append_assoc]

/-- The wire grows by the MRs sent. -/
theorem MrsSent.wireLength {n : ℕ} (h : MrsSent n t t') :
    t'.qp.wire.length = t.qp.wire.length + n := by
  obtain ⟨frames, hlen, -, hwire⟩ := h.wire
  rw [hwire, List.length_append, hlen]

/-- Sending the MR in CONNECTED puts it on the wire. -/
theorem SendResult.mrsSent {mr : IbvMr} {r : ℤ} (h : SendResult o t (mrMsg mr) r t')
    (hstate : t.transState = .connected) (hpost : o.sendPost) : MrsSent 1 t t' := by
  cases h with
  | refused hcheck =>
    have hready : hmrMsgCheck t (mrMsg mr) = .ok 0 :=
      hmrMsgCheck_eq_zero.mpr (by simp [hmrMsgReady, mrMsg, hstate])
    rw [hready] at hcheck
    contradiction
  | submitted _ _ hsubmit =>
    cases hsubmit with
    | queued pool _ htype => exact absurd rfl htype
    | posted pool _ htype =>
      obtain ⟨posted, hwire, hcarries⟩ := postedDirect_wire htype (mrMsg_encodedLength_lt mr)
      refine ⟨rfl, List.length_append, [posted], rfl, ?_, hwire⟩
      intro frame hframe
      obtain rfl := List.mem_singleton.mp hframe
      have hlen := sizeofMsgType_le_frame (mrMsg mr)
      refine ⟨hlen.trans_eq hcarries.length.symm, ?_⟩
      rw [hcarries.receivedType hlen, receivedType_frame]
      rfl
    | dropped pool _ _ hfailed =>
      rw [hfailed] at hpost
      contradiction

/-- Posting a receive sends none. -/
theorem PostRecvResult.mrsSent {size : ℤ} (h : PostRecvResult o t size t') : MrsSent 0 t t' := by
  cases h <;> exact .none rfl rfl rfl

/-- An ESTABLISHED event sends the client's. -/
theorem onCmEstablished_sent (h : onCmEstablished o t = .ok t') (hpost : o.sendPost) :
    MrsSent (if t.isClient then 1 else 0) t t' := by
  rcases onCmEstablished_cases h with ⟨hserver, rfl⟩ | ⟨hclient, pool, r, -, hsend⟩
  · rw [if_neg (by simp [hserver])]
    exact .none rfl rfl rfl
  · rw [if_pos hclient]
    have hconnected : MrsSent 0 t { t with transState := .connected } := .none rfl rfl rfl
    exact hconnected.trans (hsend.mrsSent rfl hpost)

/-- Handling a received MR answers it in CONNECTED. -/
theorem RecvBody.mrsSent {bytes : ℕ → UInt8} (h : RecvBody o t bytes .mr u) (hpost : o.sendPost) :
    MrsSent (answers t.transState) t u := by
  cases h with
  | firstMr pool r v hstate _ hsend =>
    have hsent := hsend.mrsSent hstate hpost
    rw [answers, if_pos hstate]
    exact ⟨hsent.role, hsent.sq, hsent.wire⟩
  | laterMr hstate =>
    rw [answers, if_neg hstate]
    exact .none rfl rfl rfl
  | plain _ hmr => exact absurd rfl hmr

/-- The completion of its receive needs a pool, and counts the MR. -/
theorem recvMr_sent {frame : Frame} (hmatch : t.RecvsMatch) (hframe : frame.IsMr)
    (hpost : o.sendPost) (hstep : dataStep t (.recvComplete frame .success o) = some t') :
    t.ownMr ≠ none ∧ t'.transState = .rconnected ∧ t'.mrsReceived = t.mrsReceived + 1 ∧
      MrsSent (answers t.transState) t t' := by
  obtain ⟨addr, pool, u, hpool, hbody, hrepost⟩ := dataStep_received hmatch hframe.length hstep
  rw [hframe.type] at hbody
  have hbodySent := hbody.mrsSent hpost
  have hsent : MrsSent (answers t.transState) t u :=
    ⟨hbodySent.role, hbodySent.sq, hbodySent.wire⟩
  refine ⟨?_, hrepost.transState.trans hbody.transState, ?_, hsent.trans hrepost.mrsSent⟩
  · obtain ⟨pool', hown, -⟩ := Option.map_eq_some_iff.mp hpool
    have hown : t.normalMempool = some pool' := hown
    simp [HmrRdmaTransport.ownMr, hown]
  · rw [hrepost.mrsReceived, hbody.mrsReceived]
    rfl

end Party

/-- The parties keep their roles, and only MRs are under way. -/
structure ExchangeTraffic (c : Connection) : Prop where
  role : ∀ s, (c.trans s).isClient = decide (s = .client)
  mrs : ∀ s, ∀ frame ∈ (c.trans s).qp.wire, frame.IsMr

section Connection

variable {c c' : Connection} {s : Side}

/-- A step of one party that keeps its role and puts only MRs on its wire keeps the traffic. -/
theorem ExchangeTraffic.setEnd (h : ExchangeTraffic c) {e : Endpoint}
    (hrole : e.trans.isClient = (c.trans s).isClient)
    (hmrs : ∀ frame ∈ e.trans.qp.wire, frame.IsMr) :
    ExchangeTraffic (c.setEnd s e) where
  role r := by
    rcases s.eq_or_peer r with rfl | rfl
    · rw [setEnd_self, hrole, h.role]
    · rw [setEnd_peer, h.role]
  mrs r := by
    rcases s.eq_or_peer r with rfl | rfl
    · rwa [setEnd_self]
    · rw [setEnd_peer]
      exact h.mrs s.peer

/-- A step of one party that sends MRs keeps the traffic. -/
theorem ExchangeTraffic.sent (h : ExchangeTraffic c) {e : Endpoint} {n : ℕ}
    (hsent : MrsSent n (c.trans s) e.trans) : ExchangeTraffic (c.setEnd s e) := by
  obtain ⟨frames, -, htype, hwire⟩ := hsent.wire
  apply h.setEnd hsent.role
  intro frame hframe
  rw [hwire] at hframe
  exact (List.mem_append.mp hframe).elim (h.mrs s frame) (htype frame)

/-- What the completion of a receive did in the exchange. -/
theorem recvComplete_sent (hsound : SoundConnection c) (h : ExchangeTraffic c) {o : Outcomes}
    {frame : Frame} {t : HmrRdmaTransport} (hframe : (c.trans s.peer).qp.wire.head? = some frame)
    (hpost : o.sendPost) (hdata : dataStep (c.trans s) (.recvComplete frame .success o) = some t) :
    (c.trans s).ownMr ≠ none ∧ t.transState = .rconnected ∧
      t.mrsReceived = (c.trans s).mrsReceived + 1 ∧
      MrsSent (answers (c.trans s).transState) (c.trans s) t := by
  have hmem : frame ∈ (c.trans s.peer).qp.wire := List.mem_of_mem_head? hframe
  exact recvMr_sent (hsound.recvs s) (h.mrs s.peer frame hmem) hpost hdata

/-- Every event of the exchange keeps the traffic. -/
theorem ExchangeTraffic.step {e : ConnectionEvent} (h : ExchangeTraffic c)
    (hsound : SoundConnection c) (hevent : ExchangeEvent e)
    (hstep : connectionStep c e = some c') : ExchangeTraffic c' := by
  cases connectionStep_cases hstep with
  | established s o t _ hhandler => exact h.sent (onCmEstablished_sent hhandler hevent.1)
  | sendComplete s i status o t hdata =>
    apply h.setEnd (dataStep_sendComplete_state hdata).1
    rw [(dataStep_sendComplete_frame hdata).2.2.2]
    exact h.mrs s
  | recvComplete s o frame t hframe hdata =>
    have hsent := (recvComplete_sent hsound h hframe hevent.1 hdata).2.2.2
    have hrecv : ExchangeTraffic (c.setTrans s t) := h.sent hsent
    have hpeer : (c.setTrans s t).trans s.peer = c.trans s.peer := setTrans_peer c s t
    rw [← hpeer]
    exact hrecv.setEnd rfl fun frame hmem => hrecv.mrs s.peer frame (List.mem_of_mem_tail hmem)
  | accept => exact ⟨h.role, h.mrs⟩
  | acceptConnecting =>
    have hserver : ExchangeTraffic (c.setTrans .server (acceptConnecting (c.trans .server))) :=
      h.setEnd rfl (h.mrs .server)
    exact ⟨hserver.role, hserver.mrs⟩
  | acceptMempool m =>
    have hserver : ExchangeTraffic (c.setTrans .server (acceptMempool m (c.trans .server))) :=
      h.setEnd rfl (h.mrs .server)
    exact ⟨hserver.role, hserver.mrs⟩
  | acceptPost o left t _ hpost =>
    have hserver : ExchangeTraffic (c.setTrans .server t) := h.sent hpost.mrsSent
    exact ⟨hserver.role, hserver.mrs⟩
  | recvFail | tick | check | submit => exact hevent.elim

/-- The view after an ESTABLISHED event. -/
theorem established_view (h : ExchangeTraffic c) {o : Outcomes} {t : HmrRdmaTransport}
    (hpost : o.sendPost) (hhandler : onCmEstablished o (c.trans s) = .ok t) :
    (c.setEnd s { c.ends s with trans := t, established := .handled }).view =
      if s = .client then c.view.clientEstablished else c.view.serverEstablished := by
  obtain ⟨hstate, -, -, hmrs⟩ := onCmEstablished_frame hhandler
  have hsent := onCmEstablished_sent hhandler hpost
  rw [h.role] at hsent
  cases s with
  | client =>
    have hview : (c.setEnd .client { c.ends .client with trans := t, established := .handled }).view =
        { c.view with
          clientEvent := .handled
          client := t.transState
          clientMrs := t.mrsReceived
          clientWire := t.qp.wire.length } := rfl
    rw [hview, hstate, hmrs, hsent.wireLength]
    rfl
  | server =>
    have hview : (c.setEnd .server { c.ends .server with trans := t, established := .handled }).view =
        { c.view with
          serverEvent := .handled
          server := t.transState
          serverMrs := t.mrsReceived
          serverWire := t.qp.wire.length
          serverSq := t.qp.sq.length } := rfl
    rw [hview, hstate, hmrs, hsent.wireLength, hsent.sq]
    rfl

/-- A send completion is a step of the exchange. -/
theorem sendComplete_simulates {i : ℕ} {status : IbvWcStatus} {o : Outcomes}
    {t : HmrRdmaTransport} (hdata : dataStep (c.trans s) (.sendComplete i status o) = some t) :
    ExchangeStep c.view (c.setTrans s t).view := by
  obtain ⟨wr, hwr, -⟩ := dataStep_sendComplete hdata
  obtain ⟨-, -, -, hqp⟩ := dataStep_sendComplete_frame hdata
  obtain ⟨-, hmrs, hstate⟩ := dataStep_sendComplete_state hdata
  have hwire : t.qp.wire = (c.trans s).qp.wire := by
    rw [hqp]
    rfl
  obtain ⟨hi, -⟩ := List.getElem?_eq_some_iff.mp hwr
  have hsq : t.qp.sq.length = (c.trans s).qp.sq.length - 1 := by
    rw [hqp]
    exact List.length_eraseIdx_of_lt hi
  cases s with
  | client =>
    have hview : (c.setTrans .client t).view =
        { c.view with
          client := t.transState
          clientMrs := t.mrsReceived
          clientWire := t.qp.wire.length } := rfl
    rw [hview, hmrs, hwire]
    exact .clientSent t.transState hstate
  | server =>
    have hview : (c.setTrans .server t).view =
        { c.view with
          server := t.transState
          serverMrs := t.mrsReceived
          serverWire := t.qp.wire.length
          serverSq := t.qp.sq.length } := rfl
    rw [hview, hmrs, hwire, hsq]
    exact .serverSent t.transState hstate (Nat.zero_lt_of_lt hi)

/-- So is a receive completion. -/
theorem recvComplete_simulates (hsound : SoundConnection c) (h : ExchangeTraffic c) {o : Outcomes}
    {frame : Frame} {t : HmrRdmaTransport} (hframe : (c.trans s.peer).qp.wire.head? = some frame)
    (hpost : o.sendPost) (hdata : dataStep (c.trans s) (.recvComplete frame .success o) = some t) :
    ExchangeStep c.view ((c.setTrans s t).setTrans s.peer (c.trans s.peer).wireTaken).view := by
  obtain ⟨hown, hstate, hmrs, hsent⟩ := recvComplete_sent hsound h hframe hpost hdata
  have hwire : 0 < (c.trans s.peer).qp.wire.length :=
    List.length_pos_of_mem (List.mem_of_mem_head? hframe)
  cases s with
  | client =>
    have hview : ((c.setTrans .client t).setTrans .server (c.trans .server).wireTaken).view =
        { c.view with
          client := t.transState
          clientMrs := t.mrsReceived
          clientWire := t.qp.wire.length
          serverWire := (c.trans .server).qp.wire.tail.length } := rfl
    rw [Side.peer, hview, hstate, hmrs, hsent.wireLength, List.length_tail]
    exact .clientReceived hwire
  | server =>
    have hview : ((c.setTrans .server t).setTrans .client (c.trans .client).wireTaken).view =
        { c.view with
          server := t.transState
          serverMrs := t.mrsReceived
          serverWire := t.qp.wire.length
          serverSq := t.qp.sq.length
          clientWire := (c.trans .client).qp.wire.tail.length } := rfl
    rw [Side.peer, hview, hstate, hmrs, hsent.wireLength, hsent.sq, List.length_tail]
    by_cases hphase : ∃ left, c.accept = .posting left
    · obtain ⟨left, hphase⟩ := hphase
      exact .serverReceived left hphase hwire
    · exact absurd (hsound.pool (not_exists.mp hphase)) hown

/-- Every event of the connection's exchange is a step of the exchange. -/
theorem connectionStep_simulates {e : ConnectionEvent} (hsound : SoundConnection c)
    (h : ExchangeTraffic c) (hevent : ExchangeEvent e) (hintime : EstablishedInTime c e)
    (hstep : connectionStep c e = some c') : ExchangeStep c.view c'.view := by
  cases connectionStep_cases hstep with
  | established s o t hpending hhandler =>
    rw [established_view h hevent.1 hhandler]
    cases s with
    | client => exact .clientEstablished hpending
    | server => exact .serverEstablished hpending hintime
  | sendComplete s i status o t hdata => exact sendComplete_simulates hdata
  | recvComplete s o frame t hframe hdata =>
    exact recvComplete_simulates hsound h hframe hevent.1 hdata
  | accept hphase => exact .accepted hphase
  | acceptConnecting hphase => exact .connecting hphase
  | acceptMempool m hphase => exact .posting _ (.inl hphase)
  | acceptPost o left t hphase hpost =>
    have hview : ({ c.setTrans .server t with accept := .posting left } : Connection).view =
        { c.view with
          accept := .posting left
          server := t.transState
          serverMrs := t.mrsReceived
          serverWire := t.qp.wire.length
          serverSq := t.qp.sq.length } := rfl
    have hsent := hpost.mrsSent
    rw [hview, hpost.transState, hpost.mrsReceived, hsent.wireLength, hsent.sq]
    exact .posting left (.inr hphase)
  | recvFail | tick | check | submit => exact hevent.elim

/-- The connection during the exchange. -/
structure ExchangeInv (c : Connection) : Prop where
  keyed : KeyedConnection c
  traffic : ExchangeTraffic c
  view : c.view.Inv

/-- A connection that starts has the invariant. -/
theorem Connection.Starts.exchange (h : c.Starts) : ExchangeInv c := by
  have hevent (s : Side) : (c.ends s).established = .absent := h.established s
  have hwire (s : Side) : (c.trans s).qp.wire = [] := (h.unused s).wire
  have hmrs (s : Side) : (c.trans s).mrsReceived = 0 := (h.unused s).mrs
  refine ⟨h.keyed, ⟨fun s => ?_, fun s => by simp [hwire s]⟩, ?_⟩
  · cases s with
    | client => exact h.client.1
    | server => exact h.server.1
  · constructor <;>
      simp [Connection.view, AcceptPhase.Early, hevent, hwire, hmrs, h.accept, h.server.2.1,
        (h.unused .server).sq]

/-- Events of the exchange are no calls of the application. -/
theorem ExchangeEvent.appSends {e : ConnectionEvent} (h : ExchangeEvent e) : AppSends e := by
  cases e <;> trivial

/-- Nor ticks. -/
theorem ExchangeEvent.ticksNoMr {e : ConnectionEvent} (h : ExchangeEvent e) : TicksNoMr c e := by
  cases e with
  | tick => exact h.elim
  | _ => trivial

/-- Every event in time keeps the invariant. -/
theorem ExchangeInv.step {e : ConnectionEvent} (h : ExchangeInv c) (hevent : ExchangeEvent e)
    (hintime : EstablishedInTime c e) (hstep : connectionStep c e = some c') : ExchangeInv c' where
  keyed := h.keyed.step hevent.appSends hevent.ticksNoMr hstep
  traffic := h.traffic.step h.keyed.toSoundConnection hevent hstep
  view := h.view.step (connectionStep_simulates h.keyed.toSoundConnection h.traffic hevent hintime hstep)

/-- With nothing pending the exchange has completed. -/
theorem ExchangeInv.completes (h : ExchangeInv c) : ExchangeCompletes c := by
  intro hquiet
  have hview : c.view.Quiet :=
    ⟨hquiet.accept, hquiet.events .client, hquiet.events .server,
      congrArg List.length (hquiet.messages .client),
      congrArg List.length (hquiet.messages .server)⟩
  obtain ⟨⟨hclient, hclientMrs⟩, hserver, hserverMrs⟩ := h.view.completed hview
  intro s
  cases s with
  | client => exact ⟨hclient, (h.keyed.ends .client).learned hclientMrs⟩
  | server => exact ⟨hserver, (h.keyed.ends .server).learned hserverMrs⟩

/-- The connection behind an ESTABLISHED event of the server that was not in time. -/
structure ExchangeMissed (c : Connection) : Prop where
  keyed : KeyedConnection c
  traffic : ExchangeTraffic c
  view : c.view.Missed

/-- An event that is not in time misses the exchange. -/
theorem ExchangeInv.missed {e : ConnectionEvent} (h : ExchangeInv c) (hevent : ExchangeEvent e)
    (hlate : ¬EstablishedInTime c e) (hstep : connectionStep c e = some c') :
    ExchangeMissed c' := by
  refine ⟨h.keyed.step hevent.appSends hevent.ticksNoMr hstep,
    h.traffic.step h.keyed.toSoundConnection hevent hstep, ?_⟩
  cases connectionStep_cases hstep with
  | established s o t hpending hhandler =>
    rw [established_view h.traffic hevent.1 hhandler]
    cases s with
    | client => exact absurd trivial hlate
    | server => exact h.view.missed hpending hlate
  | _ => exact absurd trivial hlate

/-- No later event makes up for it. -/
theorem ExchangeMissed.step {e : ConnectionEvent} (h : ExchangeMissed c) (hevent : ExchangeEvent e)
    (hstep : connectionStep c e = some c') : ExchangeMissed c' := by
  have hintime : EstablishedInTime c e := by
    cases connectionStep_cases hstep with
    | established s o t hpending =>
      cases s with
      | client => trivial
      | server =>
        rw [show (c.ends .server).established = .handled from h.view.event] at hpending
        contradiction
    | _ => trivial
  exact ⟨h.keyed.step hevent.appSends hevent.ticksNoMr hstep,
    h.traffic.step h.keyed.toSoundConnection hevent hstep,
    h.view.step (connectionStep_simulates h.keyed.toSoundConnection h.traffic hevent hintime hstep)⟩

/-- The client has no MR then. -/
theorem ExchangeMissed.not_exchanged (h : ExchangeMissed c) : ¬c.Exchanged := by
  intro hdone
  exact ((h.keyed.ends .client).ready (hdone .client).1).ne' h.view.silent.2.2

/-- The exchange completes in every run in which the server's ESTABLISHED event is handled in
time. -/
theorem exchange_completes {events : List ConnectionEvent} (hstart : c.Starts)
    (hevents : ∀ e ∈ events, ExchangeEvent e)
    (hintime : Guarded connectionStep EstablishedInTime c events) :
    Always connectionStep ExchangeCompletes c events := by
  apply always_of_guarded (D := ExchangeEvent) (I := ExchangeInv) ?_ ?_ hevents hstart.exchange
    hintime
  · exact fun c h => h.completes
  · exact fun c e c' hevent h hguard hstep => h.step hevent hguard hstep

/-- It does so only then: a run that ends with nothing pending has completed the exchange exactly
if the event was handled in time. -/
theorem exchanged_iff_inTime {events : List ConnectionEvent} (hstart : c.Starts)
    (hevents : ∀ e ∈ events, ExchangeEvent e) (hrun : runEvents connectionStep c events = some c')
    (hquiet : c'.Quiescent) :
    c'.Exchanged ↔ Guarded connectionStep EstablishedInTime c events := by
  have hstep (c : Connection) (e : ConnectionEvent) (c' : Connection) (hevent : ExchangeEvent e)
      (h : ExchangeInv c) (hguard : EstablishedInTime c e) (hstep : connectionStep c e = some c') :
      ExchangeInv c' := h.step hevent hguard hstep
  constructor
  · intro hdone
    apply guarded_of_trap (D := ExchangeEvent) (I := ExchangeInv) (J := ExchangeMissed) hstep ?_ ?_
      hevents hstart.exchange hrun fun hmissed => hmissed.not_exchanged hdone
    · exact fun c e c' hevent h hlate hstep => h.missed hevent hlate hstep
    · exact fun c e c' hevent h hstep => h.step hevent hstep
  · intro hintime
    have hinv := always_of_guarded (fun _ h => h) hstep hevents hstart.exchange hintime
    exact (hinv.of_run hrun).completes hquiet

end Connection

/-- The accepting thread of the sample parties up to its last receive. -/
def sampleAccept : List ConnectionEvent :=
  [.accept, .acceptConnecting, .acceptMempool sampleMempoolOutcomes] ++
    List.replicate 6 (.acceptPost .ok)

/-- The exchange with the server's ESTABLISHED event in time. -/
def sampleExchange : List ConnectionEvent :=
  sampleAccept ++ [.established .server .ok, .established .client .ok,
    .sendComplete .client 0 .success .ok, .recvComplete .server .ok, .recvComplete .client .ok,
    .sendComplete .server 0 .success .ok]

/-- It completes with nothing pending. -/
theorem exchange_completes_sample :
    (runEvents connectionStep sampleConnection sampleExchange).map Connection.view =
        some ⟨.posting 0, .handled, .handled, .rconnected, .rconnected, 1, 1, 0, 0, 0⟩ ∧
      Always connectionStep ExchangeCompletes sampleConnection sampleExchange := by
  refine ⟨by decide +kernel, exchange_completes sampleConnection_starts ?_ ?_⟩
  · simp [sampleExchange, sampleAccept, ExchangeEvent, Outcomes.ok]
  · have hstate : (runEvents connectionStep sampleConnection sampleAccept).map
        (fun c => (c.trans .server).transState) = some .connecting := by decide +kernel
    apply Guarded.append (.of_forall (by simp [sampleAccept, EstablishedInTime]))
    intro c hc
    rw [hc, Option.map_some] at hstate
    intro c' _
    exact ⟨Option.some.inj hstate, .of_forall (by simp [EstablishedInTime])⟩

/-- A server that receives the client's MR before its ESTABLISHED event never answers it. -/
theorem exchange_incomplete :
    ¬∀ (c : Connection) (events : List ConnectionEvent), c.Starts →
      (∀ e ∈ events, ExchangeEvent e) → Always connectionStep ExchangeCompletes c events := by
  intro h
  let events : List ConnectionEvent :=
    sampleAccept ++ [.established .client .ok, .recvComplete .server .ok, .established .server .ok,
      .sendComplete .client 0 .success .ok]
  have hevents : ∀ e ∈ events, ExchangeEvent e := by
    simp [events, sampleAccept, ExchangeEvent, Outcomes.ok]
  have hrun : (runEvents connectionStep sampleConnection events).map
      (fun c => (c.view, (c.trans .client).qp.sq.length)) =
        some (⟨.posting 0, .handled, .handled, .sconnected, .connected, 0, 1, 0, 0, 0⟩, 0) := by
    decide +kernel
  obtain ⟨c, hc, hobs⟩ := Option.map_eq_some_iff.mp hrun
  obtain ⟨hview, hsq⟩ := Prod.mk.inj hobs
  simp only [Connection.view, ExchangeView.mk.injEq] at hview
  obtain ⟨haccept, hclient, hserver, hstate, -, -, -, hclientWire, hserverWire, hserverSq⟩ := hview
  have hquiet : c.Quiescent := by
    refine ⟨haccept, fun s => ?_, fun s => ?_, fun s => ?_⟩ <;> cases s
    · simp [hclient]
    · simp [hserver]
    · exact List.length_eq_zero_iff.mp hclientWire
    · exact List.length_eq_zero_iff.mp hserverWire
    · exact List.length_eq_zero_iff.mp hsq
    · exact List.length_eq_zero_iff.mp hserverSq
  have hdone := (h sampleConnection events sampleConnection_starts hevents).of_run hc hquiet .client
  rw [hdone.1] at hstate
  exact absurd hstate (by decide)

end HmrRpc
