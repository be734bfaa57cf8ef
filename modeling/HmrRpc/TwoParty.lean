import HmrRpc.CmEvents
import Mathlib.Logic.Function.Basic

/-!
# A client and the server that accepted it

Two transports whose queue pairs are connected: what one side posts stands on its wire, as the bytes
of its buffer were then, until the other side's oldest receive takes it, in order. `rdma_accept`
makes an ESTABLISHED event pending on both sides, and nothing orders the server's against the rest of
its accepting thread or against its first receive. An application call of `hmr_rdma_send` checks the
state in one step and submits the message in a later one.
-/

namespace HmrRpc

open Common

/-- The two parties. -/
inductive Side
  | client | server
  deriving DecidableEq, Repr

/-- The other party. -/
def Side.peer : Side → Side
  | .client => .server
  | .server => .client

/-- The life of an event of the connection manager. -/
inductive CmEventStatus
  | absent | pending | handled
  deriving DecidableEq, Repr

/-- One party: its transport, its ESTABLISHED event, and the messages of application calls that
have passed the check and are not submitted yet. -/
structure Endpoint where
  trans : HmrRdmaTransport
  established : CmEventStatus
  checked : List HmrMsg

/-- Where the server's accepting thread stands; `posting k` has `k` receives left to post. -/
inductive AcceptPhase
  | waiting | accepted | connecting
  | posting (left : ℕ)
  deriving DecidableEq, Repr

/-- The two parties and the accepting thread. -/
structure Connection where
  ends : Side → Endpoint
  accept : AcceptPhase

/-- An event of the connection. -/
inductive ConnectionEvent
  | established (s : Side) (o : Outcomes)
  | sendComplete (s : Side) (i : ℕ) (status : IbvWcStatus) (o : Outcomes)
  /-- The side's oldest receive takes the next frame of its peer. -/
  | recvComplete (s : Side) (o : Outcomes)
  /-- The side's oldest receive completes with an error. -/
  | recvFail (s : Side) (status : IbvWcStatus) (o : Outcomes)
  | tick (s : Side) (accepted : Option ℕ)
  /-- An application call passes `hmr_msg_check`. -/
  | check (s : Side) (msg : HmrMsg)
  /-- The `i`-th checked message is submitted. -/
  | submit (s : Side) (i : ℕ) (o : Outcomes)
  | accept
  | acceptConnecting
  | acceptMempool (m : MempoolOutcomes)
  | acceptPost (o : Outcomes)

/-- The transport of a side. -/
def Connection.trans (c : Connection) (s : Side) : HmrRdmaTransport := (c.ends s).trans

/-- The connection with a new transport on one side. -/
def Connection.setTrans (c : Connection) (s : Side) (t : HmrRdmaTransport) : Connection :=
  { c with ends := Function.update c.ends s { c.ends s with trans := t } }

/-- The connection with a new endpoint on one side. -/
def Connection.setEnd (c : Connection) (s : Side) (e : Endpoint) : Connection :=
  { c with ends := Function.update c.ends s e }

/-- One event of the connection. -/
def connectionStep (c : Connection) : ConnectionEvent → Option Connection
  | .established s o =>
    if (c.ends s).established = .pending then
      (onCmEstablished o (c.trans s)).toOption.map fun t =>
        c.setEnd s { c.ends s with trans := t, established := .handled }
    else none
  | .sendComplete s i status o =>
    (dataStep (c.trans s) (.sendComplete i status o)).map (c.setTrans s)
  | .recvComplete s o =>
    (c.trans s.peer).qp.wire.head?.bind fun frame =>
      (dataStep (c.trans s) (.recvComplete frame .success o)).map fun t =>
        (c.setTrans s t).setTrans s.peer (c.trans s.peer).wireTaken
  | .recvFail s status o =>
    if status = .success then none
    else (dataStep (c.trans s) (.recvComplete ⟨0, fun _ => 0⟩ status o)).map (c.setTrans s)
  | .tick s accepted => (dataStep (c.trans s) (.tick accepted)).map (c.setTrans s)
  | .check s msg =>
    if (hmrMsgCheck (c.trans s) msg).toOption = some 0 then
      some (c.setEnd s { c.ends s with checked := (c.ends s).checked ++ [msg] })
    else none
  | .submit s i o =>
    (c.ends s).checked[i]?.bind fun msg =>
      (submitMsg o (c.trans s) msg).toOption.map fun (_, t) =>
        c.setEnd s { c.ends s with trans := t, checked := (c.ends s).checked.eraseIdx i }
  | .accept =>
    if c.accept = .waiting then
      some ⟨fun s => { c.ends s with established := .pending }, .accepted⟩
    else none
  | .acceptConnecting =>
    if c.accept = .accepted then
      some { c.setTrans .server (HmrRpc.acceptConnecting (c.trans .server)) with accept := .connecting }
    else none
  | .acceptMempool m =>
    if c.accept = .connecting then
      some { c.setTrans .server (HmrRpc.acceptMempool m (c.trans .server)) with
        accept := .posting (prePostCount (c.trans .server).defaultRecvSize) }
    else none
  | .acceptPost o =>
    match c.accept with
    | .posting (left + 1) =>
      (hmrPostRecv o (c.trans .server) (c.trans .server).defaultRecvSize).toOption.map fun t =>
        { c.setTrans .server t with accept := .posting left }
    | _ => none

/-- What an event of the connection did. -/
inductive ConnectionResult (c : Connection) : ConnectionEvent → Connection → Prop
  | established (s : Side) (o : Outcomes) (t : HmrRdmaTransport)
      (hpending : (c.ends s).established = .pending)
      (hhandler : onCmEstablished o (c.trans s) = .ok t) :
      ConnectionResult c (.established s o)
        (c.setEnd s { c.ends s with trans := t, established := .handled })
  | sendComplete (s : Side) (i : ℕ) (status : IbvWcStatus) (o : Outcomes) (t : HmrRdmaTransport)
      (hdata : dataStep (c.trans s) (.sendComplete i status o) = some t) :
      ConnectionResult c (.sendComplete s i status o) (c.setTrans s t)
  | recvComplete (s : Side) (o : Outcomes) (frame : Frame) (t : HmrRdmaTransport)
      (hframe : (c.trans s.peer).qp.wire.head? = some frame)
      (hdata : dataStep (c.trans s) (.recvComplete frame .success o) = some t) :
      ConnectionResult c (.recvComplete s o)
        ((c.setTrans s t).setTrans s.peer (c.trans s.peer).wireTaken)
  | recvFail (s : Side) (status : IbvWcStatus) (o : Outcomes) (t : HmrRdmaTransport)
      (hstatus : status ≠ .success)
      (hdata : dataStep (c.trans s) (.recvComplete ⟨0, fun _ => 0⟩ status o) = some t) :
      ConnectionResult c (.recvFail s status o) (c.setTrans s t)
  | tick (s : Side) (a : Option ℕ) (t : HmrRdmaTransport)
      (hdata : dataStep (c.trans s) (.tick a) = some t) :
      ConnectionResult c (.tick s a) (c.setTrans s t)
  | check (s : Side) (msg : HmrMsg) (hready : hmrMsgReady (c.trans s) msg) :
      ConnectionResult c (.check s msg)
        (c.setEnd s { c.ends s with checked := (c.ends s).checked ++ [msg] })
  | submit (s : Side) (i : ℕ) (o : Outcomes) (msg : HmrMsg) (t : HmrRdmaTransport)
      (hmsg : (c.ends s).checked[i]? = some msg) (hsubmit : SubmitResult o (c.trans s) msg t) :
      ConnectionResult c (.submit s i o)
        (c.setEnd s { c.ends s with trans := t, checked := (c.ends s).checked.eraseIdx i })
  | accept (hphase : c.accept = .waiting) :
      ConnectionResult c .accept ⟨fun s => { c.ends s with established := .pending }, .accepted⟩
  | acceptConnecting (hphase : c.accept = .accepted) :
      ConnectionResult c .acceptConnecting
        { c.setTrans .server (HmrRpc.acceptConnecting (c.trans .server)) with accept := .connecting }
  | acceptMempool (m : MempoolOutcomes) (hphase : c.accept = .connecting) :
      ConnectionResult c (.acceptMempool m)
        { c.setTrans .server (HmrRpc.acceptMempool m (c.trans .server)) with
          accept := .posting (prePostCount (c.trans .server).defaultRecvSize) }
  | acceptPost (o : Outcomes) (left : ℕ) (t : HmrRdmaTransport)
      (hphase : c.accept = .posting (left + 1))
      (hpost : PostRecvResult o (c.trans .server) (c.trans .server).defaultRecvSize t) :
      ConnectionResult c (.acceptPost o) { c.setTrans .server t with accept := .posting left }

/-- Every step of the connection is one of the listed results. -/
theorem connectionStep_cases {c c' : Connection} {e : ConnectionEvent}
    (h : connectionStep c e = some c') : ConnectionResult c e c' := by
  cases e with
  | established s o =>
    obtain ⟨hpending, h⟩ := Option.ite_none_right_eq_some.mp h
    obtain ⟨t, ht, rfl⟩ := Option.map_eq_some_iff.mp h
    exact .established s o t hpending (ok_of_toOption ht)
  | sendComplete s i status o =>
    obtain ⟨t, ht, rfl⟩ := Option.map_eq_some_iff.mp h
    exact .sendComplete s i status o t ht
  | recvComplete s o =>
    obtain ⟨frame, hframe, h⟩ := Option.bind_eq_some_iff.mp h
    obtain ⟨t, ht, rfl⟩ := Option.map_eq_some_iff.mp h
    exact .recvComplete s o frame t hframe ht
  | recvFail s status o =>
    obtain ⟨hstatus, h⟩ := Option.ite_none_left_eq_some.mp h
    obtain ⟨t, ht, rfl⟩ := Option.map_eq_some_iff.mp h
    exact .recvFail s status o t hstatus ht
  | tick s a =>
    obtain ⟨t, ht, rfl⟩ := Option.map_eq_some_iff.mp h
    exact .tick s a t ht
  | check s msg =>
    obtain ⟨hcheck, h⟩ := Option.ite_none_right_eq_some.mp h
    obtain rfl := Option.some.inj h
    exact .check s msg (hmrMsgCheck_eq_zero.mp (ok_of_toOption hcheck))
  | submit s i o =>
    obtain ⟨msg, hmsg, h⟩ := Option.bind_eq_some_iff.mp h
    obtain ⟨⟨r, t⟩, ht, rfl⟩ := Option.map_eq_some_iff.mp h
    exact .submit s i o msg t hmsg (submitMsg_cases (ok_of_toOption ht)).2
  | accept =>
    obtain ⟨hphase, h⟩ := Option.ite_none_right_eq_some.mp h
    obtain rfl := Option.some.inj h
    exact .accept hphase
  | acceptConnecting =>
    obtain ⟨hphase, h⟩ := Option.ite_none_right_eq_some.mp h
    obtain rfl := Option.some.inj h
    exact .acceptConnecting hphase
  | acceptMempool m =>
    obtain ⟨hphase, h⟩ := Option.ite_none_right_eq_some.mp h
    obtain rfl := Option.some.inj h
    exact .acceptMempool m hphase
  | acceptPost o =>
    simp only [connectionStep] at h
    split at h
    · rename_i left hphase
      obtain ⟨t, ht, rfl⟩ := Option.map_eq_some_iff.mp h
      exact .acceptPost o left t hphase (hmrPostRecv_cases (ok_of_toOption ht))
    · contradiction

/-- A transport that has neither sent nor received anything and is not yet connected. -/
structure HmrRdmaTransport.Unused (t : HmrRdmaTransport) : Prop where
  list : t.sendTaskList = []
  sq : t.qp.sq = []
  wire : t.qp.wire = []
  encoded : t.qp.encoded = []
  log : t.qp.sendLog = []
  mrs : t.mrsReceived = 0
  cursor : t.peerInfo.usedNormalSize = 0
  recvs : t.RecvsMatch

/-- A client that called `rdma_connect`, and the transport of the server's connect request. -/
structure Connection.Starts (c : Connection) : Prop where
  unused : ∀ s, (c.trans s).Unused
  established : ∀ s, (c.ends s).established = .absent
  checked : ∀ s, (c.ends s).checked = []
  accept : c.accept = .waiting
  client : (c.trans .client).isClient = true ∧ (c.trans .client).transState = .connecting
  server : (c.trans .server).isClient = false ∧ (c.trans .server).transState = .init ∧
    (c.trans .server).normalMempool = none

section Ends

variable (c : Connection) (s : Side)

@[simp] theorem Side.peer_peer : s.peer.peer = s := by cases s <;> rfl

@[simp] theorem Side.peer_ne : s.peer ≠ s := by cases s <;> decide

/-- A side is one party or the other. -/
theorem Side.eq_or_peer (s r : Side) : r = s ∨ r = s.peer := by
  cases s <;> cases r <;> simp [Side.peer]

@[simp] theorem setTrans_self (t : HmrRdmaTransport) : (c.setTrans s t).trans s = t := by
  simp [Connection.setTrans, Connection.trans]

@[simp] theorem setTrans_peer (t : HmrRdmaTransport) :
    (c.setTrans s t).trans s.peer = c.trans s.peer := by
  simp [Connection.setTrans, Connection.trans]

@[simp] theorem setEnd_ends_self (e : Endpoint) : (c.setEnd s e).ends s = e := by
  simp [Connection.setEnd]

@[simp] theorem setEnd_ends_peer (e : Endpoint) :
    (c.setEnd s e).ends s.peer = c.ends s.peer := by
  simp [Connection.setEnd]

@[simp] theorem setEnd_self (e : Endpoint) : (c.setEnd s e).trans s = e.trans := by
  simp [Connection.setEnd, Connection.trans]

@[simp] theorem setEnd_peer (e : Endpoint) : (c.setEnd s e).trans s.peer = c.trans s.peer := by
  simp [Connection.setEnd, Connection.trans]

end Ends

/-- The connection once a side has handled the first frame of its peer's wire. -/
def Connection.handled (c : Connection) (s : Side) (t : HmrRdmaTransport) : Connection :=
  (c.setTrans s t).setTrans s.peer (c.trans s.peer).wireTaken

@[simp] theorem handled_self (c : Connection) (s : Side) (t : HmrRdmaTransport) :
    (c.handled s t).trans s = t := by
  cases s <;> rfl

@[simp] theorem handled_peer (c : Connection) (s : Side) (t : HmrRdmaTransport) :
    (c.handled s t).trans s.peer = (c.trans s.peer).wireTaken := by
  cases s <;> rfl

/-- What every run keeps: receives are posted with their own buffers, and the server has no pool
before its accepting thread makes it. -/
structure SoundConnection (c : Connection) : Prop where
  recvs : ∀ s, (c.trans s).RecvsMatch
  pool : (∀ left, c.accept ≠ .posting left) → (c.trans .server).ownMr = none

section Sound

variable {c c' : Connection} {s : Side}

/-- A step of one party that keeps its MR keeps it. -/
theorem SoundConnection.setEnd (h : SoundConnection c) {e : Endpoint}
    (hown : e.trans.ownMr = (c.trans s).ownMr) (hrecvs : e.trans.RecvsMatch) :
    SoundConnection (c.setEnd s e) where
  recvs r := by
    rcases s.eq_or_peer r with rfl | rfl
    · simpa using hrecvs
    · simpa using h.recvs s.peer
  pool hphase := by
    have hserver := h.pool hphase
    rcases s.eq_or_peer .server with hs | hs
    · rw [hs] at hserver ⊢
      rwa [setEnd_self, hown]
    · rw [hs] at hserver ⊢
      rwa [setEnd_peer]

/-- So does a step of its transport alone. -/
theorem SoundConnection.setTrans (h : SoundConnection c) {t : HmrRdmaTransport}
    (hown : t.ownMr = (c.trans s).ownMr) (hrecvs : t.RecvsMatch) :
    SoundConnection (c.setTrans s t) :=
  h.setEnd (e := { c.ends s with trans := t }) hown hrecvs

/-- In particular an event of its transport. -/
theorem SoundConnection.data (h : SoundConnection c) {t : HmrRdmaTransport} {e : DataEvent}
    (hstep : dataStep (c.trans s) e = some t) : SoundConnection (c.setTrans s t) :=
  h.setTrans (dataStep_ownMr hstep) (dataStep_recvsMatch (h.recvs s) hstep)

/-- The accepting thread may move on while the server has no pool. -/
theorem SoundConnection.setAccept (h : SoundConnection c) {a : AcceptPhase}
    (hpool : (∀ left, a ≠ .posting left) → (c.trans .server).ownMr = none) :
    SoundConnection { c with accept := a } :=
  ⟨h.recvs, hpool⟩

/-- A message that is handled is taken off the peer's wire. -/
theorem SoundConnection.handled (h : SoundConnection c) {t : HmrRdmaTransport} {e : DataEvent}
    (hstep : dataStep (c.trans s) e = some t) : SoundConnection (c.handled s t) := by
  have hpeer : (c.setTrans s t).trans s.peer = c.trans s.peer := setTrans_peer c s t
  rw [Connection.handled, ← hpeer]
  exact (h.data hstep).setTrans rfl ((h.data hstep).recvs s.peer)

/-- Every event keeps it. -/
theorem SoundConnection.step {e : ConnectionEvent} (h : SoundConnection c)
    (hstep : connectionStep c e = some c') : SoundConnection c' := by
  cases connectionStep_cases hstep with
  | established s o t _ hhandler =>
    obtain ⟨-, hown, hrq, -⟩ := onCmEstablished_frame hhandler
    exact h.setEnd hown fun wr hwr => h.recvs s wr (hrq ▸ hwr)
  | sendComplete s i status o t hdata => exact h.data hdata
  | recvComplete s o frame t hframe hdata => exact h.handled hdata
  | recvFail s status o t hstatus hdata => exact h.data hdata
  | tick s a t hdata => exact h.data hdata
  | check s msg hready => exact h.setEnd rfl (h.recvs s)
  | submit s i o msg t hmsg hsubmit =>
    exact h.setEnd hsubmit.ownMr fun wr hwr => h.recvs s wr (hsubmit.rq ▸ hwr)
  | accept hphase => exact ⟨h.recvs, fun _ => h.pool (by simp [hphase])⟩
  | acceptConnecting hphase =>
    have hserver := h.setTrans (s := .server) (t := acceptConnecting (c.trans .server)) rfl
      (h.recvs .server)
    exact hserver.setAccept fun _ => hserver.pool (by simp [Connection.setTrans, hphase])
  | acceptMempool m hphase =>
    refine ⟨fun s => ?_, fun hne => absurd rfl (hne _)⟩
    cases s with
    | client => exact h.recvs .client
    | server => exact h.recvs .server
  | acceptPost o left t hphase hpost =>
    have hserver := h.setTrans (s := .server) hpost.ownMr (hpost.recvsMatch (h.recvs .server))
    exact hserver.setAccept fun hne => absurd rfl (hne left)

/-- A connection that starts is sound. -/
theorem Connection.Starts.sound (h : c.Starts) : SoundConnection c where
  recvs s := (h.unused s).recvs
  pool _ := by rw [HmrRdmaTransport.ownMr, h.server.2.2, Option.map_none]

end Sound

/-- A client with `process_resp` set and one receive posted, and the server transport of its connect
request. -/
def sampleConnection : Connection where
  ends
    | .client => ⟨HmrRdmaTransport.recvPosted { sampleTransport with
        transState := .connecting, isClient := true, processResp := true,
        peerInfo := hmrRdmaCreate.peerInfo } samplePool maxRecvSize, .absent, []⟩
    | .server => ⟨hmrRdmaCreate.qpCreated, .absent, []⟩
  accept := .waiting

/-- It can start. -/
theorem sampleConnection_starts : sampleConnection.Starts where
  unused s := by
    cases s with
    | client => exact ⟨rfl, rfl, rfl, rfl, rfl, rfl, rfl, by simp [HmrRdmaTransport.RecvsMatch,
        sampleConnection, Connection.trans, HmrRdmaTransport.recvPosted, HmrRdmaTransport.ibvPostRecv,
        sampleTransport, hmrRdmaCreate, HmrTask.ibvSge]⟩
    | server => exact ⟨rfl, rfl, rfl, rfl, rfl, rfl, rfl, fun wr hwr => absurd hwr List.not_mem_nil⟩
  established s := by cases s <;> rfl
  checked s := by cases s <;> rfl
  accept := rfl
  client := ⟨rfl, rfl⟩
  server := ⟨rfl, rfl, rfl⟩

end HmrRpc
