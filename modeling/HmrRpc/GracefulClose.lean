import HmrRpc.MessageFlow
import Mathlib.Data.List.TakeWhile

/-!
# The closing handshake

A FINISH is answered with DONE, and a side that has sent or received a DONE calls
`rdma_disconnect`, which makes a DISCONNECTED event pending on both sides. By then every
message sent before the close is in the peer's completion queue. But the event and the queue
are two descriptors of the event thread, and the handler of the event destroys the queue pair
with the completions that have not been polled.

To the connection of the two parties this adds the completion queues, with what the HCA has
placed of the peer's wire, and as history the two-sided messages accepted.
-/

namespace HmrRpc

open Common

/-- The message opens or answers the close. -/
def HmrMsg.Closes (msg : HmrMsg) : Prop := msg.msgType = .finish ∨ msg.msgType = .done

instance (msg : HmrMsg) : Decidable msg.Closes := inferInstanceAs (Decidable (_ ∨ _))

/-- The frame of such a message. -/
def Frame.Closes (frame : Frame) : Prop :=
  receivedType frame.byte = .finish ∨ receivedType frame.byte = .done

instance (frame : Frame) : Decidable frame.Closes := inferInstanceAs (Decidable (_ ∨ _))

instance (frame encoded : Frame) : Decidable (frame.Carries encoded) :=
  decidable_of_iff (frame.length = encoded.length ∧
    ∀ i < encoded.length, frame.byte i = encoded.byte i)
    ⟨fun h => ⟨h.1, h.2⟩, fun h => ⟨h.length, h.byte⟩⟩

/-- The messages before the first FINISH or DONE. -/
def beforeClose (msgs : List HmrMsg) : List HmrMsg := msgs.takeWhile fun msg => ¬msg.Closes

/-- The two parties, the received frames in their completion queues, and the two-sided messages
they accepted. -/
structure CloseState where
  conn : Connection
  inbox : Side → List Frame
  accepted : Side → List HmrMsg

/-- An event of the connection, a frame that reaches a completion queue, a side handling its
DISCONNECTED event, or the application setting `process_resp`. -/
inductive CloseEvent
  | conn (e : ConnectionEvent)
  | deliver (s : Side)
  | disconnected (s : Side)
  | setProcessResp (s : Side)

/-- The SEND requests posted so far. -/
def HmrRdmaTransport.sends (t : HmrRdmaTransport) : List IbvSendWr :=
  t.qp.sendLog.filter fun wr => wr.opcode = .send

namespace CloseState

variable (g : CloseState) (s : Side)

/-- The transport of a side. -/
def trans : HmrRdmaTransport := g.conn.trans s

/-- The side's queue pair is usable. -/
def Live : Prop := (g.trans s).qp.status = .live

instance : Decidable (g.Live s) := inferInstanceAs (Decidable (_ = _))

/-- The frames of the side that have not reached the peer. -/
def undelivered : ℕ := (g.trans s).qp.encoded.length - (g.inbox s.peer).length

/-- The request of the first of them. -/
def nextSend : Option IbvSendWr :=
  if 0 < g.undelivered s then (g.trans s).sends[(g.trans s).sends.length - g.undelivered s]?
  else none

/-- The peer has the frame of the side's `i`-th outstanding request: more SEND requests are
outstanding from it on than have not reached the peer. -/
def Acknowledged (i : ℕ) : Prop :=
  (g.trans s).qp.sq[i]?.all fun wr => wr.opcode ≠ .send ∨
    g.undelivered s < ((g.trans s).qp.sq.drop i).countP fun wr => wr.opcode = .send

instance (i : ℕ) : Decidable (g.Acknowledged s i) := inferInstanceAs (Decidable (_ = true))

end CloseState

/-- One event of the two parties. -/
def closeStep (g : CloseState) : CloseEvent → Option CloseState
  | .conn (.recvComplete s o) =>
    if g.Live s then
      (g.inbox s).head?.bind fun frame =>
        (dataStep (g.trans s) (.recvComplete frame .success o)).map fun t =>
          ⟨g.conn.handled s t, Function.update g.inbox s (g.inbox s).tail,
            Function.update g.accepted s (g.accepted s ++ closingAnswer (g.trans s) t)⟩
    else none
  | .conn (.recvFail s status o) =>
    if g.Live s ∧ (g.inbox s).isEmpty then
      (connectionStep g.conn (.recvFail s status o)).map fun conn => { g with conn := conn }
    else none
  | .conn (.sendComplete s i status o) =>
    if g.Live s ∧ (status = .success → g.Acknowledged s i) then
      (connectionStep g.conn (.sendComplete s i status o)).map fun conn => { g with conn := conn }
    else none
  | .conn (.submit s i o) =>
    (g.conn.ends s).checked[i]?.bind fun msg =>
      (connectionStep g.conn (.submit s i o)).map fun conn =>
        { g with
          conn := conn
          accepted := Function.update g.accepted s
            (g.accepted s ++ if msg.TwoSided then [msg] else []) }
  | .conn e => (connectionStep g.conn e).map fun conn => { g with conn := conn }
  | .deliver s =>
    if g.Live s ∧ g.Live s.peer then
      (g.nextSend s.peer).bind fun wr =>
        ((g.trans s.peer).hcaRead wr).bind fun frame =>
          (g.trans s).qp.rq[(g.inbox s).length]?.bind fun recv =>
            if frame.length ≤ recv.sgList.length then
              some { g with inbox := Function.update g.inbox s (g.inbox s ++ [frame]) }
            else none
    else none
  | .disconnected s =>
    -- `rdma_disconnect` on either side makes the event pending on both
    if 0 < (g.trans s).disconnects + (g.trans s.peer).disconnects then
      (onCmDisconnected (g.trans s)).toOption.map fun t => { g with conn := g.conn.setTrans s t }
    else none
  | .setProcessResp s =>
    some { g with conn := g.conn.setTrans s { g.trans s with processResp := true } }

/-- A message is handled with `process_resp` set, and a failing post accepts no SEND. -/
def Attentive (g : CloseState) : CloseEvent → Prop
  | .conn (.recvComplete s _) =>
    ∀ frame, (g.inbox s).head? = some frame → frame.forApp → (g.trans s).processResp
  | .conn (.tick s (some k)) =>
    ∀ wr ∈ (sendChain (g.trans s).peerInfo (g.trans s).sendTaskList).take k, wr.opcode ≠ .send
  | _ => True

instance (g : CloseState) : (e : CloseEvent) → Decidable (Attentive g e)
  | .conn (.recvComplete s _) =>
    inferInstanceAs (Decidable (∀ frame ∈ (g.inbox s).head?,
      frame.forApp → (g.trans s).processResp))
  | .conn (.tick s (some k)) =>
    inferInstanceAs (Decidable (∀ wr ∈ (sendChain (g.trans s).peerInfo
      (g.trans s).sendTaskList).take k, wr.opcode ≠ .send))
  | .conn (.established ..) | .conn (.sendComplete ..) | .conn (.recvFail ..)
  | .conn (.tick _ none) | .conn (.check ..) | .conn (.submit ..) | .conn .accept
  | .conn .acceptConnecting | .conn (.acceptMempool _) | .conn (.acceptPost _) | .deliver _
  | .disconnected _ | .setProcessResp _ => isTrue trivial

/-- DISCONNECTED is handled only when the next message of the completion queue is a FINISH or DONE,
if there is one and none has been handled. -/
def PollsFirst (g : CloseState) : CloseEvent → Prop
  | .disconnected s =>
    (∃ msg ∈ (g.trans s).responses, msg.Closes) ∨
      ∀ frame, (appFrames (g.inbox s)).head? = some frame → frame.Closes
  | _ => True

instance (g : CloseState) : (e : CloseEvent) → Decidable (PollsFirst g e)
  | .disconnected s =>
    inferInstanceAs (Decidable ((∃ msg ∈ (g.trans s).responses, msg.Closes) ∨
      ∀ frame ∈ (appFrames (g.inbox s)).head?, frame.Closes))
  | .conn _ | .deliver _ | .setProcessResp _ => isTrue trivial

/-- The application sends no DONE ahead of the program, and the HCA finds the message it reads in its
buffer. -/
def SendsAsEncoded (g : CloseState) : CloseEvent → Prop
  | .conn (.submit s i _) =>
    ∀ msg, (g.conn.ends s).checked[i]? = some msg → msg.msgType = .done →
      (∃ msg' ∈ g.accepted s, msg'.msgType = .done) ∨ 0 < (g.trans s).disconnects
  | .deliver s =>
    ∀ wr frame, g.nextSend s.peer = some wr → (g.trans s.peer).hcaRead wr = some frame →
      frame.Carries wr.wrId.frame
  | _ => True

/-- What every event of a clean close meets: each message is handled, sent as encoded, and polled
before DISCONNECTED. -/
def ClosesCleanly (g : CloseState) (e : CloseEvent) : Prop :=
  Attentive g e ∧ SendsAsEncoded g e ∧ PollsFirst g e

instance (g : CloseState) : (e : CloseEvent) → Decidable (SendsAsEncoded g e)
  | .conn (.submit s i _) =>
    inferInstanceAs (Decidable (∀ msg ∈ (g.conn.ends s).checked[i]?, msg.msgType = .done →
      (∃ msg' ∈ g.accepted s, msg'.msgType = .done) ∨ 0 < (g.trans s).disconnects))
  | .deliver s =>
    decidable_of_iff (∀ wr ∈ g.nextSend s.peer, ∀ frame ∈ (g.trans s.peer).hcaRead wr,
      frame.Carries wr.wrId.frame)
      ⟨fun h wr frame hwr hframe => h wr hwr frame hframe,
        fun h wr hwr frame hframe => h wr frame hwr hframe⟩
  | .conn (.established ..) | .conn (.sendComplete ..) | .conn (.recvComplete ..)
  | .conn (.recvFail ..) | .conn (.tick ..) | .conn (.check ..) | .conn .accept
  | .conn .acceptConnecting | .conn (.acceptMempool _) | .conn (.acceptPost _)
  | .disconnected _ | .setProcessResp _ => isTrue trivial

instance (g : CloseState) (e : CloseEvent) : Decidable (ClosesCleanly g e) :=
  inferInstanceAs (Decidable (_ ∧ _))

/-- The two parties as they start. -/
structure CloseState.Starts (g : CloseState) : Prop where
  conn : g.conn.Starts
  live : ∀ s, (g.trans s).qp.status ≠ .gone
  responses : ∀ s, (g.trans s).responses = []
  disconnects : ∀ s, (g.trans s).disconnects = 0
  inbox : ∀ s, g.inbox s = []
  accepted : ∀ s, g.accepted s = []

/-- The events of the connection that poll nothing and submit nothing. -/
def ConnectionEvent.Unpolled : ConnectionEvent → Prop
  | .recvComplete _ _ | .recvFail _ _ _ | .sendComplete _ _ _ _ | .submit _ _ _ => False
  | _ => True

/-- What an event of the two parties did. -/
inductive CloseResult (g : CloseState) : CloseEvent → CloseState → Prop
  | received (s : Side) (o : Outcomes) (frame : Frame) (rest : List Frame) (t : HmrRdmaTransport)
      (hinbox : g.inbox s = frame :: rest)
      (hdata : dataStep (g.trans s) (.recvComplete frame .success o) = some t) :
      CloseResult g (.conn (.recvComplete s o))
        ⟨g.conn.handled s t, Function.update g.inbox s rest,
          Function.update g.accepted s (g.accepted s ++ closingAnswer (g.trans s) t)⟩
  | recvFailed (s : Side) (status : IbvWcStatus) (o : Outcomes) (t : HmrRdmaTransport)
      (hstatus : status ≠ .success)
      (hdata : dataStep (g.trans s) (.recvComplete ⟨0, fun _ => 0⟩ status o) = some t) :
      CloseResult g (.conn (.recvFail s status o)) { g with conn := g.conn.setTrans s t }
  | sent (s : Side) (i : ℕ) (status : IbvWcStatus) (o : Outcomes) (t : HmrRdmaTransport)
      (hack : status = .success → g.Acknowledged s i)
      (hdata : dataStep (g.trans s) (.sendComplete i status o) = some t) :
      CloseResult g (.conn (.sendComplete s i status o)) { g with conn := g.conn.setTrans s t }
  | submitted (s : Side) (i : ℕ) (o : Outcomes) (msg : HmrMsg) (t : HmrRdmaTransport)
      (hmsg : (g.conn.ends s).checked[i]? = some msg) (hsubmit : SubmitResult o (g.trans s) msg t) :
      CloseResult g (.conn (.submit s i o))
        { g with
          conn := g.conn.setEnd s { g.conn.ends s with
            trans := t, checked := (g.conn.ends s).checked.eraseIdx i }
          accepted := Function.update g.accepted s
            (g.accepted s ++ if msg.TwoSided then [msg] else []) }
  | other (e : ConnectionEvent) (conn : Connection) (he : e.Unpolled)
      (hresult : ConnectionResult g.conn e conn) : CloseResult g (.conn e) { g with conn := conn }
  | delivered (s : Side) (wr : IbvSendWr) (frame : Frame) (hnext : g.nextSend s.peer = some wr)
      (hread : (g.trans s.peer).hcaRead wr = some frame) :
      CloseResult g (.deliver s)
        { g with inbox := Function.update g.inbox s (g.inbox s ++ [frame]) }
  | disconnected (s : Side) (t : HmrRdmaTransport)
      (hcalled : 0 < (g.trans s).disconnects + (g.trans s.peer).disconnects)
      (hhandler : onCmDisconnected (g.trans s) = .ok t) :
      CloseResult g (.disconnected s) { g with conn := g.conn.setTrans s t }
  | respSet (s : Side) :
      CloseResult g (.setProcessResp s)
        { g with conn := g.conn.setTrans s { g.trans s with processResp := true } }

/-- Every step of the two parties is one of the listed results. -/
theorem closeStep_cases {g g' : CloseState} {e : CloseEvent} (h : closeStep g e = some g') :
    CloseResult g e g' := by
  cases e with
  | conn e =>
    cases e with
    | recvComplete s o =>
      obtain ⟨-, h⟩ := Option.ite_none_right_eq_some.mp h
      obtain ⟨frame, hframe, h⟩ := Option.bind_eq_some_iff.mp h
      obtain ⟨t, ht, rfl⟩ := Option.map_eq_some_iff.mp h
      obtain ⟨rest, hinbox⟩ := List.head?_eq_some_iff.mp hframe
      have hresult := CloseResult.received s o frame rest t hinbox ht
      rwa [show rest = (g.inbox s).tail by rw [hinbox, List.tail_cons]] at hresult
    | recvFail s status o =>
      obtain ⟨-, h⟩ := Option.ite_none_right_eq_some.mp h
      obtain ⟨conn, hconn, rfl⟩ := Option.map_eq_some_iff.mp h
      cases connectionStep_cases hconn with
      | recvFail _ _ _ t hstatus hdata => exact .recvFailed s status o t hstatus hdata
    | sendComplete s i status o =>
      obtain ⟨⟨-, hack⟩, h⟩ := Option.ite_none_right_eq_some.mp h
      obtain ⟨conn, hconn, rfl⟩ := Option.map_eq_some_iff.mp h
      cases connectionStep_cases hconn with
      | sendComplete _ _ _ _ t hdata => exact .sent s i status o t hack hdata
    | submit s i o =>
      obtain ⟨msg, hmsg, h⟩ := Option.bind_eq_some_iff.mp h
      obtain ⟨conn, hconn, rfl⟩ := Option.map_eq_some_iff.mp h
      cases connectionStep_cases hconn with
      | submit _ _ _ msg' t hmsg' hsubmit =>
        obtain rfl := Option.some.inj (hmsg.symm.trans hmsg')
        exact .submitted s i o msg t hmsg hsubmit
    | _ =>
      obtain ⟨conn, hconn, rfl⟩ := Option.map_eq_some_iff.mp h
      exact .other _ conn trivial (connectionStep_cases hconn)
  | deliver s =>
    obtain ⟨-, h⟩ := Option.ite_none_right_eq_some.mp h
    obtain ⟨wr, hnext, h⟩ := Option.bind_eq_some_iff.mp h
    obtain ⟨frame, hread, h⟩ := Option.bind_eq_some_iff.mp h
    obtain ⟨recv, -, h⟩ := Option.bind_eq_some_iff.mp h
    obtain ⟨-, h⟩ := Option.ite_none_right_eq_some.mp h
    obtain rfl := Option.some.inj h
    exact .delivered s wr frame hnext hread
  | disconnected s =>
    obtain ⟨hcalled, h⟩ := Option.ite_none_right_eq_some.mp h
    obtain ⟨t, ht, rfl⟩ := Option.map_eq_some_iff.mp h
    exact .disconnected s t hcalled (ok_of_toOption ht)
  | setProcessResp s =>
    obtain rfl := Option.some.inj h
    exact .respSet s

/-- The messages close, after at most `n` of them. -/
structure ClosesBy (msgs : List HmrMsg) (n : ℕ) : Prop where
  closes : ∃ msg ∈ msgs, msg.Closes
  before : (beforeClose msgs).length ≤ n

section BeforeClose

variable {msgs msgs' : List HmrMsg} {msg : HmrMsg} {n n' : ℕ}

/-- A message that closes bounds what is before the close. -/
theorem ClosesBy.of_get (hget : msgs[n]? = some msg) (hcloses : msg.Closes) : ClosesBy msgs n := by
  refine ⟨⟨msg, List.mem_of_getElem? hget, hcloses⟩, Nat.le_of_not_lt fun hlt => ?_⟩
  have hpre : beforeClose msgs <+: msgs := List.takeWhile_prefix _
  have hmem : msg ∈ beforeClose msgs := by
    have hsame := List.prefix_iff_getElem?.mp hpre n hlt
    obtain rfl := Option.some.inj (hget.symm.trans hsame)
    exact List.getElem_mem hlt
  have hopen : ¬msg.Closes := by simpa using List.mem_takeWhile_imp hmem
  exact hopen hcloses

/-- More messages do not move the close. -/
theorem ClosesBy.mono (h : ClosesBy msgs n) (hpre : msgs <+: msgs') (hle : n ≤ n') :
    ClosesBy msgs' n' := by
  obtain ⟨rest, rfl⟩ := hpre
  obtain ⟨msg, hmem, hcloses⟩ := h.closes
  have hbefore : beforeClose (msgs ++ rest) = beforeClose msgs := by
    rw [beforeClose, List.takeWhile_append, if_neg fun hall => ?_, beforeClose]
    have hself : msgs.takeWhile (fun msg => ¬msg.Closes) = msgs :=
      (List.takeWhile_prefix _).eq_of_length hall
    exact of_decide_eq_true (List.takeWhile_eq_self_iff.mp hself msg hmem) hcloses
  exact ⟨⟨msg, List.mem_append_left _ hmem, hcloses⟩, hbefore ▸ h.before.trans hle⟩

/-- A frame that carries a message has its type. -/
theorem Frame.Carries.ofMsg {frame : Frame} (h : frame.Carries msg.frame) :
    HmrRpc.receivedType frame.byte = .ofMsgType msg.msgType := by
  rw [h.receivedType (sizeofMsgType_le_frame msg), receivedType_frame]

/-- And closes if the message does. -/
theorem Frame.Carries.closes {frame : Frame} (h : frame.Carries msg.frame) :
    frame.Closes ↔ msg.Closes := by
  rw [Frame.Closes, h.ofMsg]
  exact or_congr (HmrTaskType.ofMsgType_inj (t := .finish)) (HmrTaskType.ofMsgType_inj (t := .done))

end BeforeClose

/-- What handling a frame leaves: its message is handed over unless it is an MR, a DONE closes,
and only a FINISH is answered. -/
structure Hears (t : HmrRdmaTransport) (frame : Frame) (t' : HmrRdmaTransport) : Prop where
  responses : ∃ bytes : ℕ → UInt8, (∀ i < frame.length, bytes i = frame.byte i) ∧
    t'.responses = if t.processResp ∧ receivedType frame.byte ≠ .mr
      then t.responses ++ [.decode bytes] else t.responses
  disconnects : t'.disconnects = t.disconnects + if receivedType frame.byte = .done then 1 else 0
  status : t'.qp.status = t.qp.status
  answer : closingAnswer t t' ≠ [] → receivedType frame.byte = .finish

/-- A handled frame is heard. -/
theorem recvComplete_hears {t t' : HmrRdmaTransport} {frame : Frame} {o : Outcomes}
    (hmatch : t.RecvsMatch) (hlen : sizeofMsgType ≤ frame.length)
    (hstep : dataStep t (.recvComplete frame .success o) = some t') : Hears t frame t' := by
  obtain ⟨addr, pool, u, hpool, hbody, hrepost⟩ := dataStep_received hmatch hlen hstep
  have hside := hrepost.receiverSide.trans hbody.receiverSide
  obtain ⟨hlist, -⟩ := hrepost.sends
  simp only [HmrRdmaTransport.receiverSide, Prod.mk.injEq] at hside
  obtain ⟨hresponses, -, hdisconnects, hstatus⟩ := hside
  refine ⟨⟨_, fun i hi => hcaWrite_bytes hpool hi, hresponses.trans (respond_responses _ _ _)⟩,
    hdisconnects, hstatus, fun hanswer => ?_⟩
  by_contra hfinish
  have hsame : t'.sendTaskList = t.sendTaskList := hlist.trans (hbody.list hfinish)
  exact hanswer (if_neg (by rw [hsame]; exact lt_irrefl _))

section Hearing

variable {accepted : List HmrMsg} {t u u' : HmrRdmaTransport} {rest : List Frame} {frame : Frame}

/-- A frame that closes is for the application. -/
theorem Frame.Closes.forApp (h : frame.Closes) : frame.forApp := by
  rcases h with h | h <;> simp [Frame.forApp, h]

/-- The frames of requests are as many as their SENDs. -/
theorem length_encodedFrames (wrs : List IbvSendWr) :
    (wrs.filterMap IbvSendWr.encodedFrame).length = wrs.countP fun wr => wr.opcode = .send := by
  rw [List.length_filterMap_eq_countP]
  congr 1
  funext wr
  by_cases hsend : wr.opcode = .send <;> simp [IbvSendWr.encodedFrame, hsend]

/-- The message of a SEND request whose completion the HCA may report has reached the peer. -/
theorem MessageFlow.acknowledged {inbox : List Frame} {responses : List HmrMsg} {i : ℕ}
    {wr : IbvSendWr} (h : MessageFlow accepted t inbox responses) (hwr : t.qp.sq[i]? = some wr)
    (hopcode : wr.opcode = .send) (happ : wr.wrId.frame.forApp)
    (hack : t.qp.encoded.length - inbox.length <
      (t.qp.sq.drop i).countP fun wr => wr.opcode = .send) :
    ∃ msg n, accepted[n]? = some msg ∧ msg.frame = wr.wrId.frame ∧
      n < responses.length + (appFrames inbox).length := by
  obtain ⟨hi, rfl⟩ := List.getElem?_eq_some_iff.mp hwr
  have hlater : (t.qp.sq.drop i).Sublist t.qp.sendLog :=
    (List.drop_sublist i _).trans h.outstanding
  rw [List.drop_eq_getElem_cons hi] at hlater hack
  obtain ⟨logged, later, hlog, hmem, hsublist⟩ := List.cons_sublist_iff.mp hlater
  obtain ⟨before, between, rfl⟩ := List.append_of_mem hmem
  have hframe : t.qp.sq[i].encodedFrame = some t.qp.sq[i].wrId.frame := if_pos hopcode
  have hsplit : t.sentFrames = before.filterMap IbvSendWr.encodedFrame ++
      t.qp.sq[i].wrId.frame :: (between ++ later).filterMap IbvSendWr.encodedFrame := by
    rw [HmrRdmaTransport.sentFrames, hlog, List.append_assoc, List.filterMap_append,
      List.cons_append, List.filterMap_cons_some hframe]
  refine h.reached hsplit happ ?_
  have hle := (hsublist.trans (List.sublist_append_right between later)).countP_le
    (p := fun wr => wr.opcode = .send)
  rw [List.countP_cons_of_pos (by simpa using hopcode)] at hack
  rw [length_encodedFrames]
  omega

/-- One message is handed over, or none for an MR. -/
theorem Hears.progress (h : Hears u frame u') (hresp : frame.forApp → u.processResp) :
    u'.responses.length = u.responses.length + (appFrames [frame]).length := by
  obtain ⟨bytes, -, hresponses⟩ := h.responses
  rw [hresponses, appFrames, List.filter_singleton]
  cases happ : frame.forApp with
  | false =>
    have hmr : receivedType frame.byte = .mr := by simpa [Frame.forApp] using happ
    rw [if_neg fun hand => hand.2 hmr]
    rfl
  | true =>
    have hmr : receivedType frame.byte ≠ .mr := by simpa [Frame.forApp] using happ
    rw [if_pos ⟨hresp happ, hmr⟩, List.length_append]
    rfl

/-- A message that closes and is handed over was accepted. -/
theorem MessageFlow.handed_closes {inbox : List Frame} {responses : List HmrMsg} {msg : HmrMsg}
    (h : MessageFlow accepted t inbox responses) (hmem : msg ∈ responses) (hcloses : msg.Closes) :
    ClosesBy accepted responses.length := by
  obtain ⟨k, hk, rfl⟩ := List.getElem_of_mem hmem
  obtain ⟨hlength, hsame⟩ := List.forall₂_iff_get.mp h.handed
  have hk' : k < (accepted.take responses.length).length := hk.trans_eq hlength.symm
  have hmsgType : responses[k].msgType = (accepted.take responses.length)[k].msgType :=
    (hsame k hk' hk).msgType
  have hget : accepted[k]? = some (accepted.take responses.length)[k] := by
    rw [← List.getElem?_eq_getElem hk', List.getElem?_take_of_lt hk]
  refine (ClosesBy.of_get hget ?_).mono List.prefix_rfl hk.le
  rwa [HmrMsg.Closes, hmsgType] at hcloses

/-- A received close is the next message accepted. -/
theorem MessageFlow.nextClose {responses : List HmrMsg}
    (h : MessageFlow accepted t (frame :: rest) responses) (hcloses : frame.Closes) :
    ∃ msg, accepted[responses.length]? = some msg ∧ frame.Carries msg.frame := by
  refine h.nextApp ?_
  simp [appFrames, hcloses.forApp]

/-- A frame whose message is heard is the peer's next one. -/
theorem MessageFlow.hears (h : MessageFlow accepted t (frame :: rest) u.responses)
    (hresp : frame.forApp → u.processResp) (hears : Hears u frame u') :
    MessageFlow accepted t.wireTaken rest u'.responses := by
  obtain ⟨encoded, wire, hwire, hcarries, hlen⟩ := h.first
  obtain ⟨bytes, hbytes, hresponses⟩ := hears.responses
  have happ : frame.forApp = encoded.forApp := hcarries.forApp hlen
  cases hencoded : encoded.forApp with
  | false =>
    rw [hencoded] at happ
    have hmr : receivedType frame.byte = .mr := by simpa [Frame.forApp] using happ
    rw [if_neg fun hand => hand.2 hmr] at hresponses
    rw [hresponses]
    exact h.takeMr hwire hencoded
  | true =>
    rw [hencoded] at happ
    have hmr : receivedType frame.byte ≠ .mr := by simpa [Frame.forApp] using happ
    rw [if_pos ⟨hresp happ, hmr⟩] at hresponses
    rw [hresponses]
    refine h.takeApp hwire hencoded fun msg hframe => sameMessage_decode fun i hi => ?_
    rw [hframe] at hi ⊢
    rw [hbytes i (hcarries.length ▸ hi), hcarries.byte i hi]

end Hearing

namespace CloseState

variable (g : CloseState) (s : Side)

/-- The side has handled what its peer accepted before the close. -/
def Heard : Prop := ClosesBy (g.accepted s.peer) (g.trans s).responses.length

/-- What the side accepted before the close is handled or in the peer's completion queue. -/
def Out : Prop :=
  ClosesBy (g.accepted s)
    ((g.trans s.peer).responses.length + (appFrames (g.inbox s.peer)).length)

end CloseState

/-- Nothing accepted, handed over or delivered is taken back. -/
structure CloseProgress (g g' : CloseState) : Prop where
  accepted : ∀ s, g.accepted s <+: g'.accepted s
  responses : ∀ s, (g.trans s).responses.length ≤ (g'.trans s).responses.length
  inbox : ∀ s, (g.trans s).responses.length + (appFrames (g.inbox s)).length ≤
    (g'.trans s).responses.length + (appFrames (g'.inbox s)).length

/-- The messages of both sides on their way, and what the close says of them: a side answers a
close it has heard, and calls `rdma_disconnect` when its own is out as well. -/
structure CloseInv (g : CloseState) : Prop where
  recvs : ∀ s, (g.trans s).RecvsMatch
  flow : ∀ s, MessageFlow (g.accepted s) (g.trans s) (g.inbox s.peer) (g.trans s.peer).responses
  answered : ∀ s, (∃ msg ∈ g.accepted s, msg.msgType = .done) → g.Heard s
  called : ∀ s, 0 < (g.trans s).disconnects → g.Heard s ∧ g.Out s
  gone : ∀ s, (g.trans s).qp.status = .gone → g.Heard s

section Close

variable {g g' : CloseState} {s : Side} {o : Outcomes} {t : HmrRdmaTransport}

/-- What a side has heard stays heard. -/
theorem CloseProgress.heard (h : CloseProgress g g') (hheard : g.Heard s) : g'.Heard s :=
  hheard.mono (h.accepted s.peer) (h.responses s)

/-- What is out stays out. -/
theorem CloseProgress.out (h : CloseProgress g g') (hout : g.Out s) : g'.Out s :=
  hout.mono (h.accepted s) (h.inbox s.peer)

/-- A side that has heard its peer's close has it from the peer. -/
theorem CloseState.Heard.out (h : g.Heard s.peer) : g.Out s := by
  rw [CloseState.Heard, Side.peer_peer] at h
  exact h.mono List.prefix_rfl (Nat.le_add_right _ _)

/-- Steps that take nothing back keep the invariant when what is new answers and closes only what
has been heard. -/
theorem CloseInv.advance (h : CloseInv g) (hprogress : CloseProgress g g')
    (hrecvs : ∀ s, (g'.trans s).RecvsMatch)
    (hflow : ∀ s,
      MessageFlow (g'.accepted s) (g'.trans s) (g'.inbox s.peer) (g'.trans s.peer).responses)
    (hanswered : ∀ s, (∃ msg ∈ g'.accepted s, msg.msgType = .done) →
      (∃ msg ∈ g.accepted s, msg.msgType = .done) ∨ g'.Heard s)
    (hcalled : ∀ s, 0 < (g'.trans s).disconnects →
      0 < (g.trans s).disconnects ∨ g'.Heard s ∧ g'.Out s)
    (hgone : ∀ s, (g'.trans s).qp.status = .gone → (g.trans s).qp.status = .gone ∨ g'.Heard s) :
    CloseInv g' where
  recvs := hrecvs
  flow := hflow
  answered s hdone := (hanswered s hdone).elim (fun hold => hprogress.heard (h.answered s hold)) id
  called s hpos := by
    rcases hcalled s hpos with hold | hnew
    · obtain ⟨hheard, hout⟩ := h.called s hold
      exact ⟨hprogress.heard hheard, hprogress.out hout⟩
    · exact hnew
  gone s hgone' := (hgone s hgone').elim (fun hold => hprogress.heard (h.gone s hold)) id

/-- So do those of one side alone that hand nothing over. -/
theorem CloseInv.oneSide (h : CloseInv g) (new : List HmrMsg) (hself : g'.trans s = t)
    (hpeer : g'.trans s.peer = g.trans s.peer) (hinbox : g'.inbox = g.inbox)
    (hnew : g'.accepted = Function.update g.accepted s (g.accepted s ++ new))
    (hresponses : t.responses = (g.trans s).responses) (hrecvs : t.RecvsMatch)
    (hflow : MessageFlow (g.accepted s ++ new) t (g.inbox s.peer) (g.trans s.peer).responses)
    (hanswered : (∃ msg ∈ new, msg.msgType = .done) → g.Heard s)
    (hcalled : 0 < t.disconnects → 0 < (g.trans s).disconnects ∨ g.Heard s ∧ g.Out s)
    (hgone : t.qp.status = .gone → (g.trans s).qp.status = .gone ∨ g.Heard s) : CloseInv g' := by
  have haccepted : g'.accepted s = g.accepted s ++ new := by rw [hnew, Function.update_self]
  have haccepted' : g'.accepted s.peer = g.accepted s.peer := by
    rw [hnew, Function.update_of_ne s.peer_ne]
  have hsame (r : Side) : (g'.trans r).responses = (g.trans r).responses := by
    rcases s.eq_or_peer r with rfl | rfl
    · rw [hself, hresponses]
    · rw [hpeer]
  have hprogress : CloseProgress g g' := by
    refine ⟨fun r => ?_, fun r => (congrArg List.length (hsame r)).ge, fun r => ?_⟩
    · rcases s.eq_or_peer r with rfl | rfl
      · rw [haccepted]
        exact List.prefix_append _ _
      · rw [haccepted']
    · rw [hsame, hinbox]
  refine h.advance hprogress (fun r => ?_) (fun r => ?_) (fun r => ?_) (fun r => ?_) fun r => ?_ <;>
    rcases s.eq_or_peer r with rfl | rfl
  · rw [hself]
    exact hrecvs
  · rw [hpeer]
    exact h.recvs s.peer
  · rw [haccepted, hself, hinbox, hpeer]
    exact hflow
  · rw [haccepted', hpeer, hinbox, hsame]
    exact h.flow s.peer
  · rintro ⟨msg, hmem, hdone⟩
    rw [haccepted] at hmem
    rcases List.mem_append.mp hmem with hold | hadded
    · exact .inl ⟨msg, hold, hdone⟩
    · exact .inr (hprogress.heard (hanswered ⟨msg, hadded, hdone⟩))
  · rw [haccepted']
    exact .inl
  · rw [hself]
    exact fun hpos => (hcalled hpos).imp_right fun hboth =>
      ⟨hprogress.heard hboth.1, hprogress.out hboth.2⟩
  · rw [hpeer]
    exact .inl
  · rw [hself]
    exact fun hstatus => (hgone hstatus).imp_right hprogress.heard
  · rw [hpeer]
    exact .inl

/-- A step of the side's transport that accepts and hands over nothing keeps the invariant when it
closes only what has been heard. -/
theorem CloseInv.setConn {conn : Connection} (h : CloseInv g) (hself : conn.trans s = t)
    (hpeer : conn.trans s.peer = g.trans s.peer)
    (hresponses : t.responses = (g.trans s).responses) (hrecvs : t.RecvsMatch)
    (hflow : MessageFlow (g.accepted s) t (g.inbox s.peer) (g.trans s.peer).responses)
    (hcalled : 0 < t.disconnects → 0 < (g.trans s).disconnects ∨ g.Heard s ∧ g.Out s)
    (hgone : t.qp.status = .gone → (g.trans s).qp.status = .gone ∨ g.Heard s) :
    CloseInv { g with conn := conn } :=
  h.oneSide [] hself hpeer rfl (by simp) hresponses hrecvs
    (by rwa [List.append_nil]) (by simp) hcalled hgone

/-- And when it closes nothing. -/
theorem CloseInv.quiet {conn : Connection} (h : CloseInv g) (hself : conn.trans s = t)
    (hpeer : conn.trans s.peer = g.trans s.peer)
    (hside : t.receiverSide = (g.trans s).receiverSide) (hrecvs : t.RecvsMatch)
    (hflow : MessageFlow (g.accepted s) t (g.inbox s.peer) (g.trans s.peer).responses) :
    CloseInv { g with conn := conn } := by
  simp only [HmrRdmaTransport.receiverSide, Prod.mk.injEq] at hside
  obtain ⟨hresponses, -, hdisconnects, hstatus⟩ := hside
  refine h.setConn hself hpeer hresponses hrecvs hflow (fun hpos => ?_) fun hgone => ?_
  · exact .inl (hdisconnects ▸ hpos)
  · exact .inl (hstatus ▸ hgone)

/-- The state behind a received message. -/
def CloseState.polled (g : CloseState) (s : Side) (rest : List Frame) (t : HmrRdmaTransport) :
    CloseState :=
  ⟨g.conn.handled s t, Function.update g.inbox s rest,
    Function.update g.accepted s (g.accepted s ++ closingAnswer (g.trans s) t)⟩

section Polled

variable (g : CloseState) (s : Side) (rest : List Frame) (t : HmrRdmaTransport)

theorem polled_trans_self : (g.polled s rest t).trans s = t := handled_self g.conn s t

theorem polled_trans_peer : (g.polled s rest t).trans s.peer = (g.trans s.peer).wireTaken :=
  handled_peer g.conn s t

theorem polled_inbox_self : (g.polled s rest t).inbox s = rest := Function.update_self ..

theorem polled_inbox_peer : (g.polled s rest t).inbox s.peer = g.inbox s.peer :=
  Function.update_of_ne s.peer_ne ..

theorem polled_accepted_self : (g.polled s rest t).accepted s =
    g.accepted s ++ closingAnswer (g.trans s) t := Function.update_self ..

theorem polled_accepted_peer : (g.polled s rest t).accepted s.peer = g.accepted s.peer :=
  Function.update_of_ne s.peer_ne ..

end Polled

/-- A received message that is handed over takes nothing back. -/
theorem polled_progress {frame : Frame} {rest : List Frame} (hinbox : g.inbox s = frame :: rest)
    (hcount : t.responses.length = (g.trans s).responses.length + (appFrames [frame]).length) :
    CloseProgress g (g.polled s rest t) := by
  refine ⟨fun r => ?_, fun r => ?_, fun r => ?_⟩ <;> rcases s.eq_or_peer r with rfl | rfl
  · rw [polled_accepted_self]
    exact List.prefix_append _ _
  · rw [polled_accepted_peer]
  · rw [polled_trans_self, hcount]
    exact Nat.le_add_right _ _
  · rw [polled_trans_peer]
    exact le_rfl
  · rw [polled_trans_self, hcount, hinbox, polled_inbox_self, ← List.singleton_append,
      appFrames_append, List.length_append, Nat.add_assoc]
  · rw [polled_trans_peer, polled_inbox_peer]
    exact le_rfl

/-- A received message keeps the invariant, if it is handed over. -/
theorem CloseInv.received {frame : Frame} {rest : List Frame} (h : CloseInv g)
    (hinbox : g.inbox s = frame :: rest) (hresp : frame.forApp → (g.trans s).processResp)
    (hdata : dataStep (g.trans s) (.recvComplete frame .success o) = some t) :
    CloseInv (g.polled s rest t) := by
  have hflow : MessageFlow (g.accepted s.peer) (g.trans s.peer) (frame :: rest)
      (g.trans s).responses := by
    have hflow := h.flow s.peer
    rwa [Side.peer_peer, hinbox] at hflow
  obtain ⟨encoded, -, -, hcarries, hlen⟩ := hflow.first
  have hears := recvComplete_hears (h.recvs s) (hcarries.length ▸ hlen) hdata
  have hprogress := polled_progress hinbox (hears.progress hresp)
  have hheard (hcloses : frame.Closes) : (g.polled s rest t).Heard s := by
    obtain ⟨msg, hmsg, hcarries⟩ := hflow.nextClose hcloses
    exact (ClosesBy.of_get hmsg (hcarries.closes.mp hcloses)).mono (hprogress.accepted s.peer)
      (hprogress.responses s)
  refine h.advance hprogress (fun r => ?_) (fun r => ?_) (fun r => ?_) (fun r => ?_) fun r => ?_ <;>
    rcases s.eq_or_peer r with rfl | rfl
  · rw [polled_trans_self]
    exact dataStep_recvsMatch (h.recvs r) hdata
  · rw [polled_trans_peer]
    exact h.recvs s.peer
  · rw [polled_trans_self, polled_trans_peer, polled_inbox_peer, polled_accepted_self]
    exact (h.flow r).recvComplete hdata
  · rw [Side.peer_peer, polled_trans_self, polled_trans_peer, polled_inbox_self,
      polled_accepted_peer]
    exact hflow.hears hresp hears
  · rintro ⟨msg, hmem, hdone⟩
    rw [polled_accepted_self] at hmem
    rcases List.mem_append.mp hmem with hold | hanswer
    · exact .inl ⟨msg, hold, hdone⟩
    · exact .inr (hheard (.inl (hears.answer (List.ne_nil_of_mem hanswer))))
  · rw [polled_accepted_peer]
    exact .inl
  · rw [polled_trans_self, hears.disconnects]
    split
    · rename_i hdone
      -- the peer's DONE answers what it has heard
      refine fun _ => .inr ⟨hheard (.inr hdone), hprogress.out (CloseState.Heard.out ?_)⟩
      obtain ⟨msg, hmsg, hcarries⟩ := hflow.nextClose (.inr hdone)
      have htype : msg.msgType = .done :=
        HmrTaskType.ofMsgType_inj.mp (hcarries.ofMsg.symm.trans hdone)
      exact h.answered r.peer ⟨msg, List.mem_of_getElem? hmsg, htype⟩
    · exact .inl
  · rw [polled_trans_peer]
    exact .inl
  · rw [polled_trans_self, hears.status]
    exact .inl
  · rw [polled_trans_peer]
    exact .inl

/-- A send completion keeps the invariant. -/
theorem CloseInv.sent {i : ℕ} {status : IbvWcStatus} (h : CloseInv g)
    (hack : status = .success → g.Acknowledged s i)
    (hdata : dataStep (g.trans s) (.sendComplete i status o) = some t) :
    CloseInv { g with conn := g.conn.setTrans s t } := by
  have hflow := (h.flow s).sendComplete hdata
  have hrecvs := dataStep_recvsMatch (h.recvs s) hdata
  obtain ⟨wr, hwr, rfl⟩ := dataStep_sendComplete hdata
  by_cases hstatus : status = .success
  · rw [if_pos hstatus] at hflow hrecvs ⊢
    rcases sendCompleted_receiverSide ((g.trans s).pollSend i) wr.wrId wr.opcode.wcOpcode with
      hside | ⟨hopcode, hdone, hside⟩
    · exact h.quiet (setTrans_self ..) (setTrans_peer ..) hside hrecvs hflow
    · have hsend : wr.opcode = .send := by cases hwrop : wr.opcode <;> simp_all [IbvWrOpcode.wcOpcode]
      have hencoded := (h.flow s).posted wr ((h.flow s).outstanding.subset (List.mem_of_getElem? hwr))
      have htype : receivedType wr.wrId.frame.byte = .done := hencoded.taskType.trans hdone
      -- the answered close is out once its DONE has reached the peer
      have hdrop := hack hstatus
      simp only [CloseState.Acknowledged, hwr, Option.all_some, hsend, ne_eq, not_true_eq_false,
        false_or, decide_eq_true_eq] at hdrop
      obtain ⟨msg, n, hmsg, hframe, hn⟩ :=
        (h.flow s).acknowledged hwr hsend (Frame.Closes.forApp (.inr htype)) hdrop
      have hmsgType : msg.msgType = .done := by
        rw [← hframe, receivedType_frame] at htype
        exact HmrTaskType.ofMsgType_inj.mp htype
      have hheard : g.Heard s := h.answered s ⟨msg, List.mem_of_getElem? hmsg, hmsgType⟩
      have hout : g.Out s := (ClosesBy.of_get hmsg (.inr hmsgType)).mono List.prefix_rfl hn.le
      simp only [HmrRdmaTransport.receiverSide, Prod.mk.injEq] at hside
      exact h.setConn (setTrans_self ..) (setTrans_peer ..) hside.1 hrecvs hflow
        (fun _ => .inr ⟨hheard, hout⟩) fun hgone => .inl (hside.2.2.2 ▸ hgone)
  · rw [if_neg hstatus] at hflow hrecvs ⊢
    exact h.quiet (setTrans_self ..) (setTrans_peer ..) rfl hrecvs hflow

/-- Submitting a message keeps the invariant, if a DONE of the application is not the first. -/
theorem CloseInv.submitted {msg : HmrMsg} {e : Endpoint} (h : CloseInv g)
    (hsubmit : SubmitResult o (g.trans s) msg e.trans)
    (hdone : msg.msgType = .done →
      (∃ msg' ∈ g.accepted s, msg'.msgType = .done) ∨ 0 < (g.trans s).disconnects) :
    CloseInv { g with
      conn := g.conn.setEnd s e
      accepted := Function.update g.accepted s
        (g.accepted s ++ if msg.TwoSided then [msg] else []) } := by
  have hside := hsubmit.receiverSide
  simp only [HmrRdmaTransport.receiverSide, Prod.mk.injEq] at hside
  refine h.oneSide _ (setEnd_self ..) (setEnd_peer ..) rfl rfl hside.1
    (fun wr hwr => h.recvs s wr (hsubmit.rq ▸ hwr)) ((h.flow s).submit hsubmit)
    (fun hclosing => ?_) (fun hpos => .inl (hside.2.2.1 ▸ hpos))
    fun hgone => .inl (hside.2.2.2 ▸ hgone)
  obtain ⟨msg', hmem, htype⟩ := hclosing
  have hmsg : msg' = msg := by
    split at hmem <;> simp_all
  subst hmsg
  exact (hdone htype).elim (h.answered s) fun hpos => (h.called s hpos).1

/-- The events of the connection that poll and submit nothing keep the invariant, if a failed post
accepts no SEND. -/
theorem CloseInv.other {e : ConnectionEvent} {conn : Connection} (h : CloseInv g) (he : e.Unpolled)
    (htick : ∀ s k, e = .tick s (some k) →
      ∀ wr ∈ (sendChain (g.trans s).peerInfo (g.trans s).sendTaskList).take k, wr.opcode ≠ .send)
    (hresult : ConnectionResult g.conn e conn) : CloseInv { g with conn := conn } := by
  cases hresult with
  | established s o t _ hhandler =>
    obtain ⟨-, -, hrq, -⟩ := onCmEstablished_frame hhandler
    have hconnected : MessageFlow (g.accepted s) { g.trans s with transState := .connected }
        (g.inbox s.peer) (g.trans s.peer).responses :=
      (h.flow s).of_same ⟨rfl, rfl, rfl⟩ (.refl _)
    have hrecvs : t.RecvsMatch := fun wr hwr => h.recvs s wr (hrq ▸ hwr)
    rcases onCmEstablished_cases hhandler with ⟨-, rfl⟩ | ⟨-, pool, r, -, hsend⟩
    · exact h.quiet (setEnd_self ..) (setEnd_peer ..) rfl hrecvs hconnected
    · exact h.quiet (setEnd_self ..) (setEnd_peer ..) hsend.receiverSide hrecvs
        (hconnected.sendMr hsend)
  | tick s a t hdata =>
    have hresult := dataStep_tick hdata
    have hside : t.receiverSide = (g.trans s).receiverSide := by cases hresult <;> rfl
    refine h.quiet (setTrans_self ..) (setTrans_peer ..) hside
      (dataStep_recvsMatch (h.recvs s) hdata) ((h.flow s).tick hresult ?_)
    rintro k rfl
    exact htick s k rfl
  | check s msg => exact h.quiet (setEnd_self ..) (setEnd_peer ..) rfl (h.recvs s) (h.flow s)
  | accept => exact h.quiet (s := .server) rfl rfl rfl (h.recvs .server) (h.flow .server)
  | acceptConnecting =>
    exact h.quiet (s := .server) rfl rfl rfl (h.recvs .server)
      ((h.flow .server).of_same ⟨rfl, rfl, rfl⟩ (.refl _))
  | acceptMempool =>
    exact h.quiet (s := .server) rfl rfl rfl (h.recvs .server)
      ((h.flow .server).of_same ⟨rfl, rfl, rfl⟩ (.refl _))
  | acceptPost o left t _ hpost =>
    obtain ⟨hlist, hsq, hwire, hlog⟩ := hpost.sends
    have hflow : MessageFlow (g.accepted .server) t (g.inbox .client) (g.trans .client).responses :=
      (h.flow .server).of_same ⟨hlist, hwire, hlog⟩ (by rw [hsq]; exact .refl _)
    exact h.quiet (s := .server) rfl rfl hpost.receiverSide (hpost.recvsMatch (h.recvs .server)) hflow
  | _ => exact he.elim

/-- The frames of the SEND requests are those sent. -/
theorem sends_frames (t : HmrRdmaTransport) :
    t.sends.map (fun wr => wr.wrId.frame) = t.sentFrames := by
  rw [HmrRdmaTransport.sends, HmrRdmaTransport.sentFrames, ← List.filterMap_eq_map,
    List.filterMap_filter]
  congr 1
  funext wr
  by_cases hsend : wr.opcode = .send <;> simp [IbvSendWr.encodedFrame, hsend]

/-- The frame of the next request is the next on the wire. -/
theorem MessageFlow.nextSend {wr : IbvSendWr}
    (h : MessageFlow (g.accepted s) (g.trans s) (g.inbox s.peer) (g.trans s.peer).responses)
    (hnext : g.nextSend s = some wr) :
    (g.trans s).qp.encoded[(g.inbox s.peer).length]? = some wr.wrId.frame := by
  obtain ⟨hpos, hwr⟩ := Option.ite_none_right_eq_some.mp hnext
  obtain ⟨taken, hsent, -⟩ := h.encoded
  have hlength := congrArg List.length (sends_frames (g.trans s))
  rw [hsent, List.length_map, List.length_append] at hlength
  have hle := h.inbox_le
  have hget : (g.trans s).sentFrames[(g.trans s).sends.length - g.undelivered s]? =
      some wr.wrId.frame := by
    rw [← sends_frames, List.getElem?_map, hwr]
    rfl
  have hindex : (g.trans s).sends.length - g.undelivered s =
      taken.length + (g.inbox s.peer).length := by
    rw [hlength, CloseState.undelivered]
    omega
  rwa [hindex, hsent, List.getElem?_append_right (Nat.le_add_right _ _),
    Nat.add_sub_cancel_left] at hget

/-- A frame that reaches a completion queue keeps the invariant, if it carries the message. -/
theorem CloseInv.delivered {wr : IbvSendWr} {frame : Frame} (h : CloseInv g)
    (hnext : g.nextSend s.peer = some wr) (hcarries : frame.Carries wr.wrId.frame) :
    CloseInv { g with inbox := Function.update g.inbox s (g.inbox s ++ [frame]) } := by
  have hflow := (h.flow s.peer).deliver ((h.flow s.peer).nextSend hnext) hcarries
  rw [Side.peer_peer] at hflow
  refine h.advance ⟨fun r => List.prefix_rfl, fun r => le_rfl, fun r => ?_⟩ h.recvs (fun r => ?_)
    (fun r => .inl) (fun r => .inl) fun r => .inl
  · rcases s.eq_or_peer r with rfl | rfl
    · simp [CloseState.trans]
    · simp [CloseState.trans]
  · rcases s.eq_or_peer r with rfl | rfl
    · simpa [CloseState.trans] using h.flow r
    · simpa [CloseState.trans] using hflow

/-- Handling DISCONNECTED keeps the invariant, if no message before the close is left in the
completion queue. -/
theorem CloseInv.disconnected (h : CloseInv g)
    (hcalled : 0 < (g.trans s).disconnects + (g.trans s.peer).disconnects)
    (hclean : (∃ msg ∈ (g.trans s).responses, msg.Closes) ∨
      ∀ frame, (appFrames (g.inbox s)).head? = some frame → frame.Closes)
    (hhandler : onCmDisconnected (g.trans s) = .ok t) :
    CloseInv { g with conn := g.conn.setTrans s t } := by
  have hflow := h.flow s.peer
  rw [Side.peer_peer] at hflow
  have hout : ClosesBy (g.accepted s.peer)
      ((g.trans s).responses.length + (appFrames (g.inbox s)).length) := by
    rcases Nat.add_pos_iff_pos_or_pos.mp hcalled with hpos | hpos
    · exact (h.called s hpos).1.mono List.prefix_rfl (Nat.le_add_right _ _)
    · have hpeer := (h.called s.peer hpos).2
      rwa [CloseState.Out, Side.peer_peer] at hpeer
  have hheard : g.Heard s := by
    rcases hclean with ⟨msg, hmem, hcloses⟩ | hnext
    · exact hflow.handed_closes hmem hcloses
    · cases hhead : (appFrames (g.inbox s)).head? with
      | none =>
        rw [List.head?_eq_none_iff.mp hhead] at hout
        exact hout
      | some frame =>
        obtain ⟨msg, hmsg, hcarries⟩ := hflow.nextApp hhead
        exact .of_get hmsg (hcarries.closes.mp (hnext frame hhead))
  obtain rfl := onCmDisconnected_eq hhandler
  exact h.setConn (setTrans_self ..) (setTrans_peer ..) rfl (h.recvs s)
    ((h.flow s).of_same ⟨rfl, rfl, rfl⟩ (.refl _)) .inl fun _ => .inr hheard

/-- Every event that meets the condition keeps the invariant. -/
theorem CloseInv.step {e : CloseEvent} (h : CloseInv g) (hclean : ClosesCleanly g e)
    (hstep : closeStep g e = some g') : CloseInv g' := by
  cases closeStep_cases hstep with
  | received s o frame rest t hinbox hdata =>
    exact h.received hinbox (hclean.1 frame (by rw [hinbox]; rfl)) hdata
  | recvFailed s status o t hstatus hdata =>
    have hflow := (h.flow s).recvComplete hdata
    have hrecvs := dataStep_recvsMatch (h.recvs s) hdata
    cases dataStep_recvComplete hdata with
    | flushed =>
      exact h.quiet (setTrans_self ..) (setTrans_peer ..) rfl hrecvs
        ((h.flow s).of_same ⟨rfl, rfl, rfl⟩ (.refl _))
    | received => exact absurd rfl hstatus
  | sent s i status o t hack hdata => exact h.sent hack hdata
  | submitted s i o msg t hmsg hsubmit => exact h.submitted hsubmit (hclean.2.1 msg hmsg)
  | other e conn he hresult =>
    refine h.other he ?_ hresult
    rintro s k rfl
    exact hclean.1
  | delivered s wr frame hnext hread => exact h.delivered hnext (hclean.2.1 wr frame hnext hread)
  | disconnected s t hcalled hhandler => exact h.disconnected hcalled hclean.2.2 hhandler
  | respSet s =>
    exact h.setConn (setTrans_self ..) (setTrans_peer ..) rfl (h.recvs s)
      ((h.flow s).of_same ⟨rfl, rfl, rfl⟩ (.refl _)) .inl .inl

/-- Two parties that start have it. -/
theorem CloseState.Starts.inv (h : g.Starts) : CloseInv g where
  recvs s := (h.conn.unused s).recvs
  flow s := by
    have hunused : (g.trans s).Unused := h.conn.unused s
    have hsent : (g.trans s).sentFrames = [] := by
      rw [HmrRdmaTransport.sentFrames, hunused.log, List.filterMap_nil]
    rw [h.accepted s, h.inbox s.peer, h.responses s.peer]
    refine ⟨?_, ?_, ?_, ⟨[], ?_, rfl⟩, .nil, .nil, ?_⟩
    · simp [hunused.log]
    · simp [hunused.list]
    · rw [hsent, HmrRdmaTransport.queuedFrames, hunused.list]
      rfl
    · rw [hsent, hunused.encoded]
      rfl
    · rw [hunused.sq]
      exact List.nil_sublist _
  answered s := by simp [h.accepted s]
  called s hpos := by simp [h.disconnects s] at hpos
  gone s hgone := absurd hgone (h.live s)

end Close

/-- The sample parties. -/
def sampleClose : CloseState := ⟨sampleConnection, fun _ => [], fun _ => []⟩

/-- They can start. -/
theorem sampleClose_starts : sampleClose.Starts := by
  refine ⟨sampleConnection_starts, fun s => ?_, fun s => ?_, fun s => ?_, fun _ => rfl, fun _ => rfl⟩
  · cases s <;> decide
  · cases s <;> rfl
  · cases s <;> rfl

/-- The parties connect, the client accepts a message, and the server's FINISH closes: the client
answers with a DONE behind its message, both of which reach the server's completion queue, and
calls `rdma_disconnect`. -/
def closedByServer : List CloseEvent :=
  [.setProcessResp .client, .setProcessResp .server, .conn .accept, .conn .acceptConnecting,
    .conn (.acceptMempool sampleMempoolOutcomes), .conn (.acceptPost .ok), .conn (.acceptPost .ok),
    .conn (.established .server .ok), .conn (.established .client .ok), .deliver .server,
    .conn (.sendComplete .client 0 .success .ok), .conn (.recvComplete .server .ok),
    .deliver .client, .conn (.recvComplete .client .ok),
    .conn (.sendComplete .server 0 .success .ok), .conn (.check .client (sampleMsg .normal 8)),
    .conn (.submit .client 0 .ok), .conn (.check .server (sampleMsg .finish 8)),
    .conn (.submit .server 0 .ok), .conn (.tick .server none), .deliver .client,
    .conn (.recvComplete .client .ok), .conn (.tick .client none), .deliver .server,
    .deliver .server, .conn (.sendComplete .client 0 .success .ok),
    .conn (.sendComplete .client 0 .success .ok)]

/-- The server polls its completion queue before it handles DISCONNECTED. -/
def polledFirst : List CloseEvent :=
  closedByServer ++ [.conn (.recvComplete .server .ok), .disconnected .server]

end HmrRpc
