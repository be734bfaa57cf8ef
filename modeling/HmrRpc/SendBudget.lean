import HmrRpc.MrOnce
import HmrRpc.OrderlyClose

/-!
# What a side may still encode

Beside the messages of the application a side encodes MRs and answers to FINISH. Both are bounded:
a client announces its MR with its ESTABLISHED event, either side announces it when it receives one
in CONNECTED, a state it then leaves for good, and each answer is paid for by a FINISH of the peer.
So the bytes of the send region that a side may still need go down by what it encodes.
-/

namespace HmrRpc

open Common

/-- The MRs a transport may still announce, given its ESTABLISHED event. -/
def HmrRdmaTransport.mrsLeft (t : HmrRdmaTransport) (established : CmEventStatus) : ℕ :=
  (if established = .handled then 0 else if t.isClient then 2 else 1) +
    if t.transState = .connected then 1 else 0

/-- The bytes an MR message takes in the send region. -/
def mrLength : ℕ := sizeofMsgType + sizeofInt + sizeofIbvMr

namespace CloseState

variable (g : CloseState) (s : Side)

/-- The MRs a side may still announce. -/
def mrsLeft : ℕ := (g.trans s).mrsLeft (g.conn.ends s).established

/-- Those, the ones under way and the ones its peer has handled. -/
def mrTotal : ℕ := mrCount (g.trans s).qp.encoded + (g.trans s.peer).mrsReceived + g.mrsLeft s

/-- The bytes of the send region a side may still need for MRs, for its answers if its peer sends so
many FINISH, and for the messages past their check. -/
def reserve (finishes : ℕ) : ℕ :=
  mrLength * g.mrsLeft s +
    closingMsg.encodedLength * (finishes - countOf .finish (g.trans s).responses) +
      ((g.conn.ends s).checked.map HmrMsg.encodedLength).sum

/-- The bytes a side encodes in an event. -/
def spends (e : CloseEvent) : ℕ :=
  match g.encodes e with
  | some (r, msg) => if r = s then msg.encodedLength else 0
  | none => 0

end CloseState

/-- A side that encodes nothing: it keeps its ESTABLISHED event, its role and the checked messages,
does not enter CONNECTED, and takes back no message handed over. -/
structure SideQuiet (g g' : CloseState) (s : Side) : Prop where
  established : (g'.conn.ends s).established = (g.conn.ends s).established
  checked : (g'.conn.ends s).checked = (g.conn.ends s).checked
  role : (g'.trans s).isClient = (g.trans s).isClient
  state : (g'.trans s).transState = .connected → (g.trans s).transState = .connected
  responses : (g.trans s).responses <+: (g'.trans s).responses

section Quiet

variable {g g' : CloseState} {s : Side} {e : CloseEvent} {msg : HmrMsg} {t : HmrRdmaTransport}
  {finishes : ℕ}

/-- An encoded message is spent by its side. -/
theorem spends_of_some (h : g.encodes e = some (s, msg)) : g.spends s e = msg.encodedLength := by
  rw [CloseState.spends, h]
  exact if_pos rfl

/-- A side that keeps its place announces no more MRs than before. -/
theorem mrsLeft_le {t t' : HmrRdmaTransport} {established : CmEventStatus}
    (hrole : t'.isClient = t.isClient)
    (hstate : t'.transState = .connected → t.transState = .connected) :
    t'.mrsLeft established ≤ t.mrsLeft established := by
  rw [HmrRdmaTransport.mrsLeft, HmrRdmaTransport.mrsLeft, hrole]
  by_cases hconnected : t'.transState = .connected
  · rw [if_pos hconnected, if_pos (hstate hconnected)]
  · rw [if_neg hconnected]
    exact Nat.add_le_add_left (Nat.zero_le _) _

/-- A quiet side may announce no more MRs than before. -/
theorem SideQuiet.mrsLeft (h : SideQuiet g g' s) : g'.mrsLeft s ≤ g.mrsLeft s := by
  rw [CloseState.mrsLeft, h.established]
  exact mrsLeft_le h.role h.state

/-- More messages handed over leave fewer answers. -/
theorem countOf_mono {msgType : HmrMsgType} {msgs msgs' : List HmrMsg} (h : msgs <+: msgs') :
    countOf msgType msgs ≤ countOf msgType msgs' := h.sublist.countP_le

/-- And it needs no more than before. -/
theorem SideQuiet.reserve (h : SideQuiet g g' s) : g'.reserve s finishes ≤ g.reserve s finishes := by
  rw [CloseState.reserve, CloseState.reserve, h.checked]
  gcongr
  · exact h.mrsLeft
  · exact countOf_mono h.responses

/-- A side that nothing happens to. -/
theorem SideQuiet.of_ends (h : g'.conn.ends s = g.conn.ends s) : SideQuiet g g' s := by
  have htrans : g'.trans s = g.trans s := congrArg Endpoint.trans h
  exact ⟨by rw [h], by rw [h], by rw [htrans], by rw [htrans]; exact id, by rw [htrans]⟩

/-- The side of an event that changes only its transport. -/
theorem SideQuiet.setTrans (hrole : t.isClient = (g.trans s).isClient)
    (hstate : t.transState = .connected → (g.trans s).transState = .connected)
    (hresponses : (g.trans s).responses <+: t.responses) {inbox : Side → List Frame}
    {accepted : Side → List HmrMsg} :
    SideQuiet g ⟨g.conn.setTrans s t, inbox, accepted⟩ s := by
  have hends : (g.conn.setTrans s t).ends s = { g.conn.ends s with trans := t } :=
    Function.update_self ..
  have htrans : (CloseState.mk (g.conn.setTrans s t) inbox accepted).trans s = t :=
    setTrans_self ..
  exact ⟨by rw [hends], by rw [hends], by rw [htrans]; exact hrole, by rw [htrans]; exact hstate,
    by rw [htrans]; exact hresponses⟩

/-- A side that an event encodes nothing on spends nothing. -/
theorem spends_eq_zero (h : ∀ msg, g.encodes e ≠ some (s, msg)) : g.spends s e = 0 := by
  rw [CloseState.spends]
  cases hencodes : g.encodes e with
  | none => rfl
  | some p => exact if_neg fun hside => h p.2 (by rw [hencodes, ← hside])

/-- A quiet side that encodes nothing keeps its reserve. -/
theorem SideQuiet.spends (h : SideQuiet g g' s) (hnone : ∀ msg, g.encodes e ≠ some (s, msg)) :
    g'.reserve s finishes + g.spends s e ≤ g.reserve s finishes := by
  rw [spends_eq_zero hnone, Nat.add_zero]
  exact h.reserve

end Quiet

section Received

variable {g : CloseState} {s : Side} {o : Outcomes} {frame : Frame} {rest : List Frame}
  {t : HmrRdmaTransport} {finishes : ℕ}

/-- A received message leaves the ESTABLISHED event. -/
theorem polled_established :
    ((g.polled s rest t).conn.ends s).established = (g.conn.ends s).established := by
  cases s <;> rfl

/-- And the checked messages. -/
theorem polled_checked : ((g.polled s rest t).conn.ends s).checked = (g.conn.ends s).checked := by
  cases s <;> rfl

/-- The side whose frame was taken is quiet. -/
theorem polled_quiet : SideQuiet g (g.polled s rest t) s.peer := by
  have hends : (g.polled s rest t).conn.ends s.peer =
      { g.conn.ends s.peer with trans := (g.trans s.peer).wireTaken } := by
    cases s <;> rfl
  exact ⟨by rw [hends], by rw [hends], by rw [polled_trans_peer]; rfl,
    by rw [polled_trans_peer]; exact id, by rw [polled_trans_peer]; exact List.prefix_rfl⟩

/-- What a received frame leaves of the state and the role. -/
theorem recvComplete_state (hmatch : (g.trans s).RecvsMatch) (hlen : sizeofMsgType ≤ frame.length)
    (hdata : dataStep (g.trans s) (.recvComplete frame .success o) = some t) :
    t.isClient = (g.trans s).isClient ∧
      t.transState = if receivedType frame.byte = .mr then .rconnected else (g.trans s).transState := by
  obtain ⟨addr, pool, u, -, hbody, hrepost⟩ := dataStep_received hmatch hlen hdata
  exact ⟨dataStep_isClient hdata, hrepost.transState.trans hbody.transState⟩

/-- The next message, if it is a FINISH, is one that has been accepted and not handed over. -/
theorem MessageFlow.nextFinish {accepted responses : List HmrMsg} {u : HmrRdmaTransport}
    (h : MessageFlow accepted u (frame :: rest) responses)
    (htype : receivedType frame.byte = .finish) :
    countOf .finish responses + 1 ≤ countOf .finish accepted := by
  obtain ⟨msg, hmsg, hcarries⟩ := h.nextClose (.inl htype)
  have hfinish : msg.msgType = .finish := by
    have hframe := hcarries.ofMsg
    rw [htype] at hframe
    exact HmrTaskType.ofMsgType_inj (t := .finish) |>.mp hframe.symm
  have hhanded : countOf .finish responses ≤ countOf .finish (accepted.take responses.length) := by
    refine countOf_handed ?_
    rw [List.take_take, min_self]
    exact h.handed
  have htake : accepted.take (responses.length + 1) = accepted.take responses.length ++ [msg] := by
    rw [List.take_add_one, hmsg]
    rfl
  calc countOf .finish responses + 1
      ≤ countOf .finish (accepted.take responses.length) + countOf .finish [msg] := by
        rw [countOf, countOf, countOf, List.countP_singleton, hfinish]
        exact Nat.add_le_add_right hhanded 1
    _ = countOf .finish (accepted.take (responses.length + 1)) := by rw [htake, countOf_append]
    _ ≤ countOf .finish accepted := countOf_mono (List.take_prefix _ _)

/-- A received frame makes its side encode the answer. -/
theorem spends_received (hinbox : g.inbox s = frame :: rest) :
    g.spends s (.conn (.recvComplete s o)) =
      (((g.trans s).answerTo (receivedType frame.byte)).map HmrMsg.encodedLength).getD 0 := by
  cases hanswer : (g.trans s).answerTo (receivedType frame.byte) with
  | none =>
    refine spends_eq_zero fun msg hencodes => ?_
    rw [CloseState.encodes, hinbox, List.head?_cons, Option.bind_some, hanswer] at hencodes
    contradiction
  | some msg => exact spends_of_some (encodes_received hinbox hanswer)

/-- A raised ESTABLISHED event announces what it did before. -/
theorem mrsLeft_pending {u : HmrRdmaTransport} {established : CmEventStatus}
    (hraised : established ≠ .handled) : u.mrsLeft .pending = u.mrsLeft established := by
  rw [HmrRdmaTransport.mrsLeft, HmrRdmaTransport.mrsLeft, if_neg hraised]
  rfl

/-- An MR leaves CONNECTED. -/
theorem mrsLeft_of_mr {u : HmrRdmaTransport} {established : CmEventStatus}
    (hrole : t.isClient = u.isClient) (hstate : t.transState = .rconnected) :
    t.mrsLeft established + (if u.transState = .connected then 1 else 0) = u.mrsLeft established := by
  have hleft : t.transState ≠ .connected := by
    rw [hstate]
    decide
  rw [HmrRdmaTransport.mrsLeft, HmrRdmaTransport.mrsLeft, hrole, if_neg hleft, Nat.add_zero]

/-- An answered MR takes what it needs out of the reserve. -/
theorem answerTo_mr (u : HmrRdmaTransport) :
    ((u.answerTo .mr).map HmrMsg.encodedLength).getD 0 ≤
      mrLength * (if u.transState = .connected then 1 else 0) := by
  rw [HmrRdmaTransport.answerTo]
  split
  · cases u.ownMr with
    | none => exact Nat.zero_le _
    | some mr => exact le_rfl
  · exact le_rfl

/-- So does an answered frame of any type. -/
theorem received_reserve (hinbox : g.inbox s = frame :: rest) (hmatch : (g.trans s).RecvsMatch)
    (hlen : sizeofMsgType ≤ frame.length) (hresp : frame.forApp → (g.trans s).processResp)
    (hnext : receivedType frame.byte = .finish →
      countOf .finish (g.trans s).responses + 1 ≤ finishes)
    (hdata : dataStep (g.trans s) (.recvComplete frame .success o) = some t) :
    (g.polled s rest t).reserve s finishes + g.spends s (.conn (.recvComplete s o)) ≤
      g.reserve s finishes := by
  obtain ⟨hrole, hstate⟩ := recvComplete_state hmatch hlen hdata
  obtain ⟨heard, hheard, hcount⟩ := (recvComplete_hears hmatch hlen hdata).heard hlen hresp
  have hmore : countOf .finish (g.trans s).responses ≤ countOf .finish t.responses := by
    rw [hheard]
    exact countOf_mono (List.prefix_append _ _)
  rw [spends_received hinbox, CloseState.reserve, CloseState.mrsLeft, polled_established,
    polled_checked, polled_trans_self, CloseState.reserve, CloseState.mrsLeft]
  by_cases hmr : receivedType frame.byte = .mr
  · rw [if_pos hmr] at hstate
    have hspent := answerTo_mr (g.trans s)
    rw [hmr, ← mrsLeft_of_mr hrole hstate, Nat.mul_add]
    have hclosing := Nat.mul_le_mul_left closingMsg.encodedLength
      (Nat.sub_le_sub_left hmore finishes)
    omega
  · rw [if_neg hmr] at hstate
    have hmrs : t.mrsLeft (g.conn.ends s).established ≤
        (g.trans s).mrsLeft (g.conn.ends s).established :=
      mrsLeft_le hrole (by rw [hstate]; exact id)
    have hmrs := Nat.mul_le_mul_left mrLength hmrs
    by_cases hfinish : receivedType frame.byte = .finish
    · have hone := hcount .finish hfinish (by decide)
      have hpaid := hnext hfinish
      have hleft : finishes - countOf .finish (g.trans s).responses =
          finishes - countOf .finish t.responses + 1 := by
        rw [hheard, countOf_append, hone]
        omega
      have hanswer : (g.trans s).answerTo (receivedType frame.byte) = some closingMsg := by
        rw [hfinish]
        rfl
      rw [hanswer, Option.map_some, Option.getD_some, hleft, Nat.mul_add_one]
      omega
    · have hnone : (g.trans s).answerTo (receivedType frame.byte) = none := by
        cases htype : receivedType frame.byte <;>
          first | rfl | exact absurd htype hmr | exact absurd htype hfinish
      have hclosing := Nat.mul_le_mul_left closingMsg.encodedLength
        (Nat.sub_le_sub_left hmore finishes)
      rw [hnone, Option.map_none, Option.getD_none]
      omega

end Received

section Step

variable {g g' : CloseState} {s : Side} {o : Outcomes} {t : HmrRdmaTransport} {finishes : ℕ}

/-- While the accepting thread waits no ESTABLISHED event has been raised. -/
def CloseState.Unraised (g : CloseState) : Prop :=
  g.conn.accept = .waiting → ∀ s, (g.conn.ends s).established = .absent

/-- What an event of one side encodes is not the other's. -/
theorem map_side_ne {A : Type*} {r : Side} (hne : r ≠ s) (encoded : Option A) (f : A → HmrMsg)
    (msg : HmrMsg) : encoded.map (fun a => (r, f a)) ≠ some (s, msg) := by
  intro h
  obtain ⟨m, -, hm⟩ := Option.map_eq_some_iff.mp h
  exact hne (congrArg Prod.fst hm)

/-- An event that encodes nothing and leaves a transport in its place leaves both sides quiet. -/
theorem setTrans_spends {r : Side} {e : CloseEvent} (hnone : g.encodes e = none)
    (hrole : t.isClient = (g.trans r).isClient)
    (hstate : t.transState = .connected → (g.trans r).transState = .connected)
    (hresponses : t.responses = (g.trans r).responses) :
    CloseState.reserve { g with conn := g.conn.setTrans r t } s finishes + g.spends s e ≤
      g.reserve s finishes := by
  have hencodes (msg : HmrMsg) : g.encodes e ≠ some (s, msg) := by simp [hnone]
  rcases r.eq_or_peer s with rfl | rfl
  · exact (SideQuiet.setTrans hrole hstate (by rw [hresponses])).spends hencodes
  · exact (SideQuiet.of_ends (Function.update_of_ne r.peer_ne ..)).spends hencodes

/-- The reserve of a side with a new endpoint. -/
theorem reserve_setEnd (e : Endpoint) (accepted : Side → List HmrMsg) :
    CloseState.reserve { g with conn := g.conn.setEnd s e, accepted := accepted } s finishes =
      mrLength * e.trans.mrsLeft e.established +
        closingMsg.encodedLength * (finishes - countOf .finish e.trans.responses) +
          (e.checked.map HmrMsg.encodedLength).sum := by
  have htrans : (CloseState.mk (g.conn.setEnd s e) g.inbox accepted).trans s = e.trans :=
    setEnd_self ..
  rw [CloseState.reserve, CloseState.mrsLeft, htrans, setEnd_ends_self]

/-- A checked message enters the reserve of its side. -/
theorem reserve_checked {r : Side} (msg : HmrMsg) :
    CloseState.reserve { g with
        conn := g.conn.setEnd r { g.conn.ends r with
          checked := (g.conn.ends r).checked ++ [msg] } } s finishes =
      g.reserve s finishes + if r = s then msg.encodedLength else 0 := by
  by_cases hside : r = s
  · subst hside
    have hreserve : CloseState.reserve { g with
        conn := g.conn.setEnd r { g.conn.ends r with
          checked := (g.conn.ends r).checked ++ [msg] }
        accepted := g.accepted } r finishes = _ := reserve_setEnd _ _
    rw [List.map_append, List.sum_append, ← Nat.add_assoc] at hreserve
    rw [if_pos rfl]
    exact hreserve
  · obtain rfl : s = r.peer := (r.eq_or_peer s).resolve_left fun heq => hside heq.symm
    rw [if_neg hside, CloseState.reserve, CloseState.mrsLeft]
    have htrans (e : Endpoint) :
        (CloseState.mk (g.conn.setEnd r e) g.inbox g.accepted).trans r.peer = g.trans r.peer :=
      setEnd_peer ..
    rw [htrans, setEnd_ends_peer]
    rfl

/-- A handled ESTABLISHED event takes the MR it announces out of the reserve. -/
theorem established_reserve (hpending : (g.conn.ends s).established = .pending)
    (hhandler : onCmEstablished o (g.trans s) = .ok t) :
    CloseState.reserve { g with
        conn := g.conn.setEnd s { g.conn.ends s with trans := t, established := .handled } } s
        finishes + g.spends s (.conn (.established s o)) ≤ g.reserve s finishes := by
  have hraised : (g.conn.ends s).established ≠ .handled := by simp [hpending]
  have hafter (u : HmrRdmaTransport) : u.mrsLeft .handled ≤ 1 := by
    rw [HmrRdmaTransport.mrsLeft, if_pos rfl]
    split <;> simp
  rw [reserve_setEnd, CloseState.reserve, CloseState.mrsLeft]
  rcases onCmEstablished_cases hhandler with ⟨hserver, rfl⟩ | ⟨hclient, pool, r, hpool, hsend⟩
  · have hnone : g.spends s (.conn (.established s o)) = 0 := by
      refine spends_eq_zero fun msg => ?_
      rw [CloseState.encodes, hserver]
      simp
    have hbefore : 1 ≤ (g.trans s).mrsLeft (g.conn.ends s).established := by
      rw [HmrRdmaTransport.mrsLeft, if_neg hraised, hserver]
      exact Nat.le_add_right _ _
    rw [hnone, Nat.add_zero]
    gcongr
    exact (hafter _).trans hbefore
  · have hmr : (g.trans s).ownMr = some pool.rdmaMr := congrArg (Option.map HmrMempool.rdmaMr) hpool
    have hspends : g.spends s (.conn (.established s o)) = mrLength :=
      spends_of_some (encodes_established hclient hmr)
    have hbefore : 2 ≤ (g.trans s).mrsLeft (g.conn.ends s).established := by
      rw [HmrRdmaTransport.mrsLeft, if_neg hraised, hclient]
      exact Nat.le_add_right _ _
    have hresponses : t.responses = (g.trans s).responses := congrArg Prod.fst hsend.receiverSide
    have hmrs := Nat.mul_le_mul_left mrLength (hafter t)
    have hleft := Nat.mul_le_mul_left mrLength hbefore
    rw [hspends, hresponses]
    change mrLength * t.mrsLeft .handled + _ + ((g.conn.ends s).checked.map _).sum + _ ≤ _
    omega

/-- A submitted message has been in the reserve. -/
theorem submitted_reserve {i : ℕ} {msg : HmrMsg} (hmsg : (g.conn.ends s).checked[i]? = some msg)
    (hsubmit : SubmitResult o (g.trans s) msg t) (accepted : Side → List HmrMsg) :
    CloseState.reserve { g with
        conn := g.conn.setEnd s { g.conn.ends s with
          trans := t, checked := (g.conn.ends s).checked.eraseIdx i }
        accepted := accepted } s finishes + g.spends s (.conn (.submit s i o)) ≤
      g.reserve s finishes := by
  have hspends : g.spends s (.conn (.submit s i o)) = msg.encodedLength :=
    spends_of_some (by rw [CloseState.encodes, hmsg, Option.map_some])
  obtain ⟨hi, rfl⟩ := List.getElem?_eq_some_iff.mp hmsg
  have hsum := ((List.getElem_cons_eraseIdx_perm hi).map HmrMsg.encodedLength).sum_eq
  have hresponses : t.responses = (g.trans s).responses := congrArg Prod.fst hsubmit.receiverSide
  have hmrs : t.mrsLeft (g.conn.ends s).established ≤ g.mrsLeft s :=
    mrsLeft_le hsubmit.isClient (by rw [hsubmit.transState]; exact id)
  have hmrs := Nat.mul_le_mul_left mrLength hmrs
  rw [reserve_setEnd, hspends, CloseState.reserve, ← hsum, List.map_cons, List.sum_cons, hresponses]
  change mrLength * t.mrsLeft (g.conn.ends s).established + _ +
    (((g.conn.ends s).checked.eraseIdx i).map _).sum + _ ≤ _
  omega

/-- The events that poll, submit and check nothing take what they encode out of the reserve. -/
theorem other_reserve {e : ConnectionEvent} {conn : Connection} (hunraised : g.Unraised)
    (he : e.Unpolled) (hcheck : ∀ r msg, e ≠ .check r msg)
    (hresult : ConnectionResult g.conn e conn) :
    CloseState.reserve { g with conn := conn } s finishes + g.spends s (.conn e) ≤
      g.reserve s finishes := by
  cases hresult with
  | established r o t hpending hhandler =>
    rcases r.eq_or_peer s with rfl | rfl
    · exact established_reserve hpending hhandler
    · refine SideQuiet.spends (.of_ends (setEnd_ends_peer ..)) fun msg => ?_
      rw [CloseState.encodes]
      split
      · exact map_side_ne r.peer_ne.symm _ _ msg
      · simp
  | tick r a t hdata =>
    have hside : t.transState = (g.trans r).transState ∧ t.responses = (g.trans r).responses := by
      cases dataStep_tick hdata <;> exact ⟨rfl, rfl⟩
    exact setTrans_spends rfl (dataStep_isClient hdata) (by rw [hside.1]; exact id) hside.2
  | check r msg => exact absurd rfl (hcheck r msg)
  | accept hphase =>
    have hmrs : (g.trans s).mrsLeft .pending = g.mrsLeft s :=
      mrsLeft_pending (by rw [hunraised hphase s]; decide)
    rw [spends_eq_zero (by simp [CloseState.encodes]), Nat.add_zero, CloseState.reserve,
      CloseState.reserve, ← hmrs]
    exact le_rfl
  | acceptConnecting =>
    exact setTrans_spends (t := acceptConnecting (g.trans .server)) (r := .server) rfl rfl
      (fun hconnected => by contradiction) rfl
  | acceptMempool m =>
    exact setTrans_spends (t := acceptMempool m (g.trans .server)) (r := .server) rfl rfl id rfl
  | acceptPost o left t _ hpost =>
    have hresponses : t.responses = (g.trans .server).responses :=
      congrArg Prod.fst hpost.receiverSide
    exact setTrans_spends (r := .server) rfl hpost.isClient (by rw [hpost.transState]; exact id)
      hresponses
  | _ => exact he.elim

/-- A send completion hands nothing over. -/
theorem dataStep_sendComplete_responses {u : HmrRdmaTransport} {i : ℕ} {status : IbvWcStatus}
    (hdata : dataStep u (.sendComplete i status o) = some t) : t.responses = u.responses := by
  obtain ⟨wr, -, rfl⟩ := dataStep_sendComplete hdata
  split
  · exact sendCompleted_preserves _ _ _ (fun _ => rfl) (fun _ => rfl) fun _ => rfl
  · rfl

/-- Every event but a check takes what it encodes out of the reserve. -/
theorem closeStep_reserve {e : CloseEvent} (hinv : DeliveryInv InRing g) (hunraised : g.Unraised)
    (hresp : Attentive g e) (hfinish : countOf .finish (g.accepted s.peer) ≤ finishes)
    (hcheck : ∀ r msg, e ≠ .conn (.check r msg)) (hstep : closeStep g e = some g') :
    g'.reserve s finishes + g.spends s e ≤ g.reserve s finishes := by
  cases closeStep_cases hstep with
  | received r o frame rest t hinbox hdata =>
    rcases r.eq_or_peer s with rfl | rfl
    · have hflow := hinv.flow s.peer
      rw [Side.peer_peer, hinbox] at hflow
      obtain ⟨encoded, -, -, hcarries, hlen⟩ := hflow.first
      exact received_reserve hinbox (hinv.recvs s) (hcarries.length ▸ hlen)
        (hresp frame (by rw [hinbox]; rfl))
        (fun htype => (hflow.nextFinish htype).trans hfinish) hdata
    · exact polled_quiet.spends fun msg => map_side_ne r.peer_ne.symm _ _ msg
  | recvFailed r status o t hstatus hdata =>
    cases dataStep_recvComplete hdata with
    | flushed =>
      refine setTrans_spends rfl ?_ ?_ ?_
      · rfl
      · exact id
      · rfl
    | received => exact absurd rfl hstatus
  | sent r i status o t _ hdata =>
    obtain ⟨hrole, -, hstate⟩ := dataStep_sendComplete_state hdata
    refine setTrans_spends rfl hrole (fun hconnected => ?_) (dataStep_sendComplete_responses hdata)
    rcases hstate with hsame | ⟨-, hsent⟩
    · exact hsame ▸ hconnected
    · rw [hsent] at hconnected
      contradiction
  | submitted r i o msg t hmsg hsubmit =>
    rcases r.eq_or_peer s with rfl | rfl
    · exact submitted_reserve hmsg hsubmit _
    · exact SideQuiet.spends (.of_ends (setEnd_ends_peer ..))
        fun msg => map_side_ne r.peer_ne.symm _ _ msg
  | other e conn he hresult =>
    exact other_reserve hunraised he (fun r msg heq => hcheck r msg (congrArg _ heq)) hresult
  | delivered r => exact SideQuiet.spends (.of_ends rfl) (by simp [CloseState.encodes])
  | disconnected r t _ hhandler =>
    obtain rfl := onCmDisconnected_eq hhandler
    refine setTrans_spends rfl ?_ ?_ ?_
    · rfl
    · exact id
    · rfl
  | respSet r =>
    refine setTrans_spends rfl ?_ ?_ ?_
    · rfl
    · exact id
    · rfl

end Step

section Announced

variable {g g' : CloseState} {s : Side} {o : Outcomes} {t : HmrRdmaTransport}

/-- The MRs of a side stay the same in number if what it puts on its wire it may announce no more,
and its peer handles none. -/
theorem mrTotal_le (hshare : mrCount (g'.trans s).qp.encoded + g'.mrsLeft s ≤
      mrCount (g.trans s).qp.encoded + g.mrsLeft s)
    (hreceived : (g'.trans s.peer).mrsReceived = (g.trans s.peer).mrsReceived) :
    g'.mrTotal s ≤ g.mrTotal s := by
  rw [CloseState.mrTotal, CloseState.mrTotal, hreceived]
  omega

/-- So in an event of one side that announces none. -/
theorem setEnd_mrTotal {r : Side} {e : Endpoint} (accepted : Side → List HmrMsg)
    (hestablished : e.established = (g.conn.ends r).established)
    (hrole : e.trans.isClient = (g.trans r).isClient)
    (hstate : e.trans.transState = .connected → (g.trans r).transState = .connected)
    (hposts : PostsMrs 0 (g.trans r) e.trans)
    (hmrs : e.trans.mrsReceived = (g.trans r).mrsReceived) :
    CloseState.mrTotal { g with conn := g.conn.setEnd r e, accepted := accepted } s ≤ g.mrTotal s := by
  rcases r.eq_or_peer s with rfl | rfl
  · have hself : (CloseState.mk (g.conn.setEnd s e) g.inbox accepted).trans s = e.trans :=
      setEnd_self ..
    have hpeer : (CloseState.mk (g.conn.setEnd s e) g.inbox accepted).trans s.peer =
      g.trans s.peer := setEnd_peer ..
    refine mrTotal_le ?_ (by rw [hpeer])
    rw [CloseState.mrsLeft, hself, setEnd_ends_self, hposts.encoded, hestablished]
    exact Nat.add_le_add_left (mrsLeft_le hrole hstate) _
  · have hself : (CloseState.mk (g.conn.setEnd r e) g.inbox accepted).trans r.peer =
      g.trans r.peer := setEnd_peer ..
    have hpeer : (CloseState.mk (g.conn.setEnd r e) g.inbox accepted).trans r = e.trans :=
      setEnd_self ..
    refine mrTotal_le ?_ (by rw [Side.peer_peer, hpeer, hmrs])
    rw [CloseState.mrsLeft, hself, setEnd_ends_peer]
    exact le_rfl

/-- A received MR is one less on its way, and an answer one less to announce. -/
theorem received_mrTotal {r : Side} {frame encoded : Frame} {rest : List Frame}
    (hmatch : (g.trans r).RecvsMatch) (hcarries : frame.Carries encoded)
    (hlen : sizeofMsgType ≤ encoded.length) (hwire : (g.trans r.peer).qp.encoded.head? = some encoded)
    (hdata : dataStep (g.trans r) (.recvComplete frame .success o) = some t) :
    (g.polled r rest t).mrTotal s ≤ g.mrTotal s := by
  have hlen' : sizeofMsgType ≤ frame.length := hcarries.length ▸ hlen
  have htype := hcarries.receivedType hlen
  obtain ⟨hrole, hstate⟩ := recvComplete_state hmatch hlen' hdata
  rcases r.eq_or_peer s with rfl | rfl
  · have hframes := (recvComplete_postsMrs hmatch hlen' hdata).encoded
    refine mrTotal_le ?_ (by rw [polled_trans_peer]; rfl)
    rw [CloseState.mrsLeft, polled_trans_self, polled_established, hframes, CloseState.mrsLeft]
    by_cases hanswer : receivedType frame.byte = .mr ∧ (g.trans s).transState = .connected ∧ o.sendPost
    · have hconnected := hanswer.2.1
      rw [if_pos hanswer.1] at hstate
      rw [mrAnswers, if_pos hanswer, ← mrsLeft_of_mr hrole hstate, if_pos hconnected]
      omega
    · rw [mrAnswers, if_neg hanswer, Nat.add_zero]
      refine Nat.add_le_add_left (mrsLeft_le hrole fun hconnected => ?_) _
      by_contra hne
      rw [hstate] at hconnected
      split at hconnected
      · contradiction
      · exact hne hconnected
  · obtain ⟨hmrs, -⟩ := recvComplete_learns hmatch hlen' hdata
    have htaken := mrCount_head hwire
    have hleft : (g.polled r rest t).mrsLeft r.peer ≤ g.mrsLeft r.peer := polled_quiet.mrsLeft
    rw [CloseState.mrTotal, CloseState.mrTotal, polled_trans_peer, Side.peer_peer, polled_trans_self,
      hmrs, htype, htaken]
    change mrCount (g.trans r.peer).qp.encoded.tail + _ + _ ≤ _
    omega

/-- A handled ESTABLISHED event puts at most the MR on the wire that it announces. -/
theorem established_mrTotal {r : Side} (hpending : (g.conn.ends r).established = .pending)
    (hhandler : onCmEstablished o (g.trans r) = .ok t) :
    CloseState.mrTotal { g with
        conn := g.conn.setEnd r { g.conn.ends r with trans := t, established := .handled } } s ≤
      g.mrTotal s := by
  obtain ⟨-, -, n, hn, hserver, hposts⟩ := onCmEstablished_postsMrs hhandler
  obtain ⟨-, -, -, hmrs⟩ := onCmEstablished_frame hhandler
  have hraised : (g.conn.ends r).established ≠ .handled := by simp [hpending]
  have hself : (CloseState.mk (g.conn.setEnd r { g.conn.ends r with
      trans := t, established := .handled }) g.inbox g.accepted).trans r = t := setEnd_self ..
  have hpeer : (CloseState.mk (g.conn.setEnd r { g.conn.ends r with
      trans := t, established := .handled }) g.inbox g.accepted).trans r.peer = g.trans r.peer :=
    setEnd_peer ..
  rcases r.eq_or_peer s with rfl | rfl
  · have hafter : t.mrsLeft .handled ≤ 1 := by
      rw [HmrRdmaTransport.mrsLeft, if_pos rfl]
      split <;> simp
    have hbefore : n + 1 ≤ (g.trans s).mrsLeft (g.conn.ends s).established := by
      rw [HmrRdmaTransport.mrsLeft, if_neg hraised]
      by_cases hclient : (g.trans s).isClient
      · rw [if_pos hclient]
        omega
      · rw [if_neg hclient, hserver (by simpa using hclient)]
        omega
    refine mrTotal_le ?_ (by rw [hpeer])
    rw [CloseState.mrsLeft, hself, setEnd_ends_self, hposts.encoded, CloseState.mrsLeft]
    change mrCount (g.trans s).qp.encoded + n + t.mrsLeft .handled ≤ _
    omega
  · refine mrTotal_le ?_ (by rw [Side.peer_peer, hself, hmrs])
    rw [CloseState.mrsLeft, hpeer, setEnd_ends_peer]
    exact le_rfl

/-- No event adds to the MRs of a side, if the application submits none. -/
theorem closeStep_mrTotal {e : CloseEvent} (hinv : DeliveryInv InRing g) (hunraised : g.Unraised)
    (hchecked : ∀ r, ∀ msg ∈ (g.conn.ends r).checked, msg.msgType ≠ .mr)
    (hstep : closeStep g e = some g') : g'.mrTotal s ≤ g.mrTotal s := by
  cases closeStep_cases hstep with
  | received r o frame rest t hinbox hdata =>
    have hflow := hinv.flow r.peer
    rw [Side.peer_peer, hinbox] at hflow
    obtain ⟨encoded, wire, hwire, hcarries, hlen⟩ := hflow.first
    exact received_mrTotal (hinv.recvs r) hcarries hlen (by rw [hwire]; rfl) hdata
  | recvFailed r status o t hstatus hdata =>
    cases dataStep_recvComplete hdata with
    | flushed => exact setEnd_mrTotal _ rfl rfl id (.of_same ⟨rfl, rfl, rfl⟩) rfl
    | received => exact absurd rfl hstatus
  | sent r i status o t _ hdata =>
    obtain ⟨hrole, hmrs, hstate⟩ := dataStep_sendComplete_state hdata
    obtain ⟨-, hlist, -, hqp⟩ := dataStep_sendComplete_frame hdata
    refine setEnd_mrTotal _ rfl hrole (fun hconnected => ?_)
      (.of_same ⟨hlist, by rw [hqp]; rfl, by rw [hqp]; rfl⟩) hmrs
    rcases hstate with hsame | ⟨-, hsent⟩
    · exact hsame ▸ hconnected
    · exact absurd (hsent.symm.trans hconnected) (by decide)
  | submitted r i o msg t hmsg hsubmit =>
    have hmr := hchecked r msg (List.mem_of_getElem? hmsg)
    have hposts := hsubmit.postsMrs fun htype => absurd htype hmr
    rw [if_neg fun hor => hmr hor.1] at hposts
    exact setEnd_mrTotal _ rfl hsubmit.isClient (by rw [hsubmit.transState]; exact id) hposts
      hsubmit.mrsReceived
  | other e conn he hresult =>
    cases hresult with
    | established r o t hpending hhandler => exact established_mrTotal hpending hhandler
    | tick r a t hdata =>
      have hresult := dataStep_tick hdata
      have hplain : ∀ task ∈ (g.trans r).sendTaskList, task.Plain := fun task htask => by
        obtain ⟨hencoded, hmr⟩ := (hinv.flow r).queued task htask
        exact ⟨hmr, hencoded.taskType ▸ hmr⟩
      have hstate : t.transState = (g.trans r).transState := by
        cases hresult <;> rfl
      exact setEnd_mrTotal _ rfl (dataStep_isClient hdata) (by rw [hstate]; exact id)
        (hresult.postsMrs (hinv.queuesNoMr inRing_keptIf r) hplain) hresult.mrsReceived
    | check r msg => exact setEnd_mrTotal _ rfl rfl id (.of_same ⟨rfl, rfl, rfl⟩) rfl
    | accept hphase =>
      have hmrs : (g.trans s).mrsLeft .pending = g.mrsLeft s :=
        mrsLeft_pending (by rw [hunraised hphase s]; decide)
      exact mrTotal_le (Nat.add_le_add_left hmrs.le _) rfl
    | acceptConnecting =>
      exact setEnd_mrTotal (r := .server) g.accepted rfl rfl (fun hconnected => by contradiction)
        (.of_same ⟨rfl, rfl, rfl⟩) rfl
    | acceptMempool m =>
      exact setEnd_mrTotal (r := .server) g.accepted rfl rfl id (.of_same ⟨rfl, rfl, rfl⟩) rfl
    | acceptPost o left t _ hpost =>
      obtain ⟨hlist, -, hwire, hlog⟩ := hpost.sends
      exact setEnd_mrTotal (r := .server) g.accepted rfl hpost.isClient
        (by rw [hpost.transState]; exact id) (.of_same ⟨hlist, hwire, hlog⟩) hpost.mrsReceived
    | _ => exact he.elim
  | delivered => exact le_rfl
  | disconnected r t _ hhandler =>
    obtain rfl := onCmDisconnected_eq hhandler
    exact setEnd_mrTotal _ rfl rfl id (.of_same ⟨rfl, rfl, rfl⟩) rfl
  | respSet r => exact setEnd_mrTotal _ rfl rfl id (.of_same ⟨rfl, rfl, rfl⟩) rfl

/-- An event that raises no ESTABLISHED event leaves them unraised. -/
theorem CloseState.Unraised.of_same (h : g.Unraised)
    (haccept : g'.conn.accept = .waiting → g.conn.accept = .waiting)
    (hestablished : ∀ r, (g'.conn.ends r).established = (g.conn.ends r).established) : g'.Unraised :=
  fun hphase r => (hestablished r).trans (h (haccept hphase) r)

/-- In particular one of a side that keeps its own. -/
theorem CloseState.Unraised.setEnd {r : Side} {e : Endpoint} (h : g.Unraised)
    (hestablished : e.established = (g.conn.ends r).established) (inbox : Side → List Frame)
    (accepted : Side → List HmrMsg) :
    CloseState.Unraised ⟨g.conn.setEnd r e, inbox, accepted⟩ := by
  refine h.of_same id fun u => ?_
  rcases r.eq_or_peer u with rfl | rfl
  · rw [setEnd_ends_self, hestablished]
  · rw [setEnd_ends_peer]

/-- ESTABLISHED events are raised once the accepting thread has accepted. -/
theorem closeStep_unraised {e : CloseEvent} (h : g.Unraised) (hstep : closeStep g e = some g') :
    g'.Unraised := by
  cases closeStep_cases hstep with
  | received r o frame rest t =>
    refine h.of_same ?_ fun u => ?_
    · cases r <;> exact id
    · cases r <;> cases u <;> rfl
  | other e conn he hresult =>
    cases hresult with
    | established r o t hpending =>
      intro hphase
      have habsent := h hphase r
      rw [hpending] at habsent
      contradiction
    | accept | acceptConnecting | acceptMempool | acceptPost =>
      intro hphase
      contradiction
    | tick | check =>
      refine h.setEnd ?_ _ _
      rfl
    | _ => exact he.elim
  | delivered => exact h
  | recvFailed | sent | submitted | disconnected | respSet =>
    refine h.setEnd ?_ _ _
    rfl

end Announced

end HmrRpc
