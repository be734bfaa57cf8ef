import HmrRpc.Delivery
import HmrRpc.SendBuffers

/-!
# Closes under orderly runs

`rdma_disconnect` is called when a DONE has been sent and when one arrives, and the program sends
a DONE only in answer to a FINISH. Counting the DONEs through the stages of a message, every call
on either side is paid for by a FINISH that one of the two applications sent: without one the
connection is never closed, and a single FINISH closes it at most once on each side.

Orderly runs also close without loss if a side polls its completion queue before it handles
DISCONNECTED: what the HCA finds in the buffers is no longer assumed.
-/

namespace HmrRpc

open Common

/-- How many of the messages are of the type. -/
def countOf (msgType : HmrMsgType) (msgs : List HmrMsg) : ℕ :=
  msgs.countP fun msg => msg.msgType = msgType

/-- The DONEs queued, or posted and not completed. -/
def HmrRdmaTransport.openDones (t : HmrRdmaTransport) : ℕ :=
  t.liveSends.countP fun task => task.taskType = .done

/-- Each side calls `rdma_disconnect` at most once for every FINISH of the two applications. -/
def DisconnectsPaid (g : CloseState) : Prop :=
  ∀ s, (g.trans s).disconnects ≤
    countOf .finish (g.accepted s) + countOf .finish (g.accepted s.peer)

/-- The application leaves the DONE messages to the program. -/
def LeavesDone (g : CloseState) : CloseEvent → Prop
  | .conn (.submit s i _) =>
    ∀ msg, (g.conn.ends s).checked[i]? = some msg → msg.msgType ≠ .done
  | _ => True

instance (g : CloseState) : (e : CloseEvent) → Decidable (LeavesDone g e)
  | .conn (.submit s i _) =>
    inferInstanceAs (Decidable (∀ msg ∈ (g.conn.ends s).checked[i]?, msg.msgType ≠ .done))
  | .conn (.established ..) | .conn (.sendComplete ..) | .conn (.recvFail ..)
  | .conn (.recvComplete ..) | .conn (.tick ..) | .conn (.check ..) | .conn .accept
  | .conn .acceptConnecting | .conn (.acceptMempool _) | .conn (.acceptPost _) | .deliver _
  | .disconnected _ | .setProcessResp _ => isTrue trivial

/-- The calls made and the DONEs still open were accepted or handled, and those accepted answer a
handled FINISH. -/
structure PaidInv (g : CloseState) : Prop where
  spent : ∀ s, (g.trans s).disconnects + (g.trans s).openDones ≤
    countOf .done (g.accepted s) + countOf .done (g.trans s).responses
  answered : ∀ s, countOf .done (g.accepted s) ≤ countOf .finish (g.trans s).responses

section Counts

variable {msgs msgs' : List HmrMsg} {msgType : HmrMsgType}

@[simp] theorem countOf_append :
    countOf msgType (msgs ++ msgs') = countOf msgType msgs + countOf msgType msgs' :=
  List.countP_append

/-- The messages handed over are no more of any type than those accepted. -/
theorem countOf_handed {accepted responses : List HmrMsg}
    (h : List.Forall₂ SameMessage (accepted.take responses.length) responses) :
    countOf msgType responses ≤ countOf msgType accepted := by
  have htypes : (accepted.take responses.length).map HmrMsg.msgType =
      responses.map HmrMsg.msgType := by
    rw [← List.forall₂_eq_eq_eq, List.forall₂_map_left_iff, List.forall₂_map_right_iff]
    exact h.imp fun _ _ hsame => hsame.msgType.symm
  have hcount (msgs : List HmrMsg) :
      countOf msgType msgs =
        (msgs.map HmrMsg.msgType).countP fun msgType' => msgType' = msgType := by
    rw [List.countP_map]
    rfl
  rw [hcount, ← htypes, ← hcount]
  exact (List.take_sublist _ _).countP_le

/-- A decoded message has the type its bytes start with. -/
theorem ofMsgType_decode (bytes : ℕ → UInt8) :
    HmrTaskType.ofMsgType (HmrMsg.decode bytes).msgType = receivedType bytes := by
  have hcast (n : ℕ) : HmrTaskType.ofMsgType (HmrMsgType.ofNat n) = HmrTaskType.ofNat n := by
    match n with
    | 0 | 1 | 2 | 3 | 4 | 5 => rfl
    | n + 6 => exact congrArg HmrTaskType.other (Fin.ofNat_val_eq_self _)
  exact hcast _

end Counts

section OpenDones

variable {o : Outcomes} {t t' u : HmrRdmaTransport} {msg : HmrMsg}

/-- A submitted DONE is open. -/
theorem SubmitResult.openDones (h : SubmitResult o t msg t') :
    t'.openDones = t.openDones + if msg.msgType = .done then 1 else 0 := by
  have htask (pool : HmrMempool) :
      (acceptedTask pool msg t.nextTask).taskType = .done ↔ msg.msgType = .done :=
    HmrTaskType.ofMsgType_inj (t := .done)
  cases h with
  | queued pool =>
    simp only [HmrRdmaTransport.openDones, HmrRdmaTransport.liveSends, HmrRdmaTransport.queued,
      HmrRdmaTransport.created, List.countP_append, List.countP_singleton, htask, decide_eq_true_eq]
    omega
  | posted pool =>
    simp only [HmrRdmaTransport.openDones, HmrRdmaTransport.liveSends,
      HmrRdmaTransport.postedDirect, HmrRdmaTransport.ibvPostSend, HmrRdmaTransport.created,
      List.map_append, List.map_singleton, List.countP_append, List.countP_singleton, directSendWr,
      htask, decide_eq_true_eq]
    omega
  | dropped pool _ htype =>
    rw [htype]
    rfl

/-- Sending the MR opens none. -/
theorem SendResult.openDones_mr {mr : IbvMr} {r : ℤ} (h : SendResult o t (mrMsg mr) r t') :
    t'.openDones = t.openDones := by
  cases h with
  | refused => rfl
  | submitted _ _ hsubmit => exact hsubmit.openDones

/-- A list that is as it was has no answer. -/
theorem closingAnswer_of_list (hlist : t'.sendTaskList = t.sendTaskList) :
    closingAnswer t t' = [] := by
  rw [closingAnswer, hlist, if_neg (lt_irrefl _)]

/-- An answer is one DONE. -/
theorem closingAnswer_length_le : (closingAnswer t t').length ≤ 1 := by
  rcases closingAnswer_cases t t' with hanswer | hanswer <;> simp [hanswer]

/-- And nothing else. -/
theorem countOf_closingAnswer :
    countOf .done (closingAnswer t t') = (closingAnswer t t').length := by
  rcases closingAnswer_cases t t' with hanswer | hanswer <;> rw [hanswer] <;> rfl

/-- Handling a frame opens the DONE it is answered with. -/
theorem RecvBody.openDones {bytes : ℕ → UInt8} {taskType : HmrTaskType}
    (h : RecvBody o t bytes taskType u) :
    u.openDones = t.openDones + (closingAnswer t u).length := by
  have hrespond (taskType : HmrTaskType) :
      (t.respond taskType (.decode bytes)).openDones = t.openDones :=
    respond_preserves t _ _ fun _ _ => rfl
  have hquiet {u : HmrRdmaTransport} (hlist : u.sendTaskList = t.sendTaskList)
      (hopen : u.openDones = t.openDones) :
      u.openDones = t.openDones + (closingAnswer t u).length := by
    rw [closingAnswer_of_list hlist]
    exact hopen
  cases h with
  | firstMr pool r v _ _ hsend => exact hquiet hsend.list_mr hsend.openDones_mr
  | laterMr => exact hquiet rfl rfl
  | finish r _ hsend =>
    cases hsend with
    | refused => exact hquiet (by simp) (hrespond .finish)
    | submitted _ _ hsubmit =>
      have hdone : closingMsg.msgType = .done := rfl
      have hopen := hsubmit.openDones
      rw [hrespond, if_pos hdone] at hopen
      cases hsubmit with
      | queued pool =>
        rw [hopen, closingAnswer, if_pos (by simp [HmrRdmaTransport.queued])]
        rfl
      | posted _ _ htype | dropped _ _ htype => exact absurd htype (by decide)
  | done => exact hquiet (by simp) (hrespond .done)
  | plain => exact hquiet (by simp) (hrespond taskType)

/-- So does the whole receive completion. -/
theorem recvComplete_openDones {frame : Frame} {status : IbvWcStatus}
    (hstep : dataStep t (.recvComplete frame status o) = some t') :
    t'.openDones = t.openDones + (closingAnswer t t').length := by
  cases dataStep_recvComplete hstep with
  | flushed =>
    have hnone : closingAnswer t t.pollRecv = [] := closingAnswer_of_list rfl
    rw [hnone]
    rfl
  | received wr pool u _ _ _ hbody hrepost =>
    obtain ⟨hlist, hsq, -, -⟩ := hrepost.sends
    have hopen : t'.openDones = u.openDones := by
      rw [HmrRdmaTransport.openDones, HmrRdmaTransport.liveSends, hlist, hsq,
        HmrRdmaTransport.openDones, HmrRdmaTransport.liveSends]
    rw [hopen, hbody.openDones, closingAnswer, closingAnswer, hlist]
    rfl

/-- A tick opens none, if a failing post accepts no SEND. -/
theorem TickResult.openDones {a : Option ℕ} (h : TickResult t a t')
    (hfail : ∀ k, a = some k → ∀ wr ∈ (sendChain t.peerInfo t.sendTaskList).take k,
      wr.opcode ≠ .send) : t'.openDones = t.openDones := by
  cases h with
  | idle => rfl
  | flushed =>
    simp only [HmrRdmaTransport.openDones, HmrRdmaTransport.liveSends, HmrRdmaTransport.flushed,
      HmrRdmaTransport.ibvPostSend, List.map_append, sendChain_wrId, List.nil_append,
      List.countP_append]
    omega
  | failed k =>
    have hnone : (((sendChain t.peerInfo t.sendTaskList).take k).map IbvSendWr.wrId).countP
        (fun task => task.taskType = .done) = 0 := by
      refine List.countP_eq_zero.mpr fun task htask hdone => ?_
      obtain ⟨wr, hwr, rfl⟩ := List.mem_map.mp htask
      refine hfail k rfl wr hwr ?_
      rw [(sendChain_filled _ _ wr (List.mem_of_mem_take hwr)).2, hmrGetOpcodeFromTask,
        of_decide_eq_true hdone]
    simp only [HmrRdmaTransport.openDones, HmrRdmaTransport.liveSends,
      HmrRdmaTransport.flushFailed, HmrRdmaTransport.ibvPostSend, List.map_append,
      List.countP_append]
    omega

/-- A completed DONE is no longer open, and calls `rdma_disconnect` at most once. -/
theorem sendComplete_openDones {i : ℕ} {status : IbvWcStatus}
    (hstep : dataStep t (.sendComplete i status o) = some t') :
    t'.disconnects + t'.openDones ≤ t.disconnects + t.openDones := by
  obtain ⟨wr, hwr, rfl⟩ := dataStep_sendComplete hstep
  obtain ⟨hi, rfl⟩ := List.getElem?_eq_some_iff.mp hwr
  have hperm := ((List.getElem_cons_eraseIdx_perm hi).map IbvSendWr.wrId).countP_eq
    fun task => task.taskType = .done
  have hopen : t.openDones = (t.pollSend i).openDones +
      if t.qp.sq[i].wrId.taskType = .done then 1 else 0 := by
    simp only [HmrRdmaTransport.openDones, HmrRdmaTransport.liveSends, HmrRdmaTransport.pollSend,
      List.countP_append, ← hperm, List.map_cons, List.countP_cons, decide_eq_true_eq]
    omega
  split
  · have hsame : ((t.pollSend i).sendCompleted t.qp.sq[i].wrId
        t.qp.sq[i].opcode.wcOpcode).openDones = (t.pollSend i).openDones :=
      sendCompleted_preserves _ _ _ (fun _ => rfl) (fun _ => rfl) fun _ => rfl
    rw [hsame, hopen]
    rcases sendCompleted_receiverSide (t.pollSend i) t.qp.sq[i].wrId t.qp.sq[i].opcode.wcOpcode with
      hside | ⟨-, hdone, hside⟩
    all_goals
      simp only [HmrRdmaTransport.receiverSide, Prod.mk.injEq] at hside
      have hpolled : (t.pollSend i).disconnects = t.disconnects := rfl
      rw [hside.2.2.1, hpolled]
    · omega
    · rw [if_pos hdone]
      omega
  · have hpolled : (t.pollSend i).disconnects = t.disconnects := rfl
    rw [hopen, hpolled]
    omega

end OpenDones

section Paid

variable {g g' : CloseState} {s : Side} {o : Outcomes} {t : HmrRdmaTransport}

/-- A message that is heard is handed over, and has the type of its frame. -/
theorem Hears.heard {u : HmrRdmaTransport} {frame : Frame} (h : Hears u frame t)
    (hlen : sizeofMsgType ≤ frame.length) (hresp : frame.forApp → u.processResp) :
    ∃ heard, t.responses = u.responses ++ heard ∧
      ∀ msgType, receivedType frame.byte = .ofMsgType msgType → msgType ≠ .mr →
        countOf msgType heard = 1 := by
  obtain ⟨bytes, hbytes, hresponses⟩ := h.responses
  have htype : HmrTaskType.ofMsgType (HmrMsg.decode bytes).msgType = receivedType frame.byte := by
    rw [ofMsgType_decode]
    exact congrArg HmrTaskType.ofNat (ofLeBytes_congr fun i hi => hbytes i (hi.trans_le hlen))
  by_cases hmr : receivedType frame.byte = .mr
  · refine ⟨[], by simp [hresponses, hmr], fun msgType h hne => absurd ?_ hne⟩
    exact HmrTaskType.ofMsgType_eq_mr.mp (h.symm.trans hmr)
  · have happ : frame.forApp := by simpa [Frame.forApp] using hmr
    refine ⟨[.decode bytes], by rw [hresponses, if_pos ⟨hresp happ, hmr⟩], fun msgType h _ => ?_⟩
    simpa [countOf] using HmrTaskType.ofMsgType_inj.mp (htype.trans h)

/-- A step of one side keeps the account when the calls and DONEs it adds were accepted or handled
with it, and those accepted answer a FINISH handled with it. -/
theorem PaidInv.advance (h : PaidInv g) (new heard : List HmrMsg) (hself : g'.trans s = t)
    (hpeer : (g'.trans s.peer).disconnects = (g.trans s.peer).disconnects ∧
      (g'.trans s.peer).openDones = (g.trans s.peer).openDones ∧
      (g'.trans s.peer).responses = (g.trans s.peer).responses)
    (hnew : g'.accepted = Function.update g.accepted s (g.accepted s ++ new))
    (hheard : t.responses = (g.trans s).responses ++ heard)
    (hspent : t.disconnects + t.openDones ≤ (g.trans s).disconnects + (g.trans s).openDones +
      countOf .done new + countOf .done heard)
    (hanswered : countOf .done new ≤ countOf .finish heard) : PaidInv g' := by
  obtain ⟨hdisconnects, hopen, hresponses⟩ := hpeer
  have hspent' := h.spent s
  have hanswered' := h.answered s
  refine ⟨fun r => ?_, fun r => ?_⟩ <;> rcases s.eq_or_peer r with rfl | rfl
  · rw [hself, hnew, Function.update_self, hheard, countOf_append, countOf_append]
    omega
  · rw [hdisconnects, hopen, hresponses, hnew, Function.update_of_ne s.peer_ne]
    exact h.spent s.peer
  · rw [hself, hnew, Function.update_self, hheard, countOf_append, countOf_append]
    omega
  · rw [hresponses, hnew, Function.update_of_ne s.peer_ne]
    exact h.answered s.peer

/-- So does a step that accepts and handles nothing. -/
theorem PaidInv.quiet {conn : Connection} (h : PaidInv g) (hself : conn.trans s = t)
    (hpeer : conn.trans s.peer = g.trans s.peer) (hresponses : t.responses = (g.trans s).responses)
    (hspent : t.disconnects + t.openDones ≤ (g.trans s).disconnects + (g.trans s).openDones) :
    PaidInv { g with conn := conn } :=
  have hpeer' : (CloseState.mk conn g.inbox g.accepted).trans s.peer = g.trans s.peer := hpeer
  h.advance [] [] hself (by rw [hpeer']; exact ⟨rfl, rfl, rfl⟩) (by simp)
    (by rw [hresponses, List.append_nil]) hspent le_rfl

/-- Handling a message adds the DONE or the call it is worth. -/
theorem PaidInv.received {frame : Frame} {rest : List Frame} (h : PaidInv g)
    (hlen : sizeofMsgType ≤ frame.length) (hresp : frame.forApp → (g.trans s).processResp)
    (hears : Hears (g.trans s) frame t)
    (hdata : dataStep (g.trans s) (.recvComplete frame .success o) = some t) :
    PaidInv (g.polled s rest t) := by
  obtain ⟨heard, hheard, hcount⟩ := hears.heard hlen hresp
  have hopen := recvComplete_openDones hdata
  have hdisconnects := hears.disconnects
  refine h.advance (closingAnswer (g.trans s) t) heard (polled_trans_self ..) ?_ rfl hheard ?_ ?_
  · rw [polled_trans_peer]
    exact ⟨rfl, rfl, rfl⟩
  · rw [hdisconnects, hopen, countOf_closingAnswer]
    split
    · rename_i hdone
      rw [hcount .done hdone (by decide)]
      omega
    · omega
  · rw [countOf_closingAnswer]
    by_cases hfinish : receivedType frame.byte = .finish
    · rw [hcount .finish hfinish (by decide)]
      exact closingAnswer_length_le
    · have hnone : closingAnswer (g.trans s) t = [] := by
        by_contra hne
        exact hfinish (hears.answer hne)
      rw [hnone]
      exact Nat.zero_le _

/-- A message of the application adds no DONE. -/
theorem PaidInv.submitted {msg : HmrMsg} {e : Endpoint} (h : PaidInv g)
    (hsubmit : SubmitResult o (g.trans s) msg e.trans) (hleaves : msg.msgType ≠ .done) :
    PaidInv { g with
      conn := g.conn.setEnd s e
      accepted := Function.update g.accepted s
        (g.accepted s ++ if msg.TwoSided then [msg] else []) } := by
  have hside := hsubmit.receiverSide
  simp only [HmrRdmaTransport.receiverSide, Prod.mk.injEq] at hside
  have hopen := hsubmit.openDones
  rw [if_neg hleaves] at hopen
  have hnone : countOf .done (if msg.TwoSided then [msg] else []) = 0 := by
    split <;> simp [countOf, hleaves]
  refine h.advance _ [] (setEnd_self ..) ?_ rfl (by rw [hside.1, List.append_nil]) ?_ hnone.le
  · have hpeer : (g.conn.setEnd s e).trans s.peer = g.trans s.peer := setEnd_peer ..
    change ((g.conn.setEnd s e).trans s.peer).disconnects = _ ∧
      ((g.conn.setEnd s e).trans s.peer).openDones = _ ∧
      ((g.conn.setEnd s e).trans s.peer).responses = _
    rw [hpeer]
    exact ⟨rfl, rfl, rfl⟩
  · rw [hside.2.2.1, hopen, hnone]
    omega

/-- The events that poll and submit nothing keep the account. -/
theorem PaidInv.other {e : ConnectionEvent} {conn : Connection} (h : PaidInv g) (he : e.Unpolled)
    (hattentive : Attentive g (.conn e)) (hresult : ConnectionResult g.conn e conn) :
    PaidInv { g with conn := conn } := by
  cases hresult with
  | established s o t _ hhandler =>
    rcases onCmEstablished_cases hhandler with ⟨-, rfl⟩ | ⟨-, pool, r, -, hsend⟩
    · exact h.quiet (setEnd_self ..) (setEnd_peer ..) rfl le_rfl
    · have hside := hsend.receiverSide
      simp only [HmrRdmaTransport.receiverSide, Prod.mk.injEq] at hside
      refine h.quiet (setEnd_self ..) (setEnd_peer ..) hside.1 ?_
      rw [hside.2.2.1, hsend.openDones_mr]
      exact le_rfl
  | tick s a t hdata =>
    have hresult := dataStep_tick hdata
    have hside : t.responses = (g.trans s).responses ∧
        t.disconnects = (g.trans s).disconnects := by
      cases hresult <;> exact ⟨rfl, rfl⟩
    have hopen := hresult.openDones fun k hk => by
      subst hk
      exact hattentive
    refine h.quiet (setTrans_self ..) (setTrans_peer ..) hside.1 ?_
    exact (congrArg₂ (· + ·) hside.2 hopen).le
  | check s msg => exact h.quiet (setEnd_self ..) (setEnd_peer ..) rfl le_rfl
  | accept => exact h.quiet (s := .server) rfl rfl rfl le_rfl
  | acceptConnecting => exact h.quiet (s := .server) rfl rfl rfl le_rfl
  | acceptMempool => exact h.quiet (s := .server) rfl rfl rfl le_rfl
  | acceptPost o left t _ hpost =>
    have hside := hpost.receiverSide
    simp only [HmrRdmaTransport.receiverSide, Prod.mk.injEq] at hside
    obtain ⟨hlist, hsq, -, -⟩ := hpost.sends
    have hopen : t.openDones = (g.trans .server).openDones := by
      rw [HmrRdmaTransport.openDones, HmrRdmaTransport.liveSends, hlist, hsq]
      rfl
    exact h.quiet (s := .server) rfl rfl hside.1 (congrArg₂ (· + ·) hside.2.2.1 hopen).le
  | _ => exact he.elim

/-- Every event keeps the account, if the application sends no DONE. -/
theorem PaidInv.step {e : CloseEvent} (h : PaidInv g) (hinv : DeliveryInv InRing g)
    (hattentive : Attentive g e) (hleaves : LeavesDone g e) (hstep : closeStep g e = some g') :
    PaidInv g' := by
  cases closeStep_cases hstep with
  | received s o frame rest t hinbox hdata =>
    have hflow := hinv.flow s.peer
    rw [Side.peer_peer, hinbox] at hflow
    obtain ⟨encoded, -, -, hcarries, hlen⟩ := hflow.first
    have hlen : sizeofMsgType ≤ frame.length := hcarries.length ▸ hlen
    exact h.received hlen (hattentive frame (by rw [hinbox]; rfl))
      (recvComplete_hears (hinv.recvs s) hlen hdata) hdata
  | recvFailed s status o t hstatus hdata =>
    cases dataStep_recvComplete hdata with
    | flushed => exact h.quiet (setTrans_self ..) (setTrans_peer ..) rfl le_rfl
    | received => exact absurd rfl hstatus
  | sent s i status o t _ hdata =>
    refine h.quiet (setTrans_self ..) (setTrans_peer ..) ?_ (sendComplete_openDones hdata)
    obtain ⟨wr, -, rfl⟩ := dataStep_sendComplete hdata
    split
    · exact sendCompleted_preserves _ _ _ (fun _ => rfl) (fun _ => rfl) fun _ => rfl
    · rfl
  | submitted s i o msg t hmsg hsubmit => exact h.submitted hsubmit (hleaves msg hmsg)
  | other e conn he hresult => exact h.other he hattentive hresult
  | delivered => exact ⟨h.spent, h.answered⟩
  | disconnected s t _ hhandler =>
    obtain rfl := onCmDisconnected_eq hhandler
    exact h.quiet (setTrans_self ..) (setTrans_peer ..) rfl le_rfl
  | respSet s => exact h.quiet (setTrans_self ..) (setTrans_peer ..) rfl le_rfl

/-- Behind the account every call is paid for. -/
theorem PaidInv.disconnectsPaid (h : PaidInv g) (hdelivered : Delivered g) : DisconnectsPaid g := by
  intro s
  have hhanded := hdelivered.handed s
  have hhanded' := hdelivered.handed s.peer
  rw [Side.peer_peer] at hhanded'
  calc (g.trans s).disconnects
      ≤ countOf .done (g.accepted s) + countOf .done (g.trans s).responses :=
        (Nat.le_add_right _ _).trans (h.spent s)
    _ ≤ countOf .finish (g.trans s).responses + countOf .done (g.accepted s.peer) :=
        Nat.add_le_add (h.answered s) (countOf_handed hhanded)
    _ ≤ countOf .finish (g.accepted s.peer) + countOf .finish (g.trans s.peer).responses :=
        Nat.add_le_add (countOf_handed hhanded) (h.answered s.peer)
    _ ≤ countOf .finish (g.accepted s) + countOf .finish (g.accepted s.peer) := by
        rw [Nat.add_comm]
        exact Nat.add_le_add_right (countOf_handed hhanded') _

/-- Two parties that start owe nothing. -/
theorem CloseState.Starts.paidInv (h : g.Starts) : PaidInv g where
  spent s := by
    have hunused : (g.trans s).Unused := h.conn.unused s
    simp [h.disconnects s, HmrRdmaTransport.openDones, HmrRdmaTransport.liveSends, hunused.list,
      hunused.sq]
  answered s := by simp [h.accepted s, countOf]

/-- In every orderly run in which the applications leave the DONEs to the program, each side calls
`rdma_disconnect` at most once for every FINISH they sent, so a connection on which neither sends
one is not closed. -/
theorem disconnectsPaid_run {events : List CloseEvent} (hstart : g.Starts) (hlaid : g.LaidOut)
    (horderly : Guarded closeStep (fun g e => Orderly g e ∧ LeavesDone g e) g events) :
    Always closeStep DisconnectsPaid g events :=
  always_of_guarded (I := fun g => DeliveryInv InRing g ∧ PaidInv g) (D := fun _ => True)
    (fun _ h => h.2.disconnectsPaid (h.1.allDelivered inRing_keptIf))
    (fun _ _ _ _ h hguard hstep =>
      ⟨h.1.step inRing_keptIf inRing_nil hguard.1 hstep, h.2.step h.1 hguard.1.1 hguard.2 hstep⟩)
    (fun _ _ => trivial) ⟨hstart.deliveryInv inRing_nil hlaid, hstart.paidInv⟩ horderly

/-- Orderly events close cleanly. -/
theorem DeliveryInv.closesCleanly {e : CloseEvent} (h : DeliveryInv InRing g)
    (hattentive : Attentive g e) (hleaves : LeavesDone g e) (hpolls : PollsFirst g e) :
    ClosesCleanly g e := by
  refine ⟨hattentive, ?_, hpolls⟩
  cases e with
  | conn e =>
    cases e with
    | submit => exact fun msg hmsg hdone => absurd hdone (hleaves msg hmsg)
    | _ => trivial
  | deliver => exact fun _ _ hnext hread => h.carries inRing_keptIf hnext hread
  | disconnected | setProcessResp => trivial

end Paid

/-- The server's FINISH is the only one of the run it closes, and pays for the calls of
both sides. -/
theorem disconnectsPaid_sample : (runEvents closeStep sampleClose polledFirst).isSome ∧
    Always closeStep DisconnectsPaid sampleClose polledFirst :=
  ⟨by decide +kernel,
    disconnectsPaid_run sampleClose_starts sampleClose_laidOut (by decide +kernel)⟩

end HmrRpc
