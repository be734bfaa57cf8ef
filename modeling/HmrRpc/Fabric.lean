import HmrRpc.Delivery
import HmrRpc.FlushFailure

/-!
# Requests in posting order

The HCA of a side carries out the requests of its send queue in the order they were posted. The
frame of a SEND goes to the peer's completion queue, and the bytes of a WRITE into the region
whose key the peer has given away, if they lie in it.

To the two parties this adds how many requests each HCA has carried out, and as history every
message accepted, the one-sided ones among them.
-/

namespace HmrRpc

open Common

/-- The two parties, the requests their HCAs have carried out, and the messages they accepted, MRs
apart. -/
structure FabricState where
  close : CloseState
  carried : Side → ℕ
  submitted : Side → List HmrMsg

/-- An event of the two parties, or the HCA of a side carrying out a WRITE. -/
inductive FabricEvent
  | close (e : CloseEvent)
  | write (s : Side)

/-- The target of the request lies in the region. -/
instance (mr : IbvMr) (wr : IbvSendWr) : Decidable (mr.Contains wr) :=
  inferInstanceAs (Decidable (_ ∧ _))

/-- The HCA placing the bytes of a WRITE in the region whose key the program gives away. -/
def HmrMempool.hcaPlace (pool : HmrMempool) (wr : IbvSendWr) (frame : Frame) : Option HmrMempool :=
  if wr.rkey = pool.rdmaMr.rkey ∧ pool.rdmaMr.Contains wr then
    some { pool with
      memory := pool.memory.copy (rdmaRegion + (wr.remoteAddr - pool.rdmaMr.addr.toNat)) frame.byte
        frame.length }
  else none

/-- The two parties with another pool on one side. -/
def CloseState.setPool (g : CloseState) (s : Side) (pool : HmrMempool) : CloseState :=
  { g with conn := g.conn.setTrans s { g.trans s with normalMempool := some pool } }

/-- The messages, MRs apart, that a side accepted in an event. -/
def CloseState.newMessages (g g' : CloseState) : CloseEvent → Side → List HmrMsg
  | .conn (.submit s i _), r =>
    if r = s then (g.conn.ends s).checked[i]?.toList.filter (·.msgType ≠ .mr) else []
  | .conn (.recvComplete s _), r => if r = s then closingAnswer (g.trans s) (g'.trans s) else []
  | _, _ => []

/-- An event that polls and submits nothing accepts nothing. -/
theorem newMessages_unpolled {g g' : CloseState} {s : Side} {e : ConnectionEvent}
    (he : e.Unpolled) : g.newMessages g' (.conn e) s = [] := by
  cases e <;> first | rfl | exact he.elim

namespace FabricState

variable (r : FabricState) (s : Side)

/-- The next request the HCA of the side carries out. -/
def nextRequest : Option IbvSendWr := (r.close.trans s).qp.sendLog[r.carried s]?

/-- The tasks whose buffers it has still to read. -/
def pending : List HmrTask :=
  (r.close.trans s).sendTaskList ++
    ((r.close.trans s).qp.sendLog.drop (r.carried s)).map IbvSendWr.wrId

/-- The state behind the next request. -/
def carry (g : CloseState) : FabricState :=
  { r with close := g, carried := Function.update r.carried s (r.carried s + 1) }

end FabricState

/-- One event of the two parties and their HCAs. -/
def fabricStep (r : FabricState) : FabricEvent → Option FabricState
  | .close (.deliver s) =>
    if (r.nextRequest s.peer).any fun wr => wr.opcode = .send then
      (closeStep r.close (.deliver s)).map (r.carry s.peer)
    else none
  | .close e =>
    (closeStep r.close e).map fun g =>
      { r with close := g, submitted := fun s => r.submitted s ++ r.close.newMessages g e s }
  | .write s =>
    if r.close.Live s ∧ r.close.Live s.peer then
      (r.nextRequest s).bind fun wr =>
        if wr.opcode = .rdmaWrite then
          ((r.close.trans s).hcaRead wr).bind fun frame =>
            (r.close.trans s.peer).normalMempool.bind fun pool =>
              (pool.hcaPlace wr frame).map fun pool' => r.carry s (r.close.setPool s.peer pool')
        else none
    else none

/-- An event of the parties that delivers nothing. -/
theorem fabricStep_close {r : FabricState} {e : CloseEvent} (hdeliver : ∀ s, e ≠ .deliver s) :
    fabricStep r (.close e) = (closeStep r.close e).map fun g =>
      { r with close := g, submitted := fun s => r.submitted s ++ r.close.newMessages g e s } := by
  cases e with
  | deliver s => exact absurd rfl (hdeliver s)
  | conn | disconnected | setProcessResp => rfl

/-- What an event of the two parties and their HCAs does. -/
inductive FabricResult (r : FabricState) : FabricEvent → FabricState → Prop
  | closed (e : CloseEvent) (g : CloseState) (hdeliver : ∀ s, e ≠ .deliver s)
      (hclose : closeStep r.close e = some g) :
      FabricResult r (.close e)
        { r with close := g, submitted := fun s => r.submitted s ++ r.close.newMessages g e s }
  | delivered (s : Side) (wr : IbvSendWr) (g : CloseState)
      (hnext : r.nextRequest s.peer = some wr) (hsend : wr.opcode = .send)
      (hclose : closeStep r.close (.deliver s) = some g) :
      FabricResult r (.close (.deliver s)) (r.carry s.peer g)
  | written (s : Side) (wr : IbvSendWr) (frame : Frame) (pool pool' : HmrMempool)
      (hnext : r.nextRequest s = some wr) (hwrite : wr.opcode = .rdmaWrite)
      (hread : (r.close.trans s).hcaRead wr = some frame)
      (hpool : (r.close.trans s.peer).normalMempool = some pool)
      (hplace : pool.hcaPlace wr frame = some pool') :
      FabricResult r (.write s) (r.carry s (r.close.setPool s.peer pool'))

/-- Every step is one of them. -/
theorem fabricStep_cases {r r' : FabricState} {e : FabricEvent} (hstep : fabricStep r e = some r') :
    FabricResult r e r' := by
  cases e with
  | close e =>
    by_cases hdeliver : ∃ s, e = .deliver s
    · obtain ⟨s, rfl⟩ := hdeliver
      obtain ⟨hsend, hstep⟩ := Option.ite_none_right_eq_some.mp hstep
      obtain ⟨wr, hnext, hopcode⟩ := (Option.any_eq_true _ _).mp hsend
      obtain ⟨g, hclose, rfl⟩ := Option.map_eq_some_iff.mp hstep
      exact .delivered s wr g hnext (of_decide_eq_true hopcode) hclose
    · have hne (s : Side) : e ≠ .deliver s := fun heq => hdeliver ⟨s, heq⟩
      rw [fabricStep_close hne] at hstep
      obtain ⟨g, hclose, rfl⟩ := Option.map_eq_some_iff.mp hstep
      exact .closed e g hne hclose
  | write s =>
    obtain ⟨-, hstep⟩ := Option.ite_none_right_eq_some.mp hstep
    obtain ⟨wr, hnext, hstep⟩ := Option.bind_eq_some_iff.mp hstep
    obtain ⟨hwrite, hstep⟩ := Option.ite_none_right_eq_some.mp hstep
    obtain ⟨frame, hread, hstep⟩ := Option.bind_eq_some_iff.mp hstep
    obtain ⟨pool, hpool, hstep⟩ := Option.bind_eq_some_iff.mp hstep
    obtain ⟨pool', hplace, rfl⟩ := Option.map_eq_some_iff.mp hstep
    exact .written s wr frame pool pool' hnext hwrite hread hpool hplace

/-- The frames, MRs apart, of the requests posted and the tasks queued. -/
def HmrRdmaTransport.requested (t : HmrRdmaTransport) : List Frame :=
  appFrames (t.qp.sendLog.map fun wr => wr.wrId.frame) ++ t.sendTaskList.map HmrTask.frame

/-- The WRITEs of a transport's ticks stay in order, and no MR that arrives restarts them. -/
def WritesOn (g : CloseState) : CloseEvent → Prop
  | .conn (.tick s a) => FlushesCleanly ⟨g.trans s, 0⟩ (.data (.tick a))
  | .conn (.recvComplete s _) => ∀ frame, (g.inbox s).head? = some frame →
      receivedType frame.byte = .mr → (g.trans s).writeTargets = []
  | _ => True

instance (t : HmrRdmaTransport) (k : ℕ) : Decidable (AcceptsNothing t k) :=
  inferInstanceAs (Decidable (_ ∧ _))

instance (g : CloseState) : (e : CloseEvent) → Decidable (WritesOn g e)
  | .conn (.tick s none) => inferInstanceAs (Decidable
      ((g.trans s).peerInfo.usedNormalSize + writeBytes (g.trans s).sendTaskList ≤ intMax))
  | .conn (.tick s (some k)) =>
    decidable_of_iff ((g.trans s).sendTaskList.isEmpty ∨ AcceptsNothing (g.trans s) k)
      (or_congr_left List.isEmpty_iff)
  | .conn (.recvComplete s _) =>
    inferInstanceAs (Decidable (∀ frame ∈ (g.inbox s).head?,
      receivedType frame.byte = .mr → (g.trans s).writeTargets = []))
  | .conn (.established ..) | .conn (.sendComplete ..) | .conn (.recvFail ..) | .conn (.check ..)
  | .conn (.submit ..) | .conn .accept | .conn .acceptConnecting | .conn (.acceptMempool _)
  | .conn (.acceptPost _) | .deliver _ | .disconnected _ | .setProcessResp _ => isTrue trivial

/-- The frames of the side's wire that its peer takes in the event. -/
def CloseEvent.takes (s : Side) : CloseEvent → ℕ
  | .conn (.recvComplete r _) => if r = s.peer then 1 else 0
  | _ => 0

/-- What an event that delivers nothing did to the transport of a side: it posted tasks of the list
and new ones in filled requests behind the others, with the messages accepted last in order, and its
pool keeps the property of what was to be read and the new tasks. -/
structure SideStep (P : Holding) (live : List HmrTask) (msgs : List HmrMsg) (taken : ℕ)
    (t t' : HmrRdmaTransport) : Prop where
  sends : ∃ (tasks : List HmrTask) (chain : List IbvSendWr),
    t'.sendTaskList ⊆ t.sendTaskList ++ tasks ∧ t'.qp.sendLog = t.qp.sendLog ++ chain ∧
      t'.qp.encoded = t.qp.encoded.drop taken ++ chain.filterMap IbvSendWr.encodedFrame ∧
      (∀ wr ∈ chain, wr.wrId ∈ t.sendTaskList ++ tasks) ∧ t'.Keeps P (live ++ tasks)
  requested : t'.requested = t.requested ++ msgs.map HmrMsg.frame
  ranges : RangeOrder ⟨t, 0⟩ → RangeOrder ⟨t', 0⟩

section SetPool

variable (g : CloseState) (s : Side) (pool : HmrMempool)

@[simp] theorem setPool_self :
    (g.setPool s pool).trans s = { g.trans s with normalMempool := some pool } :=
  setTrans_self ..

@[simp] theorem setPool_peer : (g.setPool s pool).trans s.peer = g.trans s.peer := setTrans_peer ..

/-- The pool is nothing to the rest of a transport. -/
theorem setPool_frame (u : Side) :
    ((g.setPool s pool).trans u).sendTaskList = (g.trans u).sendTaskList ∧
      ((g.setPool s pool).trans u).qp = (g.trans u).qp ∧
        ((g.setPool s pool).trans u).peerInfo = (g.trans u).peerInfo := by
  rcases s.eq_or_peer u with rfl | rfl
  · rw [setPool_self]
    exact ⟨rfl, rfl, rfl⟩
  · rw [setPool_peer]
    exact ⟨rfl, rfl, rfl⟩

end SetPool

section Requested

variable {o : Outcomes} {t t' u : HmrRdmaTransport} {msg : HmrMsg}

/-- What sends nothing requests nothing. -/
theorem requested_of_same (hlist : t'.sendTaskList = t.sendTaskList)
    (hlog : t'.qp.sendLog = t.qp.sendLog) : t'.requested = t.requested := by
  rw [HmrRdmaTransport.requested, hlist, hlog, HmrRdmaTransport.requested]

/-- A submitted message is requested last, unless it is an MR. -/
theorem SubmitResult.requested (h : SubmitResult o t msg t') :
    t'.requested = t.requested ++ (if msg.msgType = .mr then [] else [msg]).map HmrMsg.frame := by
  cases h with
  | queued pool _ htype =>
    rw [if_neg htype]
    simp only [HmrRdmaTransport.requested, HmrRdmaTransport.queued, HmrRdmaTransport.created,
      List.map_append, List.append_assoc]
    rfl
  | posted pool _ htype =>
    have hmr : (acceptedTask pool msg t.nextTask).frame.forApp = false := by
      have htask := (acceptedTask_encoded pool msg t.nextTask).taskType
      have htaskType : (acceptedTask pool msg t.nextTask).taskType = .mr :=
        HmrTaskType.ofMsgType_eq_mr.mpr htype
      simp [Frame.forApp, htask, htaskType]
    have hnone : appFrames [(acceptedTask pool msg t.nextTask).frame] = [] :=
      List.filter_cons_of_neg (by simp [hmr])
    rw [if_pos htype, List.map_nil, List.append_nil]
    simp only [HmrRdmaTransport.requested, HmrRdmaTransport.postedDirect,
      HmrRdmaTransport.ibvPostSend, HmrRdmaTransport.created, List.map_append, appFrames_append,
      List.map_singleton, directSendWr, hnone, List.append_nil]
  | dropped pool _ htype =>
    rw [if_pos htype, List.map_nil, List.append_nil]
    exact requested_of_same rfl rfl

/-- The MR is left out. -/
theorem SendResult.requested_mr {mr : IbvMr} {r : ℤ} (h : SendResult o t (mrMsg mr) r t') :
    t'.requested = t.requested := by
  cases h with
  | refused => rfl
  | submitted _ _ hsubmit =>
    have hrequested := hsubmit.requested
    rwa [if_pos (show (mrMsg mr).msgType = .mr from rfl), List.map_nil, List.append_nil]
      at hrequested

/-- The answer to a frame is requested last. -/
theorem RecvBody.requested {bytes : ℕ → UInt8} {taskType : HmrTaskType}
    (h : RecvBody o t bytes taskType u) :
    u.requested = t.requested ++ (closingAnswer t u).map HmrMsg.frame := by
  have hrespond (taskType : HmrTaskType) :
      (t.respond taskType (.decode bytes)).requested = t.requested :=
    requested_of_same (by simp) (by simp)
  have hquiet {u : HmrRdmaTransport} (hlist : u.sendTaskList = t.sendTaskList)
      (hsame : u.requested = t.requested) :
      u.requested = t.requested ++ (closingAnswer t u).map HmrMsg.frame := by
    rw [closingAnswer, hlist, if_neg (lt_irrefl _), List.map_nil, List.append_nil]
    exact hsame
  cases h with
  | firstMr pool r v _ _ hsend => exact hquiet hsend.list_mr hsend.requested_mr
  | laterMr => exact hquiet rfl rfl
  | finish r _ hsend =>
    cases hsend with
    | refused => exact hquiet (by simp) (hrespond .finish)
    | submitted _ _ hsubmit =>
      have htype : closingMsg.msgType ≠ .mr := by decide
      have hrequested := hsubmit.requested
      rw [hrespond, if_neg htype] at hrequested
      cases hsubmit with
      | queued pool =>
        rw [hrequested, closingAnswer, if_pos (by simp [HmrRdmaTransport.queued])]
      | posted _ _ hmr | dropped _ _ hmr => exact absurd hmr htype
  | done => exact hquiet (by simp) (hrespond .done)
  | plain => exact hquiet (by simp) (hrespond taskType)

/-- So it is behind the whole receive completion. -/
theorem recvComplete_requested {frame : Frame} {status : IbvWcStatus}
    (hstep : dataStep t (.recvComplete frame status o) = some t') :
    t'.requested = t.requested ++ (closingAnswer t t').map HmrMsg.frame := by
  cases dataStep_recvComplete hstep with
  | flushed =>
    have hnone : closingAnswer t t.pollRecv = [] := if_neg (lt_irrefl _)
    rw [hnone, List.map_nil, List.append_nil]
    rfl
  | received wr pool u _ _ _ hbody hrepost =>
    obtain ⟨hlist, -, -, hlog⟩ := hrepost.sends
    rw [requested_of_same hlist hlog, hbody.requested, closingAnswer, closingAnswer, hlist]
    rfl

/-- A tick that posts all or nothing keeps the order. -/
theorem TickResult.requested {a : Option ℕ} (h : TickResult t a t')
    (hlist : ∀ task ∈ t.sendTaskList, task.frame.forApp)
    (hclean : FlushesCleanly ⟨t, 0⟩ (.data (.tick a))) : t'.requested = t.requested := by
  cases h with
  | idle => rfl
  | flushed =>
    have hall : appFrames (t.sendTaskList.map HmrTask.frame) = t.sendTaskList.map HmrTask.frame :=
      List.filter_eq_self.mpr fun frame hframe => by
        obtain ⟨task, htask, rfl⟩ := List.mem_map.mp hframe
        exact hlist task htask
    have hchain : (sendChain t.peerInfo t.sendTaskList).map (fun wr => wr.wrId.frame) =
        t.sendTaskList.map HmrTask.frame := by
      rw [← sendChain_wrId t.peerInfo t.sendTaskList, List.map_map, sendChain_wrId]
      rfl
    simp only [HmrRdmaTransport.requested, HmrRdmaTransport.flushed, HmrRdmaTransport.ibvPostSend,
      List.map_append, appFrames_append, hchain, hall, List.map_nil, List.append_nil]
  | failed k hne =>
    obtain ⟨rfl, -⟩ := hclean.resolve_left hne
    exact requested_of_same rfl (List.append_nil _)

end Requested

section Ranges

variable {o : Outcomes} {t t' : HmrRdmaTransport}

/-- What posts no WRITE and leaves the cursor alone keeps the ranges in order. -/
theorem RangeOrder.of_writes (h : RangeOrder ⟨t, 0⟩) (hpeer : t'.peerInfo = t.peerInfo)
    (hwrites : t'.remoteWrites = t.remoteWrites) : RangeOrder ⟨t', 0⟩ :=
  h.of_same (by rw [writeTargets_eq, hwrites, writeTargets_eq]) hpeer

/-- So does a received frame, if no MR arrives behind a WRITE. -/
theorem RangeOrder.recvComplete {frame : Frame} (h : RangeOrder ⟨t, 0⟩) (hmatch : t.RecvsMatch)
    (hlen : sizeofMsgType ≤ frame.length)
    (hfirst : receivedType frame.byte = .mr → t.writeTargets = [])
    (hstep : dataStep t (.recvComplete frame .success o) = some t') : RangeOrder ⟨t', 0⟩ := by
  by_cases hmr : receivedType frame.byte = .mr
  · obtain ⟨addr, pool, u, -, hbody, hrepost⟩ := dataStep_received hmatch hlen hstep
    rw [hmr] at hbody
    have hwrites : t'.remoteWrites = t.remoteWrites := by
      rw [HmrRdmaTransport.remoteWrites, hrepost.sends.2.2.2]
      exact hbody.remoteWrites
    have hnil : t'.writeTargets = [] := by
      rw [writeTargets_eq, hwrites, ← writeTargets_eq, hfirst hmr]
    have hlearned : RangeOrder ⟨t', t'.writeTargets.length⟩ :=
      rangeOrder_learned (by rw [hrepost.peerInfo, hbody.cursor])
    rwa [hnil] at hlearned
  · have hafter : AfterExchange (.recvComplete frame .success o) := ⟨hlen, hmr⟩
    obtain ⟨hpeer, hwrites⟩ := afterExchange_frame hmatch hafter (by simp) hstep
    exact h.of_writes hpeer hwrites

/-- And a tick that flushes cleanly. -/
theorem RangeOrder.tick {a : Option ℕ} (h : RangeOrder ⟨t, 0⟩)
    (hclean : FlushesCleanly ⟨t, 0⟩ (.data (.tick a))) (htick : TickResult t a t') :
    RangeOrder ⟨t', 0⟩ := by
  cases htick with
  | idle => exact h
  | flushed => exact h.flush hclean
  | failed k hne =>
    obtain ⟨rfl, hbytes⟩ := hclean.resolve_left hne
    have hcursor : (fillSendWrs t.peerInfo 0 t.sendTaskList).2.usedNormalSize =
        t.peerInfo.usedNormalSize :=
      (rangeOrder_cursor h).trans ((cInt_add_eq_self h.cursor_int _).mpr hbytes)
    have hpeer : (t.flushFailed 0).peerInfo = t.peerInfo :=
      calc
        _ = HmrPeerInfo.mk (fillSendWrs t.peerInfo 0 t.sendTaskList).2.usedNormalSize
            (fillSendWrs t.peerInfo 0 t.sendTaskList).2.normalMr := rfl
        _ = t.peerInfo := by rw [hcursor, fillSendWrs_normalMr]
    have hlog : (t.flushFailed 0).qp.sendLog = t.qp.sendLog := List.append_nil _
    refine h.of_writes hpeer ?_
    rw [HmrRdmaTransport.remoteWrites, hlog, HmrRdmaTransport.remoteWrites]

end Ranges

section SideStep

variable {P : Holding} {ok : ℤ → List HmrTask → HmrMsg → Prop} {live : List HmrTask}
  {msgs : List HmrMsg} {g g' : CloseState} {s : Side} {t t' : HmrRdmaTransport}

/-- A side that nothing happens to. -/
theorem SideStep.refl (hkeeps : t.Keeps P live) : SideStep P live [] 0 t t :=
  ⟨⟨[], [], by simp, by simp, by simp, by simp, by rwa [List.append_nil]⟩, by simp, id⟩

/-- A side whose peer takes a frame off its wire. -/
theorem SideStep.wireTaken (hkeeps : t.Keeps P live) : SideStep P live [] 1 t t.wireTaken := by
  refine ⟨⟨[], [], by simp [HmrRdmaTransport.wireTaken], by simp [HmrRdmaTransport.wireTaken], ?_,
    by simp, ?_⟩, ?_, fun h => h.of_writes rfl rfl⟩
  · rw [List.filterMap_nil, List.append_nil, List.drop_one]
    rfl
  · rw [List.append_nil]
    exact hkeeps.of_same rfl (List.Subset.refl _) rfl
  · rw [List.map_nil, List.append_nil]
    rfl

/-- A side that sends. -/
theorem SideStep.of_sends
    (hsends : ∃ tasks, SendsNew t t' tasks ∧ t'.Keeps P (live ++ tasks))
    (hrequested : t'.requested = t.requested ++ msgs.map HmrMsg.frame)
    (hranges : RangeOrder ⟨t, 0⟩ → RangeOrder ⟨t', 0⟩) : SideStep P live msgs 0 t t' := by
  obtain ⟨tasks, hnew, hkeeps⟩ := hsends
  obtain ⟨chain, hlog, hwire, hchain⟩ := hnew.posts
  exact ⟨⟨tasks, chain, hnew.list, hlog, hwire, fun wr hwr => (hchain wr hwr).1, hkeeps⟩,
    hrequested, hranges⟩

/-- A side that sends nothing. -/
theorem SideStep.silent (hsends : t'.sendTaskList = t.sendTaskList ∧ t'.qp.underWay = t.qp.underWay ∧
      t'.qp.sendLog = t.qp.sendLog) (hpeer : t'.peerInfo = t.peerInfo)
    (hkeeps : t'.Keeps P live) : SideStep P live [] 0 t t' := by
  obtain ⟨hlist, hwire, hlog⟩ := hsends
  refine .of_sends ⟨[], .of_same hlist hwire hlog, by rwa [List.append_nil]⟩ ?_ fun h => ?_
  · rw [requested_of_same hlist hlog, List.map_nil, List.append_nil]
  · refine h.of_writes hpeer ?_
    rw [HmrRdmaTransport.remoteWrites, hlog, HmrRdmaTransport.remoteWrites]

/-- The side of an event. -/
theorem SideStep.self {taken : ℕ} (hself : g'.trans s = t)
    (h : SideStep P live msgs taken (g.trans s) t) :
    SideStep P live msgs taken (g.trans s) (g'.trans s) :=
  hself ▸ h

/-- The other side of an event that delivers and takes nothing. -/
theorem SideStep.peer {e : CloseEvent} {r : Side} (hkeeps : (g.trans r.peer).Keeps P live)
    (hsame : g'.trans r.peer = g.trans r.peer) (hnew : g.newMessages g' e r.peer = [])
    (htakes : e.takes r.peer = 0) :
    SideStep P live (g.newMessages g' e r.peer) (e.takes r.peer) (g.trans r.peer)
      (g'.trans r.peer) := by
  rw [hsame, hnew, htakes]
  exact .refl hkeeps

variable {o : Outcomes}

/-- The events that poll and submit nothing. -/
theorem SideStep.other {e : ConnectionEvent} {conn : Connection} (hkeptIf : P.KeptIf ok)
    (hinv : DeliveryInv InRing g) (hfresh : (g.trans s).normalMempool = none → ∀ memory, P memory 0 [])
    (hkeeps : (g.trans s).Keeps P live) (he : e.Unpolled)
    (hok : ∀ msg, g.encodes (.conn e) = some (s, msg) → (g.trans s).Takes ok live msg)
    (hwrites : WritesOn g (.conn e)) (hresult : ConnectionResult g.conn e conn) :
    SideStep P live [] 0 (g.trans s) (conn.trans s) := by
  cases hresult with
  | established r o t _ hhandler =>
    rcases r.eq_or_peer s with rfl | rfl
    · rw [setEnd_self]
      have hkept : HmrRdmaTransport.Keeps P { g.trans s with transState := .connected } live :=
        hkeeps.of_same rfl (List.Subset.refl _) rfl
      rcases onCmEstablished_cases hhandler with ⟨-, rfl⟩ | ⟨hclient, pool, r, hpool, hsend⟩
      · exact .silent ⟨rfl, rfl, rfl⟩ rfl hkept
      · have hmr : (g.trans s).ownMr = some pool.rdmaMr :=
          congrArg (Option.map HmrMempool.rdmaMr) hpool
        obtain ⟨tasks, hnew, hkeeps'⟩ := hsend.keeps hkeptIf hkept
          (hok (mrMsg pool.rdmaMr) (encodes_established hclient hmr))
        refine .of_sends ⟨tasks, ⟨hnew.list, hnew.posts⟩, hkeeps'⟩ ?_ fun h =>
          h.of_writes hsend.peerInfo hsend.remoteWrites
        rw [List.map_nil, List.append_nil]
        exact hsend.requested_mr
    · rw [setEnd_peer]
      exact .refl hkeeps
  | tick r a t hdata =>
    rcases r.eq_or_peer s with rfl | rfl
    · rw [setTrans_self]
      have hresult := dataStep_tick hdata
      have hlist : ∀ task ∈ (g.trans s).sendTaskList, task.frame.forApp := fun task htask => by
        obtain ⟨hencoded, hmr⟩ := (hinv.flow s).queued task htask
        simpa [Frame.forApp, hencoded.taskType] using hmr
      refine .of_sends ⟨[], hresult.sendsNew, ?_⟩ ?_ fun h => h.tick hwrites hresult
      · rw [List.append_nil]
        exact hresult.keeps hkeeps
      · rw [List.map_nil, List.append_nil]
        exact hresult.requested hlist hwrites
    · rw [setTrans_peer]
      exact .refl hkeeps
  | check r msg =>
    rcases r.eq_or_peer s with rfl | rfl
    · rw [setEnd_self]
      exact .refl hkeeps
    · rw [setEnd_peer]
      exact .refl hkeeps
  | accept => exact .refl hkeeps
  | acceptConnecting =>
    rcases Side.server.eq_or_peer s with rfl | rfl
    · exact .silent ⟨rfl, rfl, rfl⟩ rfl (hkeeps.of_same rfl (List.Subset.refl _) rfl)
    · exact .refl hkeeps
  | acceptMempool m hphase =>
    rcases Side.server.eq_or_peer s with rfl | rfl
    · have hnone : (g.trans .server).normalMempool = none :=
        Option.map_eq_none_iff.mp (hinv.unbacked fun left => by simp [hphase])
      have hlive := hkeeps.unbacked hnone
      subst hlive
      refine .silent ⟨rfl, rfl, rfl⟩ rfl ⟨hkeeps.recvSize, hkeeps.recvs, fun _ => rfl,
        fun pool hpool => ?_, fun pool hpool => ?_⟩
      · rw [(hmrMempoolCreate_eq_some hpool).2.1]
        decide
      · rw [(hmrMempoolCreate_eq_some hpool).1]
        exact hfresh hnone _
    · exact .refl hkeeps
  | acceptPost o left t _ hpost =>
    rcases Side.server.eq_or_peer s with rfl | rfl
    · obtain ⟨hlist, -, hwire, hlog⟩ := hpost.sends
      exact .silent ⟨hlist, hwire, hlog⟩ hpost.peerInfo (hpost.keeps hkeeps)
    · exact .refl hkeeps
  | _ => exact he.elim

/-- What an event that delivers nothing did to either side. -/
theorem closeStep_side {e : CloseEvent} (hkeptIf : P.KeptIf ok) (hinv : DeliveryInv InRing g)
    (hfresh : (g.trans s).normalMempool = none → ∀ memory, P memory 0 [])
    (hkeeps : (g.trans s).Keeps P live) (hdeliver : ∀ r, e ≠ .deliver r)
    (hok : ∀ msg, g.encodes e = some (s, msg) → (g.trans s).Takes ok live msg)
    (hwrites : WritesOn g e) (hstep : closeStep g e = some g') :
    SideStep P live (g.newMessages g' e s) (e.takes s) (g.trans s) (g'.trans s) := by
  cases closeStep_cases hstep with
  | received r o frame rest t hinbox hdata =>
    rcases r.eq_or_peer s with rfl | rfl
    · have hself : (g.polled s rest t).trans s = t := polled_trans_self ..
      have hnew : g.newMessages (g.polled s rest t) (.conn (.recvComplete s o)) s =
          closingAnswer (g.trans s) t := by
        rw [CloseState.newMessages, if_pos rfl, hself]
      have htakes : CloseEvent.takes s (.conn (.recvComplete s o)) = 0 := if_neg s.peer_ne.symm
      change SideStep P live (g.newMessages (g.polled s rest t) _ s) _ _ ((g.polled s rest t).trans s)
      rw [hnew, htakes, hself]
      have hflow := hinv.flow s.peer
      rw [Side.peer_peer, hinbox] at hflow
      obtain ⟨encoded, -, -, hcarries, hlen⟩ := hflow.first
      have hlen : sizeofMsgType ≤ frame.length := hcarries.length ▸ hlen
      have hfits := hinv.fits s
      rw [hinbox] at hfits
      exact .of_sends (recvComplete_keeps hkeptIf hkeeps (hinv.recvs s) (fun _ => hlen)
        (fun _ => hfits.head.1) (fun _ msg hanswer => hok msg (encodes_received hinbox hanswer)) hdata)
        (recvComplete_requested hdata) fun h =>
          h.recvComplete (hinv.recvs s) hlen (hwrites frame (by rw [hinbox]; rfl)) hdata
    · have hpeer : (g.polled r rest t).trans r.peer = (g.trans r.peer).wireTaken :=
        polled_trans_peer ..
      have hnew : g.newMessages (g.polled r rest t) (.conn (.recvComplete r o)) r.peer = [] :=
        if_neg r.peer_ne
      have htakes : CloseEvent.takes r.peer (.conn (.recvComplete r o)) = 1 :=
        if_pos r.peer_peer.symm
      change SideStep P live (g.newMessages (g.polled r rest t) _ r.peer) _ _
        ((g.polled r rest t).trans r.peer)
      rw [hnew, htakes, hpeer]
      exact .wireTaken hkeeps
  | recvFailed r status o t hstatus hdata =>
    rcases r.eq_or_peer s with rfl | rfl
    · cases dataStep_recvComplete hdata with
      | flushed =>
        exact .self (setTrans_self ..)
          (.silent ⟨rfl, rfl, rfl⟩ rfl (hkeeps.of_same rfl (List.tail_subset _) rfl))
      | received => exact absurd rfl hstatus
    · exact .peer hkeeps (setTrans_peer ..) rfl rfl
  | sent r i status o t _ hdata =>
    rcases r.eq_or_peer s with rfl | rfl
    · obtain ⟨hpool, hlist, hpeer, hqp⟩ := dataStep_sendComplete_frame hdata
      have hsize : t.defaultRecvSize = (g.trans s).defaultRecvSize := by
        obtain ⟨wr, -, rfl⟩ := dataStep_sendComplete hdata
        split
        · exact sendCompleted_preserves _ _ _ (fun _ => rfl) (fun _ => rfl) fun _ => rfl
        · rfl
      refine .self (setTrans_self ..) (.silent ⟨hlist, by rw [hqp]; rfl, by rw [hqp]; rfl⟩ hpeer
        (hkeeps.of_same hsize ?_ hpool))
      rw [hqp]
      exact List.Subset.refl _
    · exact .peer hkeeps (setTrans_peer ..) rfl rfl
  | submitted r i o msg t hmsg hsubmit =>
    rcases r.eq_or_peer s with rfl | rfl
    · have hok' := hok msg (by rw [CloseState.encodes, hmsg, Option.map_some])
      refine .self (setEnd_self ..) (.of_sends (hsubmit.keeps hkeptIf hkeeps hok') ?_ fun h =>
        h.of_writes hsubmit.peerInfo hsubmit.remoteWrites)
      rw [hsubmit.requested, CloseState.newMessages, if_pos rfl, hmsg]
      by_cases htype : msg.msgType = .mr <;> simp [htype]
    · exact .peer hkeeps (setEnd_peer ..) (if_neg r.peer_ne) rfl
  | other e conn he hresult =>
    have htakes : CloseEvent.takes s (.conn e) = 0 := by
      cases e <;> first | rfl | exact he.elim
    rw [newMessages_unpolled he, htakes]
    exact .other hkeptIf hinv hfresh hkeeps he hok hwrites hresult
  | delivered r => exact absurd rfl (hdeliver r)
  | disconnected r t _ hhandler =>
    rcases r.eq_or_peer s with rfl | rfl
    · have hkept := hkeeps.disconnected hhandler
      obtain rfl := onCmDisconnected_eq hhandler
      exact .self (setTrans_self ..) (.silent ⟨rfl, rfl, rfl⟩ rfl hkept)
    · exact .peer hkeeps (setTrans_peer ..) rfl rfl
  | respSet r =>
    rcases r.eq_or_peer s with rfl | rfl
    · exact .self (setTrans_self ..)
        (.silent ⟨rfl, rfl, rfl⟩ rfl (hkeeps.of_same rfl (List.Subset.refl _) rfl))
    · exact .peer hkeeps (setTrans_peer ..) rfl rfl

/-- The pool keeps what the HCA has still to read of the tasks it had before and the new ones. -/
theorem SideStep.keeps {r : FabricState} {taken : ℕ} (hkeptIf : P.KeptIf ok)
    (h : SideStep P (r.pending s) msgs taken (r.close.trans s) t)
    (hcarried : r.carried s ≤ (r.close.trans s).qp.sendLog.length) :
    t.Keeps P (t.sendTaskList ++ (t.qp.sendLog.drop (r.carried s)).map IbvSendWr.wrId) := by
  obtain ⟨tasks, chain, hlist, hchain, -, hposts, hkeeps⟩ := h.sends
  refine hkeeps.mono hkeptIf ?_
  rw [hchain, List.drop_append_of_le_length hcarried, List.map_append]
  have hnew : (r.close.trans s).sendTaskList ++ tasks ⊆ r.pending s ++ tasks :=
    List.append_subset.mpr ⟨List.subset_append_of_subset_left _ (List.subset_append_left _ _),
      List.subset_append_right _ _⟩
  refine List.append_subset.mpr ⟨List.Subset.trans hlist hnew, List.append_subset.mpr ⟨?_, ?_⟩⟩
  · exact List.subset_append_of_subset_left _ (List.subset_append_right _ _)
  · intro task htask
    obtain ⟨wr, hwr, rfl⟩ := List.mem_map.mp htask
    exact hnew (hposts wr hwr)

/-- A request carried out leaves no more to be read. -/
theorem carry_pending {r : FabricState} (u : Side)
    (hsame : (g.trans u).sendTaskList = (r.close.trans u).sendTaskList ∧
      (g.trans u).qp = (r.close.trans u).qp) : (r.carry s g).pending u ⊆ r.pending u := by
  change (g.trans u).sendTaskList ++ ((g.trans u).qp.sendLog.drop _).map IbvSendWr.wrId ⊆ _
  rw [hsame.1, hsame.2]
  refine List.append_subset.mpr ⟨List.subset_append_left _ _, ?_⟩
  refine List.subset_append_of_subset_right _ (List.map_subset _ (List.drop_subset_drop_left _ ?_))
  change r.carried u ≤ Function.update r.carried s (r.carried s + 1) u
  rcases s.eq_or_peer u with rfl | rfl
  · rw [Function.update_self]
    exact Nat.le_succ _
  · rw [Function.update_of_ne s.peer_ne]

/-- Memory that holds another property lets the pool keep that one. -/
theorem HmrRdmaTransport.Keeps.setMemory {Q : Holding} {pool : HmrMempool} {memory : Memory}
    (h : t.Keeps P live) (hpool : t.normalMempool = some pool)
    (hheld : P pool.memory pool.usedSendRegion live → Q memory pool.usedSendRegion live) :
    HmrRdmaTransport.Keeps Q { t with normalMempool := some { pool with memory := memory } } live := by
  refine ⟨h.recvSize, h.recvs, fun hnone => by contradiction, fun pool' hpool' => ?_,
    fun pool' hpool' => ?_⟩
  · obtain rfl := Option.some.inj hpool'
    exact h.recvCursor pool hpool
  · obtain rfl := Option.some.inj hpool'
    exact hheld (h.held pool hpool)

end SideStep

/-- The SEND requests whose frames have reached the peer. -/
def CloseState.arrived (g : CloseState) (s : Side) : ℕ := (g.trans s).sends.length - g.undelivered s

section Arrived

variable {P : Holding} {live : List HmrTask} {msgs : List HmrMsg} {g g' : CloseState} {s : Side}
  {accepted : List HmrMsg} {t : HmrRdmaTransport} {inbox : List Frame} {responses : List HmrMsg}

/-- There is a SEND request for each frame on the wire. -/
theorem MessageFlow.wire_le (h : MessageFlow accepted t inbox responses) :
    t.qp.encoded.length ≤ t.sends.length := by
  obtain ⟨taken, hsent, -⟩ := h.encoded
  have hlength := congrArg List.length (sends_frames t)
  rw [hsent, List.length_map, List.length_append] at hlength
  omega

/-- An event that delivers nothing takes frames off the completion queue of the one side whose
receive completes. -/
theorem closeStep_inbox {e : CloseEvent} (hdeliver : ∀ r, e ≠ .deliver r)
    (hstep : closeStep g e = some g') :
    g'.inbox s.peer = (g.inbox s.peer).drop (e.takes s) ∧
      e.takes s ≤ (g.inbox s.peer).length := by
  cases closeStep_cases hstep with
  | received r o frame rest t hinbox =>
    rcases s.peer.eq_or_peer r with rfl | rfl
    · have htakes : CloseEvent.takes s (.conn (.recvComplete s.peer o)) = 1 := if_pos rfl
      rw [htakes, hinbox, List.drop_one, List.tail_cons, List.length_cons]
      exact ⟨Function.update_self .., Nat.le_add_left _ _⟩
    · rw [Side.peer_peer]
      have htakes : CloseEvent.takes s (.conn (.recvComplete s o)) = 0 := if_neg s.peer_ne.symm
      rw [htakes, List.drop_zero]
      exact ⟨Function.update_of_ne s.peer_ne .., Nat.zero_le _⟩
  | other e conn he =>
    have htakes : CloseEvent.takes s (.conn e) = 0 := by
      cases e <;> first | rfl | exact he.elim
    rw [htakes]
    exact ⟨rfl, Nat.zero_le _⟩
  | delivered r => exact absurd rfl (hdeliver r)
  | recvFailed | sent | submitted | disconnected | respSet => exact ⟨rfl, Nat.zero_le _⟩

/-- So as many of a side's requests have reached the peer as before. -/
theorem SideStep.arrived {taken : ℕ} (h : SideStep P live msgs taken (g.trans s) (g'.trans s))
    (hflow : MessageFlow accepted (g.trans s) (g.inbox s.peer) responses)
    (hinbox : g'.inbox s.peer = (g.inbox s.peer).drop taken ∧
      taken ≤ (g.inbox s.peer).length) : g'.arrived s = g.arrived s := by
  obtain ⟨tasks, chain, -, hlog, hwire, -⟩ := h.sends
  have hsends : (g'.trans s).sends.length =
      (g.trans s).sends.length + chain.countP fun wr => wr.opcode = .send := by
    simp only [HmrRdmaTransport.sends, hlog, List.filter_append, List.length_append,
      List.countP_eq_length_filter]
  have hlength : (g'.trans s).qp.encoded.length =
      (g.trans s).qp.encoded.length - taken + chain.countP fun wr => wr.opcode = .send := by
    rw [hwire, List.length_append, List.length_drop, length_encodedFrames]
  have hrest : (g'.inbox s.peer).length = (g.inbox s.peer).length - taken := by
    rw [hinbox.1, List.length_drop]
  have hinboxLe := hflow.inbox_le
  have hwireLe := hflow.wire_le
  have htaken := hinbox.2
  rw [CloseState.arrived, CloseState.undelivered, hsends, hlength, hrest, CloseState.arrived,
    CloseState.undelivered]
  omega

/-- A WRITE is no arrival. -/
theorem setPool_arrived (g : CloseState) (s : Side) (pool : HmrMempool) (u : Side) :
    (g.setPool s pool).arrived u = g.arrived u := by
  have hinbox : (g.setPool s pool).inbox = g.inbox := rfl
  simp only [CloseState.arrived, CloseState.undelivered, HmrRdmaTransport.sends,
    (setPool_frame g s pool u).2.1, hinbox]

end Arrived

end HmrRpc
