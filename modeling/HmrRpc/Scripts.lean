import HmrRpc.SendBudget
import HmrRpc.RemoteRegion
import HmrRpc.StateOrder

/-!
# Programs that send from a script

The main programs of client and server call `hmr_rdma_send` from one thread, one message of a fixed
list after the other, and leave everything else to the event thread. Nothing then wraps around if
the list of each side, the MRs it announces and its answers to FINISH fit its send region: no buffer
is encoded over before the HCA has read it, no cursor overflows, and no message is refused. So the
messages of a script arrive in their order with their bytes, and each WRITE ahead of the message
behind it, in every run in which a failing post accepts nothing and leaves the cursor where it was,
and `process_resp` is set by the time a message for it is handled.
-/

namespace HmrRpc

open Common

/-- The two parties with their HCAs, and how many messages of its script each program has taken. -/
structure ProgramState where
  fabric : FabricState
  taken : Side → ℕ

/-- An event of the parties, or a program calling `hmr_rdma_send` with its next message. -/
inductive ProgramEvent
  | fabric (e : FabricEvent)
  | next (s : Side)

namespace ProgramState

variable (script : Side → List HmrMsg) (p : ProgramState) (s : Side)

/-- The side's program is between two calls. The server's starts behind `hmr_rdma_accept` and the
setting of `process_resp`. -/
def Sending : Prop :=
  (p.fabric.close.conn.ends s).checked = [] ∧
    (s = .server → p.fabric.close.conn.accept = .posting 0 ∧ (p.fabric.close.trans s).processResp)

instance : Decidable (p.Sending s) := inferInstanceAs (Decidable (_ ∧ _))

/-- The bytes of the send region the side may still need. -/
def room : ℕ :=
  p.fabric.close.reserve s (countOf .finish (script s.peer)) +
    (((script s).drop (p.taken s)).map HmrMsg.encodedLength).sum

/-- Every message a program has taken from its script has been accepted, in order, but the one that
`hmr_rdma_send` is at work on. -/
def Follows : Prop :=
  ∀ s, (p.fabric.submitted s).filter (·.msgType ≠ .done) ++
    (p.fabric.close.conn.ends s).checked = (script s).take (p.taken s)

/-- Neither party has done anything. -/
structure Starts : Prop where
  fabric : p.fabric.Starts
  taken : ∀ s, p.taken s = 0
  cursor : ∀ s pool, (p.fabric.close.trans s).normalMempool = some pool → pool.usedSendRegion = 0

/-- A failing post accepts nothing and leaves the cursor where it was, and a message is handled with
`process_resp` set. -/
def Smooth : ProgramEvent → Prop
  | .fabric (.close (.conn (.tick s (some k)))) =>
    FlushesCleanly ⟨p.fabric.close.trans s, 0⟩ (.data (.tick (some k)))
  | .fabric (.close (.conn (.recvComplete s o))) =>
    Attentive p.fabric.close (.conn (.recvComplete s o))
  | _ => True

instance : (e : ProgramEvent) → Decidable (p.Smooth e)
  | .fabric (.close (.conn (.tick s (some k)))) =>
    decidable_of_iff ((p.fabric.close.trans s).sendTaskList.isEmpty ∨
      AcceptsNothing (p.fabric.close.trans s) k) (or_congr_left List.isEmpty_iff)
  | .fabric (.close (.conn (.recvComplete s o))) =>
    inferInstanceAs (Decidable (Attentive p.fabric.close (.conn (.recvComplete s o))))
  | .fabric (.close (.conn (.established ..))) | .fabric (.close (.conn (.sendComplete ..)))
  | .fabric (.close (.conn (.recvFail ..))) | .fabric (.close (.conn (.tick _ none)))
  | .fabric (.close (.conn (.check ..))) | .fabric (.close (.conn (.submit ..)))
  | .fabric (.close (.conn .accept)) | .fabric (.close (.conn .acceptConnecting))
  | .fabric (.close (.conn (.acceptMempool _))) | .fabric (.close (.conn (.acceptPost _)))
  | .fabric (.close (.deliver _)) | .fabric (.close (.disconnected _))
  | .fabric (.close (.setProcessResp _)) | .fabric (.write _) | .next _ => isTrue trivial

end ProgramState

/-- One event of the programs. Only the scripts call `hmr_rdma_send`, and only the server sets
`process_resp`, once `hmr_rdma_accept` has returned. -/
def programStep (script : Side → List HmrMsg) (p : ProgramState) : ProgramEvent → Option ProgramState
  | .fabric (.close (.conn (.check _ _))) => none
  | .fabric (.close (.setProcessResp .client)) => none
  | .fabric (.close (.setProcessResp .server)) =>
    if p.fabric.close.conn.accept = .posting 0 then
      (fabricStep p.fabric (.close (.setProcessResp .server))).map fun r => { p with fabric := r }
    else none
  | .fabric e => (fabricStep p.fabric e).map fun r => { p with fabric := r }
  | .next s =>
    if p.Sending s then
      (script s)[p.taken s]?.bind fun msg =>
        (hmrMsgCheck (p.fabric.close.trans s) msg).toOption.bind fun err =>
          -- a refused message is not sent again
          (if err = 0 then fabricStep p.fabric (.close (.conn (.check s msg)))
            else some p.fabric).map fun r => ⟨r, Function.update p.taken s (p.taken s + 1)⟩
    else none

/-- The MRs a side may announce over its life. -/
def mrsAllowed : Side → ℕ
  | .client => 2
  | .server => 1

/-- The scripts leave MRs and DONEs to the program, read nothing from the peer, only the client's
writes, and what a side may encode fits its send region. -/
structure Fits (script : Side → List HmrMsg) : Prop where
  kind : ∀ s, ∀ msg ∈ script s, (msg.TwoSided ∧ msg.msgType ≠ .done) ∨
    (s = .client ∧ msg.msgType = .write)
  size : ∀ s, ∀ msg ∈ script s, 0 ≤ msg.dataSize.toInt
  room : ∀ s, ((mrLength * mrsAllowed s +
    closingMsg.encodedLength * countOf .finish (script s.peer) +
      ((script s).map HmrMsg.encodedLength).sum : ℕ) : ℤ) ≤ allocMemSize

/-- What is left of the budget is kept free, and what has been submitted is what has been taken. -/
structure ProgramInv (script : Side → List HmrMsg) (p : ProgramState) : Prop where
  fabric : FabricInv p.fabric
  room : ∀ s, (p.room script s : ℤ) ≤ allocMemSize
  kept : ∀ s, (p.fabric.close.trans s).Keeps (BehindCursor (allocMemSize - p.room script s))
    (p.fabric.pending s)
  accepted : ∀ s, p.fabric.close.accepted s = (p.fabric.submitted s).filter (·.TwoSided)
  order : p.Follows script
  single : ∀ s, (p.fabric.close.conn.ends s).checked.length ≤ 1
  mrs : ∀ s, p.fabric.close.mrTotal s ≤ mrsAllowed s
  unraised : p.fabric.close.Unraised
  ready : ∀ s, (p.fabric.close.trans s).UpTo .rconnected

section Parties

variable {g g' : CloseState} {s : Side} {o : Outcomes}

/-- The two-sided messages accepted are those of the messages accepted. -/
theorem closeStep_accepted {e : CloseEvent} (hstep : closeStep g e = some g') :
    g'.accepted s = g.accepted s ++ (g.newMessages g' e s).filter (·.TwoSided) := by
  have hnone {accepted : List HmrMsg} : accepted = accepted ++ ([] : List HmrMsg).filter (·.TwoSided) :=
    (List.append_nil _).symm
  cases closeStep_cases hstep with
  | received r o frame rest t hinbox hdata =>
    have hself : (g.polled r rest t).trans r = t := polled_trans_self ..
    have hanswer : (closingAnswer (g.trans r) t).filter (·.TwoSided) =
        closingAnswer (g.trans r) t := by
      rcases closingAnswer_cases (g.trans r) t with hanswer | hanswer <;> rw [hanswer] <;> rfl
    change (g.polled r rest t).accepted s = _ ++ (g.newMessages (g.polled r rest t) _ s).filter _
    rcases r.eq_or_peer s with rfl | rfl
    · rw [CloseState.newMessages, if_pos rfl, hself, hanswer]
      exact Function.update_self ..
    · rw [CloseState.newMessages, if_neg r.peer_ne]
      exact (Function.update_of_ne r.peer_ne ..).trans hnone
  | submitted r i o msg t hmsg =>
    rcases r.eq_or_peer s with rfl | rfl
    · have hnew : ([msg].filter (·.msgType ≠ .mr)).filter (·.TwoSided) =
          if msg.TwoSided then [msg] else [] := by
        rw [List.filter_filter, List.filter_singleton]
        by_cases htwo : msg.TwoSided
        · simp [htwo, htwo.1]
        · simp [htwo]
      rw [CloseState.newMessages, if_pos rfl, hmsg]
      exact (Function.update_self ..).trans (congrArg _ hnew.symm)
    · rw [CloseState.newMessages, if_neg r.peer_ne]
      exact (Function.update_of_ne r.peer_ne ..).trans hnone
  | other e conn he =>
    rw [newMessages_unpolled he]
    exact hnone
  | recvFailed | sent | delivered | disconnected | respSet => exact hnone

/-- A single checked message is submitted whole, and what the program answers is a DONE. -/
theorem closeStep_checked {e : CloseEvent} (hsingle : (g.conn.ends s).checked.length ≤ 1)
    (hkind : ∀ msg ∈ (g.conn.ends s).checked, msg.msgType ≠ .mr ∧ msg.msgType ≠ .done)
    (hcheck : ∀ r msg, e ≠ .conn (.check r msg)) (hstep : closeStep g e = some g') :
    (g.newMessages g' e s).filter (·.msgType ≠ .done) ++ (g'.conn.ends s).checked =
      (g.conn.ends s).checked := by
  have hsame {r : Side} (t : HmrRdmaTransport) :
      ((g.conn.setTrans r t).ends s).checked = (g.conn.ends s).checked := by
    cases r <;> cases s <;> rfl
  cases closeStep_cases hstep with
  | received r o frame rest t hinbox hdata =>
    have hself : (g.polled r rest t).trans r = t := polled_trans_self ..
    have hanswer : (closingAnswer (g.trans r) t).filter (·.msgType ≠ .done) = [] := by
      rcases closingAnswer_cases (g.trans r) t with hanswer | hanswer <;> rw [hanswer] <;> rfl
    change (g.newMessages (g.polled r rest t) _ s).filter _ ++
      ((g.polled r rest t).conn.ends s).checked = _
    rcases r.eq_or_peer s with rfl | rfl
    · rw [CloseState.newMessages, if_pos rfl, hself, hanswer]
      exact polled_checked
    · rw [CloseState.newMessages, if_neg r.peer_ne]
      exact polled_quiet.checked
  | submitted r i o msg t hmsg =>
    rcases r.eq_or_peer s with rfl | rfl
    · obtain ⟨hi, rfl⟩ := List.getElem?_eq_some_iff.mp hmsg
      obtain rfl : i = 0 := by omega
      obtain ⟨msg, hchecked⟩ := List.length_eq_one_iff.mp (Nat.le_antisymm hsingle hi)
      obtain ⟨hmr, hdone⟩ := hkind msg (by rw [hchecked]; exact .head _)
      rw [CloseState.newMessages, if_pos rfl, hmsg, setEnd_ends_self]
      simp [hchecked, hmr, hdone]
    · rw [CloseState.newMessages, if_neg r.peer_ne, setEnd_ends_peer]
      rfl
  | other e conn he hresult =>
    rw [newMessages_unpolled he]
    cases hresult with
    | established r => cases r <;> cases s <;> rfl
    | check r msg => exact absurd rfl (hcheck r msg)
    | accept => rfl
    | tick | acceptConnecting | acceptMempool | acceptPost => exact hsame _
    | _ => exact he.elim
  | delivered => rfl
  | recvFailed | sent | disconnected | respSet => exact hsame _

/-- A side of an event keeps to RCONNECTED if its transport does. -/
theorem setEnd_upTo {r : Side} {e : Endpoint} (h : ∀ u, (g.trans u).UpTo .rconnected)
    (he : e.trans.UpTo .rconnected) : ((g.conn.setEnd r e).trans s).UpTo .rconnected := by
  rcases r.eq_or_peer s with rfl | rfl
  · rwa [setEnd_self]
  · rw [setEnd_peer]
    exact h r.peer

/-- No event brings a transport past RCONNECTED. -/
theorem closeStep_upTo {e : CloseEvent} (h : ∀ r, (g.trans r).UpTo .rconnected)
    (hinv : DeliveryInv InRing g) (hstep : closeStep g e = some g') :
    (g'.trans s).UpTo .rconnected := by
  have hstate {t : HmrRdmaTransport} {r : Side} (hsame : t.transState = (g.trans r).transState) :
      t.UpTo .rconnected := by
    rw [HmrRdmaTransport.UpTo, hsame]
    exact h r
  cases closeStep_cases hstep with
  | received r o frame rest t hinbox hdata =>
    have hflow := hinv.flow r.peer
    rw [Side.peer_peer, hinbox] at hflow
    obtain ⟨encoded, -, -, hcarries, hlen⟩ := hflow.first
    obtain ⟨-, hafter⟩ := recvComplete_state (hinv.recvs r) (hcarries.length ▸ hlen) hdata
    change ((g.polled r rest t).trans s).UpTo .rconnected
    rcases r.eq_or_peer s with rfl | rfl
    · rw [polled_trans_self, HmrRdmaTransport.UpTo, hafter]
      split
      · exact le_rfl
      · exact h s
    · rw [polled_trans_peer]
      exact h r.peer
  | recvFailed r status o t hstatus hdata =>
    cases dataStep_recvComplete hdata with
    | flushed => exact setEnd_upTo h (hstate rfl)
    | received => exact absurd rfl hstatus
  | sent r i status o t _ hdata =>
    obtain ⟨-, -, hsame | ⟨-, hsent⟩⟩ := dataStep_sendComplete_state hdata
    · exact setEnd_upTo h (hstate hsame)
    · refine setEnd_upTo h ?_
      rw [HmrRdmaTransport.UpTo, hsent]
      decide
  | submitted r i o msg t hmsg hsubmit => exact setEnd_upTo h (hstate hsubmit.transState)
  | other e conn he hresult =>
    cases hresult with
    | established r o t _ hhandler =>
      obtain ⟨hconnected, -⟩ := onCmEstablished_frame hhandler
      refine setEnd_upTo h ?_
      rw [HmrRdmaTransport.UpTo, hconnected]
      decide
    | tick r a t hdata =>
      refine setEnd_upTo h (hstate (r := r) ?_)
      cases dataStep_tick hdata <;> rfl
    | check r msg => exact setEnd_upTo h (h r)
    | accept => exact h s
    | acceptConnecting => exact setEnd_upTo (r := .server) h (by decide : 2 ≤ 5)
    | acceptMempool m => exact setEnd_upTo (r := .server) h (h .server)
    | acceptPost o left t _ hpost => exact setEnd_upTo (r := .server) h (hstate hpost.transState)
    | _ => exact he.elim
  | delivered => exact h s
  | disconnected r t _ hhandler =>
    obtain rfl := onCmDisconnected_eq hhandler
    exact setEnd_upTo h (h r)
  | respSet r => exact setEnd_upTo h (h r)

/-- Another pool announces no MR. -/
theorem setPool_mrTotal (u : Side) (pool : HmrMempool) :
    (g.setPool u pool).mrTotal s ≤ g.mrTotal s := by
  have hposts : PostsMrs 0 (g.trans u) { g.trans u with normalMempool := some pool } :=
    .of_same ⟨rfl, rfl, rfl⟩
  exact setEnd_mrTotal g.accepted rfl rfl id hposts rfl

/-- It needs no bytes. -/
theorem setPool_reserve (u : Side) (pool : HmrMempool) {finishes : ℕ} :
    (g.setPool u pool).reserve s finishes ≤ g.reserve s finishes := by
  have hquiet : SideQuiet g (g.setPool u pool) s := by
    rcases u.eq_or_peer s with rfl | rfl
    · refine SideQuiet.setTrans ?_ ?_ ?_
      · rfl
      · exact id
      · exact List.prefix_rfl
    · exact .of_ends (Function.update_of_ne u.peer_ne ..)
  exact hquiet.reserve

end Parties

section Writes

variable {r : FabricState} {s : Side}

/-- Requests posted with the lengths of their frames write those of the WRITEs among them. -/
theorem extent_filled {chain : List IbvSendWr} (h : ∀ wr ∈ chain,
      wr.Filled ∧ wr.wrId.Encoded ∧ wr.wrId.ibvSge.length = wr.wrId.frame.length) :
    extent (chain.filterMap IbvSendWr.target) =
      ((writeFrames (chain.map fun wr => wr.wrId.frame)).map Frame.length).sum := by
  induction chain with
  | nil => rfl
  | cons wr rest ih =>
    obtain ⟨hfilled, hencoded, hlength⟩ := h wr (.head _)
    have hhead := hfilled.written hencoded fun _ => (congrArg _ hfilled.1).trans hlength
    have hrest := ih fun wr hwr => h wr (.tail _ hwr)
    rw [← List.singleton_append, List.filterMap_append, extent_append, hhead, hrest, List.map_append,
      writeFrames_append, List.map_append, List.sum_append]
    rfl

/-- So do tasks on the list once they are posted. -/
theorem writeBytes_eq {tasks : List HmrTask}
    (h : ∀ task ∈ tasks, task.Encoded ∧ task.ibvSge.length = task.frame.length) :
    writeBytes tasks = ((writeFrames (tasks.map HmrTask.frame)).map Frame.length).sum := by
  induction tasks with
  | nil => rfl
  | cons task rest ih =>
    obtain ⟨hencoded, hlength⟩ := h task (.head _)
    have hrest := ih fun task htask => h task (.tail _ htask)
    rw [writeBytes, List.map_cons, List.sum_cons, ← writeBytes, hrest, HmrTask.writeLength, hlength]
    by_cases hwrite : task.taskType = .write <;> simp [hwrite, writeFrames, hencoded.taskType]

/-- The cursor and the WRITEs on the list are together what the accepted WRITEs are long. -/
theorem FabricInv.cursor_writeBytes (h : FabricInv r) :
    (r.close.trans s).peerInfo.usedNormalSize + writeBytes (r.close.trans s).sendTaskList =
      (((r.submitted s).filter (·.msgType = .write)).map HmrMsg.encodedLength).sum := by
  have hcursor := (h.ranges s).cursor
  have hlength {task : HmrTask} (hlive : task ∈ r.pending s) :
      task.ibvSge.length = task.frame.length := (h.kept s).length (withRegion_keptIf _) hlive
  have hlist : writeBytes (r.close.trans s).sendTaskList = _ := writeBytes_eq fun task htask =>
    ⟨((h.delivery.flow s).queued task htask).1, hlength (List.mem_append_left _ htask)⟩
  have hrest : extent (((r.close.trans s).qp.sendLog.drop (r.carried s)).filterMap _) = _ :=
    extent_filled fun wr hwr =>
      ⟨h.delivery.filled s wr (List.mem_of_mem_drop hwr),
        (h.delivery.flow s).posted wr (List.mem_of_mem_drop hwr),
        hlength (List.mem_append_right _ (List.mem_map_of_mem hwr))⟩
  have hframes : writeFrames (r.doneFrames s) ++
      writeFrames (((r.close.trans s).qp.sendLog.drop (r.carried s)).map fun wr => wr.wrId.frame) ++
        writeFrames ((r.close.trans s).sendTaskList.map HmrTask.frame) =
      ((r.submitted s).filter (·.msgType = .write)).map HmrMsg.frame := by
    rw [← writeFrames_map, ← h.requested, HmrRdmaTransport.requested, writeFrames_append,
      writeFrames_appFrames, FabricState.doneFrames, ← writeFrames_append, ← List.map_append,
      FabricState.done, List.take_append_drop]
  have hsum := congrArg (fun frames => (frames.map Frame.length).sum) hframes
  simp only [List.map_append, List.sum_append, List.map_map] at hsum
  have hranges : FlushHistory.ranges ⟨r.close.trans s, 0⟩ = (r.done s).filterMap IbvSendWr.target ++
      ((r.close.trans s).qp.sendLog.drop (r.carried s)).filterMap IbvSendWr.target := by
    rw [← List.filterMap_append, FabricState.done, List.take_append_drop]
    rfl
  rw [hranges, extent_append, h.sized, hrest] at hcursor
  rw [hcursor, hlist]
  exact_mod_cast hsum

end Writes

/-- The bytes a side encodes in an event. -/
def FabricState.spends (r : FabricState) (s : Side) : FabricEvent → ℕ
  | .close e => r.close.spends s e
  | .write _ => 0

/-- The application leaves the MRs to the program. -/
def FabricEvent.LeavesMr : FabricEvent → Prop
  | .close e => HmrRpc.LeavesMr e
  | .write _ => True

section Budget

variable {script : Side → List HmrMsg} {p : ProgramState} {r : FabricState} {s : Side}
  {msg : HmrMsg} {e : FabricEvent}

/-- What is submitted comes from the script or is a DONE. -/
theorem ProgramInv.submitted (h : ProgramInv script p) (hmsg : msg ∈ p.fabric.submitted s) :
    msg ∈ script s ∨ msg.msgType = .done := by
  by_cases hdone : msg.msgType = .done
  · exact .inr hdone
  · have htaken : msg ∈ (script s).take (p.taken s) := by
      rw [← h.order s]
      exact List.mem_append_left _ (List.mem_filter.mpr ⟨hmsg, decide_eq_true hdone⟩)
    exact .inl (List.mem_of_mem_take htaken)

/-- So does what is checked. -/
theorem ProgramInv.checked (h : ProgramInv script p)
    (hmsg : msg ∈ (p.fabric.close.conn.ends s).checked) : msg ∈ script s := by
  have htaken : msg ∈ (script s).take (p.taken s) := by
    rw [← h.order s]
    exact List.mem_append_right _ hmsg
  exact List.mem_of_mem_take htaken

/-- The messages of the script among those submitted are its first. -/
theorem ProgramInv.accepts (h : ProgramInv script p) :
    (p.fabric.submitted s).filter (·.msgType ≠ .done) <+: script s :=
  (List.prefix_append _ _).trans (h.order s ▸ List.take_prefix _ _)

/-- The FINISHes accepted are the script's. -/
theorem ProgramInv.finishes (h : ProgramInv script p) :
    countOf .finish (p.fabric.close.accepted s) ≤ countOf .finish (script s) := by
  rw [h.accepted s]
  calc countOf .finish ((p.fabric.submitted s).filter (·.TwoSided))
      ≤ countOf .finish (p.fabric.submitted s) := List.filter_sublist.countP_le
    _ = countOf .finish ((p.fabric.submitted s).filter (·.msgType ≠ .done)) := by
        rw [countOf, countOf, List.countP_filter]
        refine List.countP_congr fun msg _ => ?_
        by_cases hfinish : msg.msgType = .finish <;> simp [hfinish]
    _ ≤ countOf .finish (script s) := countOf_mono h.accepts

/-- The WRITEs of a script do not wrap the cursor around. -/
theorem ProgramInv.cursorFits (h : ProgramInv script p) (hfits : Fits script) :
    (p.fabric.close.trans s).peerInfo.usedNormalSize +
      writeBytes (p.fabric.close.trans s).sendTaskList ≤ intMax := by
  have hwrites : ((p.fabric.submitted s).filter (·.msgType = .write)).Sublist
      ((p.fabric.submitted s).filter (·.msgType ≠ .done)) := by
    refine List.monotone_filter_right _ fun msg hwrite => ?_
    simp [of_decide_eq_true hwrite]
  have hsum : (((p.fabric.submitted s).filter (·.msgType = .write)).map HmrMsg.encodedLength).sum ≤
      ((script s).map HmrMsg.encodedLength).sum :=
    ((hwrites.trans h.accepts.sublist).map _).sum_le_sum fun _ _ => Nat.zero_le _
  have hroom := hfits.room s
  rw [h.fabric.cursor_writeBytes]
  unfold allocMemSize at hroom
  unfold intMax
  omega

/-- No WRITE has been posted when an MR arrives: the server's script has none, and the client's are
behind the only MR of the server. -/
theorem ProgramInv.unwritten (h : ProgramInv script p) (hfits : Fits script) {frame : Frame}
    (hframe : (p.fabric.close.inbox s).head? = some frame) (hmr : receivedType frame.byte = .mr) :
    (p.fabric.close.trans s).writeTargets = [] := by
  rw [writeTargets_eq, List.filterMap_eq_nil_iff]
  intro wr hwr
  exfalso
  obtain ⟨hlog, hopcode⟩ := List.mem_filter.mp hwr
  cases s with
  | server =>
    have hfilled := h.fabric.delivery.filled .server wr hlog
    have hencoded := (h.fabric.delivery.flow .server).posted wr hlog
    have htype := (hfilled.write_iff hencoded).mp (of_decide_eq_true hopcode)
    have hrequested : wr.wrId.frame ∈ (p.fabric.close.trans .server).requested :=
      List.mem_append_left _ (List.mem_filter.mpr
        ⟨List.mem_map_of_mem hlog, by simp [Frame.forApp, htype]⟩)
    rw [h.fabric.requested .server] at hrequested
    obtain ⟨msg, hmsg, hframe⟩ := List.mem_map.mp hrequested
    have hwrite : msg.msgType = .write := by
      rw [← hframe, receivedType_frame] at htype
      exact HmrTaskType.ofMsgType_eq_write.mp htype
    rcases h.submitted hmsg with hscript | hdone
    · rcases hfits.kind .server msg hscript with ⟨htwo, -⟩ | ⟨hclient, -⟩
      · exact htwo.2.2 hwrite
      · contradiction
    · rw [hwrite] at hdone
      contradiction
  | client =>
    obtain ⟨rest, hinbox⟩ := List.head?_eq_some_iff.mp hframe
    have hflow := h.fabric.delivery.flow .server
    rw [show Side.server.peer = .client from rfl, hinbox] at hflow
    obtain ⟨encoded, wire, hwire, hcarries, hlen⟩ := hflow.first
    rw [hcarries.receivedType hlen] at hmr
    have hframes : 0 < mrCount (p.fabric.close.trans .server).qp.encoded :=
      List.countP_pos_iff.mpr ⟨encoded, by simp [hwire], decide_eq_true hmr⟩
    have hreceived : 0 < (p.fabric.close.trans .client).mrsReceived :=
      ((h.fabric.keyed.ends .client).posted wr hwr).1
    have htotal := h.mrs .server
    rw [CloseState.mrTotal] at htotal
    change _ + (p.fabric.close.trans .client).mrsReceived + _ ≤ 1 at htotal
    omega

/-- Only an MR or a DONE is an answer. -/
theorem answerTo_cases {u : HmrRdmaTransport} {taskType : HmrTaskType}
    (hanswer : u.answerTo taskType = some msg) : (∃ mr, msg = mrMsg mr) ∨ msg = closingMsg := by
  cases taskType with
  | mr =>
    obtain ⟨-, hown⟩ := Option.ite_none_right_eq_some.mp hanswer
    obtain ⟨mr, -, hmsg⟩ := Option.map_eq_some_iff.mp hown
    exact .inl ⟨mr, hmsg.symm⟩
  | finish => exact .inr (Option.some.inj hanswer).symm
  | normal | read | write | done | other => contradiction

/-- What an event encodes has a nonnegative size. -/
theorem encodes_size {g : CloseState} {e : CloseEvent}
    (hchecked : ∀ msg ∈ (g.conn.ends s).checked, 0 ≤ msg.dataSize.toInt)
    (hencodes : g.encodes e = some (s, msg)) : 0 ≤ msg.dataSize.toInt := by
  have hmr (mr : IbvMr) : 0 ≤ (mrMsg mr).dataSize.toInt := by
    change 0 ≤ (Int32.ofNat sizeofIbvMr).toInt
    decide
  cases e with
  | conn e =>
    cases e with
    | recvComplete r o =>
      obtain ⟨answer, hanswer, hsome⟩ := Option.map_eq_some_iff.mp hencodes
      obtain ⟨rfl, rfl⟩ := Prod.mk.inj hsome
      obtain ⟨frame, -, hanswer⟩ := Option.bind_eq_some_iff.mp hanswer
      obtain ⟨mr, rfl⟩ | rfl := answerTo_cases hanswer
      · exact hmr mr
      · decide
    | established r o =>
      obtain ⟨-, hown⟩ := Option.ite_none_right_eq_some.mp hencodes
      obtain ⟨mr, -, hsome⟩ := Option.map_eq_some_iff.mp hown
      obtain ⟨rfl, rfl⟩ := Prod.mk.inj hsome
      exact hmr mr
    | submit r i o =>
      obtain ⟨msg, hmsg, hsome⟩ := Option.map_eq_some_iff.mp hencodes
      obtain ⟨rfl, rfl⟩ := Prod.mk.inj hsome
      exact hchecked msg (List.mem_of_getElem? hmsg)
    | _ => contradiction
  | _ => contradiction

/-- What a program or its event thread encodes fits in front of what the side may still need. -/
theorem ProgramInv.fitsRest (h : ProgramInv script p) (hfits : Fits script) {e : CloseEvent}
    {room : ℕ} (hroom : room + p.fabric.close.spends s e ≤ p.room script s)
    (hencodes : p.fabric.close.encodes e = some (s, msg)) :
    (p.fabric.close.trans s).Takes (HmrMsg.FitsRest (allocMemSize - room)) (p.fabric.pending s)
      msg := by
  intro pool hpool
  have hspent := ((h.kept s).held pool hpool).spent
  have hpos : 0 ≤ msg.dataSize.toInt :=
    encodes_size (fun msg hmsg => hfits.size s msg (h.checked hmsg)) hencodes
  have hdata : (sizeT msg.dataSize.toInt : ℤ) = msg.dataSize.toInt :=
    sizeT_of_range hpos (msg.dataSize.toInt_lt.trans (by decide))
  rw [spends_of_some hencodes] at hroom
  simp only [HmrMsg.encodedLength, sizeofMsgType, sizeofInt] at hroom
  exact ⟨hpos, by omega⟩

/-- In a smooth event messages are handled and posts fail as they should. -/
theorem ProgramState.Smooth.attentive {e : CloseEvent} (h : p.Smooth (.fabric (.close e))) :
    Attentive p.fabric.close e := by
  cases e with
  | conn e =>
    cases e with
    | recvComplete => exact h
    | tick s a =>
      cases a with
      | none => trivial
      | some k =>
        intro wr hwr
        obtain hlist | ⟨rfl, -⟩ := h
        · have hnil : sendChain (p.fabric.close.trans s).peerInfo
              (p.fabric.close.trans s).sendTaskList = [] := by
            rw [show (p.fabric.close.trans s).sendTaskList = [] from hlist]
            rfl
          simp [hnil] at hwr
        · simp at hwr
    | _ => trivial
  | _ => trivial

/-- Such events are orderly. -/
theorem ProgramInv.orderly (h : ProgramInv script p) (hfits : Fits script) {room : Side → ℕ}
    (hsmooth : p.Smooth (.fabric e)) (hleaves : e.LeavesMr)
    (hroom : ∀ s, room s + p.fabric.spends s e ≤ p.room script s) : p.fabric.Orderly e := by
  cases e with
  | write => trivial
  | close e =>
    refine ⟨⟨hsmooth.attentive, hleaves⟩, ?_, fun s msg hencodes pool hpool => ?_⟩
    · cases e with
      | conn e =>
        cases e with
        | recvComplete => exact fun frame hframe hmr => h.unwritten hfits hframe hmr
        | tick s a =>
          cases a with
          | none => exact h.cursorFits hfits
          | some k => exact hsmooth
        | _ => trivial
      | _ => trivial
    · have hfitsRest := h.fitsRest hfits (hroom s) hencodes pool hpool
      have hle := hroom s
      have hheld : BehindCursor (allocMemSize - room s) pool.memory pool.usedSendRegion
          (p.fabric.pending s) := ((h.kept s).held pool hpool).mono (by omega)
      exact hheld.clear (by omega) hfitsRest

/-- The pools keep what is to be read behind their cursors, and the bytes free that are still
needed. -/
theorem ProgramInv.keeps (h : ProgramInv script p) (hfits : Fits script) {room : Side → ℕ}
    (horderly : p.fabric.Orderly e) (hstep : fabricStep p.fabric e = some r)
    (hroom : ∀ s, room s + p.fabric.spends s e ≤ p.room script s) :
    (r.close.trans s).Keeps (BehindCursor (allocMemSize - room s)) (r.pending s) := by
  have hle (u : Side) : (room u : ℤ) ≤ p.room script u := by
    have hle := hroom u
    omega
  have hkept (u : Side) : (p.fabric.close.trans u).Keeps (BehindCursor (allocMemSize - room u))
      (p.fabric.pending u) :=
    (h.kept u).imp fun _ _ hheld => hheld.mono (by have := hle u; omega)
  have hkeptIf (u : Side) :=
    behindCursor_keptIf (show allocMemSize - room u ≤ allocMemSize by omega)
  cases fabricStep_cases hstep with
  | closed e g hdeliver hclose =>
    have hfresh : ∀ memory, BehindCursor (allocMemSize - room s) memory 0 [] := fun memory =>
      ⟨inRing_nil (by decide), by simp, by linarith [h.room s, hle s]⟩
    have hside := closeStep_side (hkeptIf s) h.fabric.delivery (fun _ => hfresh) (hkept s) hdeliver
      (fun msg hencodes => h.fitsRest hfits (hroom s) hencodes) horderly.2.1 hclose
    have hkeeps := hside.keeps (hkeptIf s) (h.fabric.carried s)
    exact hkeeps
  | delivered u wr g hnext hsend hclose =>
    cases closeStep_cases hclose with
    | delivered => exact (hkept s).mono (hkeptIf s) (carry_pending s ⟨rfl, rfl⟩)
  | written u wr frame pool pool' hnext hwrite hread hpool hplace =>
    have hframe := setPool_frame p.fabric.close u.peer pool' s
    refine HmrRdmaTransport.Keeps.mono (hkeptIf s) ?_ (carry_pending s ⟨hframe.1, hframe.2.1⟩)
    rcases u.peer.eq_or_peer s with rfl | rfl
    · obtain ⟨⟨-, hcontains⟩, hsome⟩ := Option.ite_none_right_eq_some.mp hplace
      have haddr := h.fabric.placed hnext hwrite hpool hcontains
      rw [haddr, add_sub_cancel_left] at hsome
      change ((p.fabric.close.setPool u.peer pool').trans u.peer).Keeps _ _
      rw [setPool_self, ← Option.some.inj hsome]
      refine (hkept u.peer).setMemory hpool fun hheld => ⟨hheld.toInRing.copy _ _ ?_, hheld.behind,
        hheld.spent⟩
      exact le_add_of_le_of_nonneg (by decide) (Nat.cast_nonneg _)
    · change ((p.fabric.close.setPool u.peer pool').trans u.peer.peer).Keeps _ _
      rw [setPool_peer]
      exact hkept u.peer.peer

/-- Every event that leaves what is needed free keeps the invariant. -/
theorem ProgramInv.advance (h : ProgramInv script p) (hfits : Fits script) {taken : Side → ℕ}
    (hsmooth : p.Smooth (.fabric e)) (hleaves : e.LeavesMr)
    (hstep : fabricStep p.fabric e = some r)
    (hroom : ∀ s, (ProgramState.mk r taken).room script s + p.fabric.spends s e ≤ p.room script s)
    (horder : (ProgramState.mk r taken).Follows script)
    (hsingle : ∀ s, (r.close.conn.ends s).checked.length ≤ 1) : ProgramInv script ⟨r, taken⟩ := by
  have horderly := h.orderly hfits hsmooth hleaves hroom
  have hchecked (u : Side) (msg : HmrMsg) (hmsg : msg ∈ (p.fabric.close.conn.ends u).checked) :
      msg.msgType ≠ .mr := (h.fabric.keyed.checked u msg hmsg).1
  have hclosed {e : CloseEvent} {g : CloseState} (hclose : closeStep p.fabric.close e = some g) :
      (∀ s, g.mrTotal s ≤ mrsAllowed s) ∧ g.Unraised ∧ ∀ s, (g.trans s).UpTo .rconnected :=
    ⟨fun s => (closeStep_mrTotal h.fabric.delivery h.unraised hchecked hclose).trans (h.mrs s),
      closeStep_unraised h.unraised hclose,
      fun s => closeStep_upTo h.ready h.fabric.delivery hclose⟩
  have hsides : (∀ s, r.close.accepted s = (r.submitted s).filter (·.TwoSided)) ∧
      (∀ s, r.close.mrTotal s ≤ mrsAllowed s) ∧ r.close.Unraised ∧
        ∀ s, (r.close.trans s).UpTo .rconnected := by
    cases fabricStep_cases hstep with
    | closed e g hdeliver hclose =>
      refine ⟨fun s => ?_, hclosed hclose⟩
      change g.accepted s = (p.fabric.submitted s ++ p.fabric.close.newMessages g e s).filter _
      rw [closeStep_accepted hclose, h.accepted, List.filter_append]
    | delivered u wr g hnext hsend hclose =>
      refine ⟨fun s => ?_, hclosed hclose⟩
      exact (closeStep_accepted hclose).trans ((List.append_nil _).trans (h.accepted s))
    | written u wr frame pool pool' =>
      change (∀ s, p.fabric.close.accepted s = _) ∧
        (∀ s, (p.fabric.close.setPool u.peer pool').mrTotal s ≤ _) ∧
          (p.fabric.close.setPool u.peer pool').Unraised ∧
            ∀ s, ((p.fabric.close.setPool u.peer pool').trans s).UpTo _
      refine ⟨h.accepted, fun s => (setPool_mrTotal _ _).trans (h.mrs s), ?_,
        fun s => setEnd_upTo h.ready (h.ready u.peer)⟩
      refine h.unraised.setEnd ?_ _ _
      rfl
  obtain ⟨haccepted, hmrs, hunraised, hready⟩ := hsides
  refine ⟨h.fabric.step horderly hstep, fun s => ?_, fun s => ?_, haccepted, horder, hsingle, hmrs,
    hunraised, hready⟩
  · have hle := hroom s
    have hbudget := h.room s
    omega
  · exact h.keeps hfits horderly hstep hroom

/-- A checked message is no MR and no DONE. -/
theorem ProgramInv.checked_kind (h : ProgramInv script p) (hfits : Fits script)
    (hmsg : msg ∈ (p.fabric.close.conn.ends s).checked) :
    msg.msgType ≠ .mr ∧ msg.msgType ≠ .done := by
  rcases hfits.kind s msg (h.checked hmsg) with ⟨htwo, hdone⟩ | ⟨-, hwrite⟩
  · exact ⟨htwo.1, hdone⟩
  · rw [hwrite]
    decide

/-- What a side may still need goes down by what it encodes. -/
theorem ProgramInv.spends (h : ProgramInv script p) (hsmooth : p.Smooth (.fabric e))
    (hcheck : ∀ u msg, e ≠ .close (.conn (.check u msg))) (hstep : fabricStep p.fabric e = some r) :
    (ProgramState.mk r p.taken).room script s + p.fabric.spends s e ≤ p.room script s := by
  have hreserve : r.close.reserve s (countOf .finish (script s.peer)) + p.fabric.spends s e ≤
      p.fabric.close.reserve s (countOf .finish (script s.peer)) := by
    cases fabricStep_cases hstep with
    | closed e g hdeliver hclose | delivered u wr g hnext hsend hclose =>
      exact closeStep_reserve h.fabric.delivery h.unraised hsmooth.attentive h.finishes
        (fun u msg heq => hcheck u msg (congrArg _ heq)) hclose
    | written => exact setPool_reserve ..
  rw [ProgramState.room, ProgramState.room]
  change r.close.reserve s _ + (((script s).drop (p.taken s)).map _).sum + _ ≤ _
  omega

/-- An event of the parties submits what is checked, or answers with a DONE. -/
theorem ProgramInv.submits (h : ProgramInv script p) (hfits : Fits script)
    (hcheck : ∀ u msg, e ≠ .close (.conn (.check u msg))) (hstep : fabricStep p.fabric e = some r) :
    ∃ new, (r.submitted s).filter (·.msgType ≠ .done) =
        (p.fabric.submitted s).filter (·.msgType ≠ .done) ++ new ∧
      new ++ (r.close.conn.ends s).checked = (p.fabric.close.conn.ends s).checked := by
  cases fabricStep_cases hstep with
  | closed e g hdeliver hclose =>
    exact ⟨_, List.filter_append _ _, closeStep_checked (h.single s)
      (fun msg hmsg => h.checked_kind hfits hmsg) (fun u msg heq => hcheck u msg (congrArg _ heq))
      hclose⟩
  | delivered u wr g hnext hsend hclose =>
    cases closeStep_cases hclose with
    | delivered => exact ⟨[], (List.append_nil _).symm, rfl⟩
  | written u wr frame pool pool' =>
    refine ⟨[], (List.append_nil _).symm, ?_⟩
    change ((p.fabric.close.setPool u.peer pool').conn.ends s).checked = _
    cases u <;> cases s <;> rfl

/-- Every event of the parties that no program takes part in keeps the invariant. -/
theorem ProgramInv.event (h : ProgramInv script p) (hfits : Fits script)
    (hsmooth : p.Smooth (.fabric e)) (hcheck : ∀ u msg, e ≠ .close (.conn (.check u msg)))
    (hstep : fabricStep p.fabric e = some r) : ProgramInv script { p with fabric := r } := by
  have hleaves : e.LeavesMr := by
    cases e with
    | close e =>
      cases e with
      | conn e =>
        cases e with
        | check u msg => exact absurd rfl (hcheck u msg)
        | _ => trivial
      | _ => trivial
    | write => trivial
  refine h.advance hfits hsmooth hleaves hstep (fun s => h.spends hsmooth hcheck hstep)
    (fun s => ?_) fun s => ?_
  · obtain ⟨new, hsubmitted, hchecked⟩ := h.submits (s := s) hfits hcheck hstep
    rw [hsubmitted, List.append_assoc, hchecked, h.order]
  · obtain ⟨new, -, hchecked⟩ := h.submits (s := s) hfits hcheck hstep
    have hsingle := h.single s
    rw [← hchecked, List.length_append] at hsingle
    omega

/-- Up to RCONNECTED no message is refused. -/
theorem hmrMsgCheck_accepts {t : HmrRdmaTransport} {err : ℤ} (hready : t.UpTo .rconnected)
    (hcheck : hmrMsgCheck t msg = .ok err) : err = 0 := by
  unfold hmrMsgCheck at hcheck
  split at hcheck
  · exact (Except.ok.inj hcheck).symm
  · rw [if_neg (not_lt.mpr hready)] at hcheck
    contradiction

/-- A program that calls `hmr_rdma_send` keeps it too. -/
theorem ProgramInv.next (h : ProgramInv script p) (hfits : Fits script) (hsending : p.Sending s)
    (hmsg : (script s)[p.taken s]? = some msg)
    (hstep : fabricStep p.fabric (.close (.conn (.check s msg))) = some r) :
    ProgramInv script ⟨r, Function.update p.taken s (p.taken s + 1)⟩ := by
  have hscript : msg ∈ script s := List.mem_of_getElem? hmsg
  have hmr : msg.msgType ≠ .mr := by
    rcases hfits.kind s msg hscript with ⟨htwo, -⟩ | ⟨-, hwrite⟩
    · exact htwo.1
    · rw [hwrite]
      decide
  have hchecked := hsending.1
  cases fabricStep_cases hstep with
  | closed e g hdeliver hclose =>
    cases closeStep_cases hclose with
    | other e conn he hresult =>
      cases hresult with
      | check =>
        refine h.advance (e := .close (.conn (.check s msg))) hfits trivial hmr hstep (fun u => ?_)
          (fun u => ?_) fun u => ?_
        · have hdrop : (script s).drop (p.taken s) = msg :: (script s).drop (p.taken s + 1) := by
            obtain ⟨hlt, rfl⟩ := List.getElem?_eq_some_iff.mp hmsg
            exact List.drop_eq_getElem_cons hlt
          change CloseState.reserve { p.fabric.close with
              conn := p.fabric.close.conn.setEnd s { p.fabric.close.conn.ends s with
                checked := (p.fabric.close.conn.ends s).checked ++ [msg] } } u _ +
            (((script u).drop (Function.update p.taken s (p.taken s + 1) u)).map
              HmrMsg.encodedLength).sum + 0 ≤ _
          rw [reserve_checked, ProgramState.room]
          rcases s.eq_or_peer u with rfl | rfl
          · rw [if_pos rfl, Function.update_self, hdrop, List.map_cons, List.sum_cons]
            omega
          · rw [if_neg s.peer_ne.symm, Function.update_of_ne s.peer_ne]
            exact le_rfl
        · change ((p.fabric.submitted u ++ []).filter _) ++
            ((p.fabric.close.conn.setEnd s _).ends u).checked =
              (script u).take (Function.update p.taken s (p.taken s + 1) u)
          rw [List.append_nil]
          rcases s.eq_or_peer u with rfl | rfl
          · rw [setEnd_ends_self, Function.update_self, List.take_add_one, hmsg, ← h.order u,
              List.append_assoc]
            rfl
          · rw [setEnd_ends_peer, Function.update_of_ne s.peer_ne]
            exact h.order s.peer
        · change ((p.fabric.close.conn.setEnd s _).ends u).checked.length ≤ 1
          rcases s.eq_or_peer u with rfl | rfl
          · rw [setEnd_ends_self, hchecked]
            exact le_rfl
          · rw [setEnd_ends_peer]
            exact h.single s.peer

/-- What an event of the parties does in the programs. -/
theorem programStep_fabric {p' : ProgramState} (hstep : programStep script p (.fabric e) = some p') :
    (∀ u msg, e ≠ .close (.conn (.check u msg))) ∧
      ∃ r, fabricStep p.fabric e = some r ∧ p' = { p with fabric := r } := by
  have hplain (hstep : (fabricStep p.fabric e).map (fun r => { p with fabric := r }) = some p') :
      ∃ r, fabricStep p.fabric e = some r ∧ p' = { p with fabric := r } := by
    obtain ⟨r, hr, rfl⟩ := Option.map_eq_some_iff.mp hstep
    exact ⟨r, hr, rfl⟩
  cases e with
  | write => exact ⟨nofun, hplain hstep⟩
  | close e =>
    cases e with
    | conn e =>
      cases e with
      | check => contradiction
      | _ => exact ⟨nofun, hplain hstep⟩
    | setProcessResp s =>
      cases s with
      | client => contradiction
      | server => exact ⟨nofun, hplain (Option.ite_none_right_eq_some.mp hstep).2⟩
    | _ => exact ⟨nofun, hplain hstep⟩

/-- A program between two calls checks its next message, which is not refused. -/
theorem ProgramInv.takes {p' : ProgramState} (h : ProgramInv script p)
    (hstep : programStep script p (.next s) = some p') :
    p.Sending s ∧ ∃ msg r, (script s)[p.taken s]? = some msg ∧
      fabricStep p.fabric (.close (.conn (.check s msg))) = some r ∧
        p' = ⟨r, Function.update p.taken s (p.taken s + 1)⟩ := by
  obtain ⟨hsending, hstep⟩ := Option.ite_none_right_eq_some.mp hstep
  obtain ⟨msg, hmsg, hstep⟩ := Option.bind_eq_some_iff.mp hstep
  obtain ⟨err, hcheck, hstep⟩ := Option.bind_eq_some_iff.mp hstep
  rw [if_pos (hmrMsgCheck_accepts (h.ready s) (ok_of_toOption hcheck))] at hstep
  obtain ⟨r, hr, rfl⟩ := Option.map_eq_some_iff.mp hstep
  exact ⟨hsending, msg, r, hmsg, hr, rfl⟩

/-- Every event of the programs keeps the invariant. -/
theorem ProgramInv.step {e : ProgramEvent} {p' : ProgramState} (h : ProgramInv script p)
    (hfits : Fits script) (hsmooth : p.Smooth e) (hstep : programStep script p e = some p') :
    ProgramInv script p' := by
  cases e with
  | fabric e =>
    obtain ⟨hcheck, r, hr, rfl⟩ := programStep_fabric hstep
    exact h.event hfits hsmooth hcheck hr
  | next s =>
    obtain ⟨hsending, msg, r, hmsg, hr, rfl⟩ := h.takes hstep
    exact h.next hfits hsending hmsg hr

/-- Programs that start have the invariant. -/
theorem ProgramState.Starts.inv (h : p.Starts) (hfits : Fits script) : ProgramInv script p := by
  have hstart := h.fabric.close.conn
  have hunused (s : Side) : (p.fabric.close.trans s).Unused := hstart.unused s
  have hclient : (p.fabric.close.trans .client).isClient = true ∧
    (p.fabric.close.trans .client).transState = .connecting := hstart.client
  have hserver : (p.fabric.close.trans .server).isClient = false ∧
    (p.fabric.close.trans .server).transState = .init ∧
      (p.fabric.close.trans .server).normalMempool = none := hstart.server
  have hleft (s : Side) : p.fabric.close.mrsLeft s = mrsAllowed s := by
    rw [CloseState.mrsLeft, hstart.established, HmrRdmaTransport.mrsLeft]
    cases s with
    | client => rw [hclient.1, hclient.2]; rfl
    | server => rw [hserver.1, hserver.2.1]; rfl
  have hroom (s : Side) : p.room script s = mrLength * mrsAllowed s +
      closingMsg.encodedLength * countOf .finish (script s.peer) +
        ((script s).map HmrMsg.encodedLength).sum := by
    rw [ProgramState.room, CloseState.reserve, hleft, hstart.checked, h.taken, List.drop_zero,
      h.fabric.close.responses]
    rfl
  have hbudget (s : Side) : (p.room script s : ℤ) ≤ allocMemSize := by
    rw [hroom]
    exact hfits.room s
  have hinv := h.fabric.inv
  refine ⟨hinv, hbudget, fun s => ?_, fun s => ?_, fun s => ?_, fun s => ?_, fun s => ?_, ?_,
    fun s => ?_⟩
  · have hpending : p.fabric.pending s = [] := by
      simp [FabricState.pending, (hunused s).log, (hunused s).list]
    have hkept := hinv.kept s
    rw [hpending] at hkept ⊢
    refine ⟨hkept.recvSize, hkept.recvs, fun _ => rfl, hkept.recvCursor, fun pool hpool => ?_⟩
    rw [h.cursor s pool hpool]
    exact ⟨inRing_nil (by decide), by simp, by linarith [hbudget s]⟩
  · rw [h.fabric.close.accepted, h.fabric.submitted]
    rfl
  · rw [h.fabric.submitted, hstart.checked, h.taken]
    rfl
  · rw [hstart.checked]
    exact Nat.zero_le _
  · rw [CloseState.mrTotal, hleft, (hunused s).encoded, (hunused s.peer).mrs]
    exact (Nat.zero_add _).le
  · exact fun _ => hstart.established
  · cases s with
    | client => rw [HmrRdmaTransport.UpTo, hclient.2]; decide
    | server => rw [HmrRdmaTransport.UpTo, hserver.2.1]; decide

end Budget

/-- DISCONNECTED is handled only when what is still to be polled is the close. -/
def ProgramState.PollsFirst (p : ProgramState) : ProgramEvent → Prop
  | .fabric (.close e) => HmrRpc.PollsFirst p.fabric.close e
  | _ => True

instance (p : ProgramState) : (e : ProgramEvent) → Decidable (p.PollsFirst e)
  | .fabric (.close e) => inferInstanceAs (Decidable (HmrRpc.PollsFirst p.fabric.close e))
  | .fabric (.write _) | .next _ => isTrue trivial

section Close

variable {script : Side → List HmrMsg} {p : ProgramState}

/-- The programs leave the DONEs to the event threads, so what closes the connection is accounted
for in every event. -/
theorem ProgramInv.closing {e : FabricEvent} {r : FabricState} (h : ProgramInv script p)
    (hfits : Fits script) (hclose : CloseInv p.fabric.close) (hpaid : PaidInv p.fabric.close)
    (hsmooth : p.Smooth (.fabric e)) (hpolls : p.PollsFirst (.fabric e))
    (hstep : fabricStep p.fabric e = some r) : CloseInv r.close ∧ PaidInv r.close := by
  have hinv := h.fabric.delivery
  have hsides {e : CloseEvent} {g : CloseState} (hattentive : Attentive p.fabric.close e)
      (hpolls : HmrRpc.PollsFirst p.fabric.close e) (hstep : closeStep p.fabric.close e = some g) :
      CloseInv g ∧ PaidInv g := by
    have hleaves : LeavesDone p.fabric.close e := by
      cases e with
      | conn e =>
        cases e with
        | submit s i o =>
          exact fun msg hmsg => (h.checked_kind hfits (List.mem_of_getElem? hmsg)).2
        | _ => trivial
      | _ => trivial
    exact ⟨hclose.step (hinv.closesCleanly hattentive hleaves hpolls) hstep,
      hpaid.step hinv hattentive hleaves hstep⟩
  cases fabricStep_cases hstep with
  | closed e g _ hclosed => exact hsides hsmooth.attentive hpolls hclosed
  | delivered u wr g _ _ hclosed => exact hsides (e := .deliver u) trivial trivial hclosed
  | written u wr frame pool pool' =>
    exact ⟨hclose.quiet (setTrans_self ..) (setTrans_peer ..) rfl (hinv.recvs u.peer)
      ((hinv.flow u.peer).of_same ⟨rfl, rfl, rfl⟩ (.refl _)),
      hpaid.quiet (setTrans_self ..) (setTrans_peer ..) rfl le_rfl⟩

end Close

end HmrRpc
