import HmrRpc.Fabric

/-!
# WRITEs arrive ahead of the messages behind them

A WRITE leaves no trace at the peer but its bytes, so the peer learns of it only from a two-sided
message that follows. By the time `process_resp` is handed a message, every WRITE the peer
accepted before it lies in the region whose MR was exchanged: the first at its start, and each
where the one before it ends.
-/

namespace HmrRpc

open Common

/-- The frames lie end to end in the memory from the address on. -/
def LaidFrom (memory : Memory) : ℤ → List Frame → Prop
  | _, [] => True
  | addr, frame :: rest =>
    (∀ i < frame.length, memory (addr + i) = frame.byte i) ∧
      LaidFrom memory (addr + frame.length) rest

/-- The frames of WRITEs among them. -/
def writeFrames (frames : List Frame) : List Frame :=
  frames.filter fun frame => receivedType frame.byte = .write

/-- A frame of a two-sided message. -/
def Frame.twoSided (frame : Frame) : Bool :=
  receivedType frame.byte ≠ .mr ∧ receivedType frame.byte ≠ .read ∧ receivedType frame.byte ≠ .write

/-- A pool that keeps tasks to be read in its ring, and frames in the region its peer writes. -/
def WithRegion (frames : List Frame) : Holding := fun memory cursor live =>
  InRing memory cursor live ∧ LaidFrom memory rdmaRegion frames

/-- The application leaves the MRs to the program. -/
def LeavesMr : CloseEvent → Prop
  | .conn e => AppSends e
  | _ => True

instance : (e : CloseEvent) → Decidable (LeavesMr e)
  | .conn e => inferInstanceAs (Decidable (AppSends e))
  | .deliver _ | .disconnected _ | .setProcessResp _ => isTrue trivial

namespace FabricState

variable (r : FabricState) (s : Side)

/-- The requests the HCA of the side has carried out. -/
def done : List IbvSendWr := (r.close.trans s).qp.sendLog.take (r.carried s)

/-- Their frames. -/
def doneFrames : List Frame := (r.done s).map fun wr => wr.wrId.frame

/-- What they wrote to the peer's region. -/
def written : List Frame := writeFrames (r.doneFrames s)

/-- Neither party has done anything. -/
structure Starts : Prop where
  close : r.close.Starts
  laid : r.close.LaidOut
  carried : ∀ s, r.carried s = 0
  submitted : ∀ s, r.submitted s = []

/-- The parties leave MRs to the program and WRITEs in order, and no message is encoded over one
that the HCA has still to read. -/
def Orderly : FabricEvent → Prop
  | .close e => (Attentive r.close e ∧ LeavesMr e) ∧ WritesOn r.close e ∧
      ∀ s msg, r.close.encodes e = some (s, msg) →
        (r.close.trans s).Takes HmrMsg.Clear (r.pending s) msg
  | .write _ => True

instance : (e : FabricEvent) → Decidable (r.Orderly e)
  | .close e =>
    decidable_of_iff ((Attentive r.close e ∧ LeavesMr e) ∧ WritesOn r.close e ∧
      ∀ p ∈ r.close.encodes e, ∀ pool ∈ (r.close.trans p.1).normalMempool,
        HmrMsg.Clear pool.usedSendRegion (r.pending p.1) p.2)
      ⟨fun h => ⟨h.1, h.2.1, fun s msg hsome pool hpool => h.2.2 (s, msg) hsome pool hpool⟩,
        fun h => ⟨h.1, h.2.1, fun p hsome pool hpool => h.2.2 p.1 p.2 hsome pool hpool⟩⟩
  | .write _ => isTrue trivial

/-- On each side, the WRITEs its peer accepted ahead of a message that has been handed over are in
the region, in their order. -/
def Notified : Prop :=
  ∀ s before, before <+: r.submitted s.peer →
    (before.countP fun msg => msg.TwoSided) < (r.close.trans s).responses.length →
      ∀ pool, (r.close.trans s).normalMempool = some pool →
        LaidFrom pool.memory rdmaRegion ((before.filter (·.msgType = .write)).map HmrMsg.frame)

end FabricState

/-- The HCAs carry out what is posted, the WRITEs one behind another in the peer's region, and the
pools keep what is written and what is still to be read. -/
structure FabricInv (r : FabricState) : Prop where
  delivery : DeliveryInv InRing r.close
  keyed : KeyedConnection r.close.conn
  requested : ∀ s, (r.close.trans s).requested = (r.submitted s).map HmrMsg.frame
  carried : ∀ s, r.carried s ≤ (r.close.trans s).qp.sendLog.length
  sent : ∀ s, ((r.done s).countP fun wr => wr.opcode = .send) = r.close.arrived s
  ranges : ∀ s, RangeOrder ⟨r.close.trans s, 0⟩
  sized : ∀ s, extent ((r.done s).filterMap IbvSendWr.target) =
    ((r.written s).map Frame.length).sum
  kept : ∀ s, (r.close.trans s).Keeps (WithRegion (r.written s.peer)) (r.pending s)

section Laid

variable {memory memory' : Memory} {addr : ℤ} {frames frames' : List Frame}

/-- What is laid depends on the memory it takes. -/
theorem LaidFrom.congr (h : LaidFrom memory addr frames)
    (hsame : ∀ a, addr ≤ a → a < addr + (frames.map Frame.length).sum → memory' a = memory a) :
    LaidFrom memory' addr frames := by
  induction frames generalizing addr with
  | nil => trivial
  | cons frame rest ih =>
    rw [List.map_cons, List.sum_cons, Nat.cast_add] at hsame
    exact ⟨fun i hi => (hsame _ (by omega) (by omega)).trans (h.1 i hi),
      ih h.2 fun a ha hlt => hsame a (by omega) (by omega)⟩

/-- Frames laid behind others lie behind their bytes. -/
theorem laidFrom_append : LaidFrom memory addr (frames ++ frames') ↔ LaidFrom memory addr frames ∧
    LaidFrom memory (addr + (frames.map Frame.length).sum) frames' := by
  induction frames generalizing addr with
  | nil => simp [LaidFrom]
  | cons frame rest ih =>
    simp only [List.cons_append, LaidFrom, ih, List.map_cons, List.sum_cons, Nat.cast_add,
      and_assoc, add_assoc]

/-- A frame copied behind those laid is laid. -/
theorem LaidFrom.copy {frame encoded : Frame} (h : LaidFrom memory addr frames)
    (hcarries : frame.Carries encoded) :
    LaidFrom (memory.copy (addr + (frames.map Frame.length).sum) frame.byte frame.length) addr
      (frames ++ [encoded]) := by
  refine laidFrom_append.mpr ⟨h.congr fun a _ hlt => Memory.copy_outside _ _ (.inl hlt), ?_, trivial⟩
  intro i hi
  rw [Memory.copy_inside _ _ _ (hcarries.length ▸ hi)]
  exact hcarries.byte i hi

end Laid

section WithRegion

variable {frames : List Frame} {memory : Memory} {cursor : ℤ} {live : List HmrTask}

/-- Neither encoding a message nor receiving one touches the region. -/
theorem withRegion_keptIf (frames : List Frame) : (WithRegion frames).KeptIf HmrMsg.Clear where
  ring h := h.1
  mono h hsub := ⟨inRing_keptIf.mono h.1 hsub, h.2⟩
  encode := by
    rintro pool live msg id ⟨hring, hlaid⟩ hclear
    refine ⟨inRing_keptIf.encode id hring hclear, hlaid.congr fun a ha _ => ?_⟩
    obtain ⟨haddr, -, -⟩ := acceptedTask_range hring.bounds hclear.1 id
    obtain ⟨hpos, hfit⟩ := hclear.1
    have hplace := ringPlace_mem hring.bounds.1 hfit
    have hencoded : (msg.encodedLength : ℤ) = 8 + msg.dataSize.toInt :=
      encodedLength_eq hpos (by unfold allocMemSize at hfit; omega)
    simp only [rdmaRegion, recvRegion, sendRegion, zero_add] at ha
    have hbehind : (acceptedTask pool msg id).sgeList.addr + msg.encodedLength ≤ a := by
      rw [haddr]
      omega
    exact copyAll_sendTask_outside _ _ (.inr hbehind)
  place src n h haddr hend := by
    refine ⟨inRing_keptIf.place src n h.1 haddr hend, h.2.congr fun a ha _ => ?_⟩
    exact Memory.copy_outside _ _ (.inr (by omega))

/-- A pool whose peer has written nothing has no more than a ring. -/
theorem withRegion_nil : (WithRegion []).OfUnused := fun hcursor => ⟨inRing_nil hcursor, trivial⟩

end WithRegion

section Keyed

variable {g g' : CloseState}

/-- Apart from receive completions, the events of the connection are its steps. -/
theorem closeStep_conn {e : ConnectionEvent} (he : ∀ s o, e ≠ .recvComplete s o)
    (hstep : closeStep g (.conn e) = some g') : connectionStep g.conn e = some g'.conn := by
  cases e with
  | recvComplete s o => exact absurd rfl (he s o)
  | recvFail | sendComplete =>
    obtain ⟨-, hstep⟩ := Option.ite_none_right_eq_some.mp hstep
    obtain ⟨conn, hconn, rfl⟩ := Option.map_eq_some_iff.mp hstep
    exact hconn
  | submit =>
    obtain ⟨msg, -, hstep⟩ := Option.bind_eq_some_iff.mp hstep
    obtain ⟨conn, hconn, rfl⟩ := Option.map_eq_some_iff.mp hstep
    exact hconn
  | _ =>
    obtain ⟨conn, hconn, rfl⟩ := Option.map_eq_some_iff.mp hstep
    exact hconn

/-- No event posts an overwritten message as an MR when no queued message holds one. -/
theorem ticksNoMr_of_queues {c : Connection} (h : ∀ s, (c.trans s).QueuesNoMr)
    (e : ConnectionEvent) : TicksNoMr c e := by
  cases e with
  | tick s a => exact h s
  | _ => trivial

/-- Every event keeps `peer_info` to the peer's MR. -/
theorem KeyedConnection.closeStep {e : CloseEvent} (h : KeyedConnection g.conn)
    (hflow : ∀ s, MessageFlow (g.accepted s) (g.trans s) (g.inbox s.peer)
      (g.trans s.peer).responses) (hqueues : ∀ s, (g.trans s).QueuesNoMr)
    (hleaves : LeavesMr e) (hstep : HmrRpc.closeStep g e = some g') : KeyedConnection g'.conn := by
  have hkept {s : Side} {t : HmrRdmaTransport} (hown : t.ownMr = (g.trans s).ownMr)
      (hsame : t.mrsReceived = (g.trans s).mrsReceived ∧ t.peerInfo = (g.trans s).peerInfo ∧
        t.sendTaskList = (g.trans s).sendTaskList ∧ t.transState = (g.trans s).transState)
      (hqp : t.qp.underWay = (g.trans s).qp.underWay ∧ t.qp.sendLog = (g.trans s).qp.sendLog ∧
        t.qp.rq = (g.trans s).qp.rq) : KeyedConnection (g.conn.setTrans s t) := by
    obtain ⟨hmrs, hpeer, hlist, hstate⟩ := hsame
    obtain ⟨hway, hlog, hrq⟩ := hqp
    exact h.setTrans hown ((h.ends s).of_same hown hmrs hpeer ⟨hlist, hway, hlog⟩
      (hstate ▸ (h.ends s).ready)) (fun wr hwr => h.recvs s wr (hrq ▸ hwr)) hmrs.ge
  have hticks (e : ConnectionEvent) : TicksNoMr g.conn e := ticksNoMr_of_queues hqueues e
  cases closeStep_cases hstep with
  | received s o frame rest t hinbox hdata =>
    have hfirst := hflow s.peer
    rw [Side.peer_peer, hinbox] at hfirst
    obtain ⟨encoded, wire, hwire, hcarries, -⟩ := hfirst.first
    have hmem : encoded ∈ (g.conn.trans s.peer).qp.encoded := by
      change encoded ∈ (g.trans s.peer).qp.encoded
      simp [hwire]
    have hframe := ((h.ends s.peer).encoded encoded hmem).carried hcarries
    exact h.handled hdata ((h.ends s).recvComplete (h.recvs s) (fun _ => hframe) hdata)
  | recvFailed | sent | submitted =>
    refine h.step ?_ (hticks _) (closeStep_conn (by simp) hstep)
    exact hleaves
  | other e conn he =>
    refine h.step hleaves (hticks e) (closeStep_conn ?_ hstep)
    rintro s o rfl
    exact he
  | delivered => exact h
  | disconnected s t _ hhandler =>
    obtain rfl := onCmDisconnected_eq hhandler
    exact hkept (ownMr_released (g.trans s)) ⟨rfl, rfl, rfl, rfl⟩ ⟨rfl, rfl, rfl⟩
  | respSet => exact hkept rfl ⟨rfl, rfl, rfl, rfl⟩ ⟨rfl, rfl, rfl⟩

end Keyed

section Requests

variable {wr : IbvSendWr} {frames frames' : List Frame}

@[simp] theorem writeFrames_append :
    writeFrames (frames ++ frames') = writeFrames frames ++ writeFrames frames' :=
  List.filter_append _ _

/-- A filled request is a WRITE exactly if its frame is one. -/
theorem IbvSendWr.Filled.write_iff (h : wr.Filled) (hencoded : wr.wrId.Encoded) :
    wr.opcode = .rdmaWrite ↔ receivedType wr.wrId.frame.byte = .write := by
  rw [h.2, hmrGetOpcodeFromTask_eq_write, hencoded.taskType]

/-- It writes as many bytes as its frame has. -/
theorem IbvSendWr.Filled.written (h : wr.Filled) (hencoded : wr.wrId.Encoded)
    (hlength : wr.opcode = .rdmaWrite → wr.sgList.length = wr.wrId.frame.length) :
    extent ([wr].filterMap IbvSendWr.target) =
      ((writeFrames [wr.wrId.frame]).map Frame.length).sum := by
  by_cases hwrite : wr.opcode = .rdmaWrite
  · have htype := (h.write_iff hencoded).mp hwrite
    simp [IbvSendWr.target, hwrite, writeFrames, htype, hlength hwrite]
  · have htype := mt (h.write_iff hencoded).mpr hwrite
    simp [IbvSendWr.target, hwrite, writeFrames, htype]

/-- It is a SEND for the application exactly if its frame is two-sided. -/
theorem IbvSendWr.Filled.twoSided_iff (h : wr.Filled) (hencoded : wr.wrId.Encoded) :
    wr.wrId.frame.twoSided ↔ wr.opcode = .send ∧ wr.wrId.frame.forApp := by
  simp only [Frame.twoSided, Frame.forApp, h.2, hmrGetOpcodeFromTask_eq_send, hencoded.taskType,
    decide_eq_true_eq]
  tauto

/-- A message is two-sided exactly if its frame is. -/
theorem twoSided_frame (msg : HmrMsg) : msg.frame.twoSided = decide msg.TwoSided := by
  have hread : HmrTaskType.ofMsgType msg.msgType = .read ↔ msg.msgType = .read :=
    HmrTaskType.ofMsgType_inj (t := .read)
  rw [Frame.twoSided, decide_eq_decide]
  simp only [HmrMsg.TwoSided, receivedType_frame, ne_eq, HmrTaskType.ofMsgType_eq_mr,
    HmrTaskType.ofMsgType_eq_write, hread]

/-- And a WRITE exactly if its frame is. -/
theorem writeFrames_map (msgs : List HmrMsg) :
    writeFrames (msgs.map HmrMsg.frame) = (msgs.filter (·.msgType = .write)).map HmrMsg.frame := by
  simp only [writeFrames, List.filter_map, Function.comp_def, receivedType_frame,
    HmrTaskType.ofMsgType_eq_write]

/-- No WRITE is an MR. -/
theorem writeFrames_appFrames (frames : List Frame) :
    writeFrames (appFrames frames) = writeFrames frames := by
  rw [writeFrames, appFrames, List.filter_filter, writeFrames]
  refine List.filter_congr fun frame _ => ?_
  by_cases htype : receivedType frame.byte = .write <;> simp [Frame.forApp, htype]

/-- A two-sided frame is for the application. -/
theorem countP_appFrames (frames : List Frame) :
    (appFrames frames).countP Frame.twoSided = frames.countP Frame.twoSided := by
  rw [appFrames, List.countP_filter]
  refine List.countP_congr fun frame _ => ?_
  simp only [Frame.twoSided, Frame.forApp, Bool.and_eq_true, decide_eq_true_eq]
  tauto

end Requests

section Fabric

variable {r r' : FabricState} {g : CloseState} {s : Side} {wr : IbvSendWr}

/-- Without a pool on the peer nothing is written. -/
theorem FabricInv.unwritten (h : FabricInv r) (hnone : (r.close.trans s).normalMempool = none) :
    r.written s.peer = [] := by
  have hkey := h.keyed.ends s.peer
  rw [Side.peer_peer] at hkey
  refine List.filter_eq_nil_iff.mpr fun frame hframe htype => ?_
  obtain ⟨wr, hwr, rfl⟩ := List.mem_map.mp hframe
  have hlog : wr ∈ (r.close.trans s.peer).qp.sendLog := List.mem_of_mem_take hwr
  have hwrite : wr.opcode = .rdmaWrite :=
    ((h.delivery.filled s.peer wr hlog).write_iff ((h.delivery.flow s.peer).posted wr hlog)).mpr
      (of_decide_eq_true htype)
  have hremote : wr ∈ (r.close.conn.trans s.peer).remoteWrites :=
    List.mem_filter.mpr ⟨hlog, decide_eq_true hwrite⟩
  obtain ⟨mr, hmr, -⟩ := (hkey.posted wr hremote).2
  have hown : (r.close.conn.trans s).ownMr = none := congrArg (Option.map HmrMempool.rdmaMr) hnone
  rw [hown] at hmr
  contradiction

/-- The SENDs carried out are those whose frames have reached the peer. -/
theorem FabricInv.sends_split (h : FabricInv r) :
    ((r.done s).filter fun wr => wr.opcode = .send).length = r.close.arrived s ∧
      (r.close.trans s).sends = ((r.done s).filter fun wr => wr.opcode = .send) ++
        ((r.close.trans s).qp.sendLog.drop (r.carried s)).filter fun wr => wr.opcode = .send := by
  constructor
  · rw [← List.countP_eq_length_filter]
    exact h.sent s
  · rw [← List.filter_append, FabricState.done, List.take_append_drop]
    rfl

/-- What the HCA has still to read for a SEND is among what it has still to read. -/
theorem FabricInv.unread_subset (h : FabricInv r) : r.close.unread s ⊆ r.pending s := by
  refine List.append_subset.mpr ⟨List.subset_append_left _ _, ?_⟩
  refine List.subset_append_of_subset_right _ (List.map_subset _ ?_)
  obtain ⟨hdone, hsplit⟩ := h.sends_split (s := s)
  change (r.close.trans s).sends.drop (r.close.arrived s) ⊆ _
  rw [hsplit, List.drop_left' hdone]
  exact List.filter_sublist.subset

/-- The requests of the other side, and those behind the next one. -/
theorem carry_done (hnext : r.nextRequest s = some wr)
    (hlog : ∀ u, (g.trans u).qp.sendLog = (r.close.trans u).qp.sendLog) :
    (r.carry s g).done s = r.done s ++ [wr] ∧ (r.carry s g).done s.peer = r.done s.peer := by
  constructor
  · rw [FabricState.done, FabricState.done]
    change (g.trans s).qp.sendLog.take (Function.update r.carried s (r.carried s + 1) s) = _
    rw [hlog, Function.update_self, List.take_add_one, show (r.close.trans s).qp.sendLog[_]? = _
      from hnext]
    rfl
  · change (g.trans s.peer).qp.sendLog.take (Function.update r.carried s _ s.peer) = _
    rw [hlog, Function.update_of_ne s.peer_ne]
    rfl

/-- So what they wrote grows by the frame of the next, if it is a WRITE. -/
theorem carry_written (hnext : r.nextRequest s = some wr)
    (hlog : ∀ u, (g.trans u).qp.sendLog = (r.close.trans u).qp.sendLog) :
    (r.carry s g).written s = r.written s ++ writeFrames [wr.wrId.frame] ∧
      (r.carry s g).written s.peer = r.written s.peer := by
  obtain ⟨hself, hpeer⟩ := carry_done hnext hlog
  constructor
  · rw [FabricState.written, FabricState.doneFrames, hself, List.map_append, writeFrames_append]
    rfl
  · rw [FabricState.written, FabricState.doneFrames, hpeer]
    rfl

/-- Carrying out a request keeps the invariant, if the pools keep what is then written. -/
theorem FabricInv.carry (h : FabricInv r) (hnext : r.nextRequest s = some wr)
    (hdelivery : DeliveryInv InRing g) (hkeyed : KeyedConnection g.conn)
    (hsame : ∀ u, (g.trans u).sendTaskList = (r.close.trans u).sendTaskList ∧
      (g.trans u).qp = (r.close.trans u).qp ∧ (g.trans u).peerInfo = (r.close.trans u).peerInfo)
    (harrived : g.arrived s = r.close.arrived s + (if wr.opcode = .send then 1 else 0) ∧
      g.arrived s.peer = r.close.arrived s.peer)
    (hlength : wr.opcode = .rdmaWrite → wr.sgList.length = wr.wrId.frame.length)
    (hkept : ∀ u, (g.trans u).Keeps (WithRegion ((r.carry s g).written u.peer)) (r.pending u)) :
    FabricInv (r.carry s g) := by
  have hlog (u : Side) : (g.trans u).qp.sendLog = (r.close.trans u).qp.sendLog := by
    rw [(hsame u).2.1]
  obtain ⟨hself, hpeer⟩ := carry_done hnext hlog
  have hmem : wr ∈ (r.close.trans s).qp.sendLog := List.mem_of_getElem? hnext
  obtain ⟨hframes, hframes'⟩ := carry_written hnext hlog
  refine ⟨hdelivery, hkeyed, fun u => ?_, fun u => ?_, fun u => ?_, fun u => ?_, fun u => ?_,
    fun u => ?_⟩
  · exact (requested_of_same (hsame u).1 (hlog u)).trans (h.requested u)
  · change Function.update r.carried s (r.carried s + 1) u ≤ (g.trans u).qp.sendLog.length
    rw [hlog]
    rcases s.eq_or_peer u with rfl | rfl
    · rw [Function.update_self]
      exact (List.getElem?_eq_some_iff.mp hnext).1
    · rw [Function.update_of_ne s.peer_ne]
      exact h.carried s.peer
  · change _ = g.arrived u
    rcases s.eq_or_peer u with rfl | rfl
    · rw [hself, harrived.1, List.countP_append, h.sent]
      simp [List.countP_cons]
    · rw [hpeer, harrived.2, h.sent]
  · refine (h.ranges u).of_writes (hsame u).2.2 ?_
    change (g.trans u).remoteWrites = _
    rw [HmrRdmaTransport.remoteWrites, hlog, HmrRdmaTransport.remoteWrites]
  · rcases s.eq_or_peer u with rfl | rfl
    · rw [hself, hframes, List.filterMap_append, extent_append, h.sized, List.map_append,
        List.sum_append,
        (h.delivery.filled u wr hmem).written ((h.delivery.flow u).posted wr hmem) hlength]
    · rw [hpeer, hframes', h.sized]
  · exact (hkept u).mono (withRegion_keptIf _) (carry_pending u ⟨(hsame u).1, (hsame u).2.1⟩)

/-- An event that delivers nothing keeps the invariant. -/
theorem FabricInv.close {e : CloseEvent} (h : FabricInv r) (horderly : r.Orderly (.close e))
    (hdeliver : ∀ u, e ≠ .deliver u) (hstep : closeStep r.close e = some g) :
    FabricInv { r with
      close := g, submitted := fun u => r.submitted u ++ r.close.newMessages g e u } := by
  obtain ⟨⟨hattentive, hleaves⟩, hwrites, hclear⟩ := horderly
  have hside (u : Side) := closeStep_side (withRegion_keptIf (r.written u.peer)) h.delivery
    (fun hnone _ => by rw [h.unwritten hnone]; exact withRegion_nil (by decide)) (h.kept u) hdeliver
    (fun msg => hclear u msg) hwrites hstep
  have hlog (u : Side) : ∃ chain, (g.trans u).qp.sendLog = (r.close.trans u).qp.sendLog ++ chain := by
    obtain ⟨tasks, chain, -, hlog, -⟩ := (hside u).sends
    exact ⟨chain, hlog⟩
  have hdone (u : Side) : (g.trans u).qp.sendLog.take (r.carried u) = r.done u := by
    obtain ⟨chain, hchain⟩ := hlog u
    rw [hchain, List.take_append_of_le_length (h.carried u)]
    rfl
  have hwritten (u : Side) : writeFrames (((g.trans u).qp.sendLog.take (r.carried u)).map
      fun wr => wr.wrId.frame) = r.written u := by
    rw [hdone]
    rfl
  have hkeyed : KeyedConnection g.conn :=
    h.keyed.closeStep h.delivery.flow (h.delivery.queuesNoMr inRing_keptIf) hleaves hstep
  refine ⟨?_, hkeyed, fun u => ?_, fun u => ?_, fun u => ?_, fun u => (hside u).ranges (h.ranges u),
    fun u => ?_, fun u => ?_⟩
  · refine h.delivery.step inRing_keptIf inRing_nil ⟨hattentive, fun u msg hmsg pool hpool => ?_⟩ hstep
    exact HmrMsg.Clear.mono (hclear u msg hmsg pool hpool) h.unread_subset
  · rw [(hside u).requested, h.requested, List.map_append]
  · obtain ⟨chain, hchain⟩ := hlog u
    change r.carried u ≤ (g.trans u).qp.sendLog.length
    rw [hchain, List.length_append]
    exact (h.carried u).trans (Nat.le_add_right _ _)
  · change ((g.trans u).qp.sendLog.take (r.carried u)).countP _ = g.arrived u
    rw [hdone, h.sent, (hside u).arrived (h.delivery.flow u) (closeStep_inbox hdeliver hstep)]
  · change extent (((g.trans u).qp.sendLog.take (r.carried u)).filterMap _) =
      ((writeFrames (((g.trans u).qp.sendLog.take (r.carried u)).map _)).map _).sum
    rw [hwritten, hdone, h.sized]
  · have hkeeps := (hside u).keeps (withRegion_keptIf _) (h.carried u)
    rw [← hwritten] at hkeeps
    exact hkeeps

/-- A frame that reaches the peer keeps the invariant. -/
theorem FabricInv.deliver (h : FabricInv r) (hnext : r.nextRequest s.peer = some wr)
    (hsend : wr.opcode = .send) (hstep : closeStep r.close (.deliver s) = some g) :
    FabricInv (r.carry s.peer g) := by
  have hdelivery := h.delivery.step inRing_keptIf inRing_nil
    (e := .deliver s) ⟨trivial, by simp [CloseState.encodes]⟩ hstep
  cases closeStep_cases hstep with
  | delivered s wr' frame hnext' =>
    have hpos : 0 < r.close.undelivered s.peer := (Option.ite_none_right_eq_some.mp hnext').1
    have hwire := (h.delivery.flow s.peer).wire_le
    rw [CloseState.undelivered, Side.peer_peer] at hpos
    refine h.carry hnext hdelivery h.keyed (fun u => ⟨rfl, rfl, rfl⟩) ⟨?_, ?_⟩ ?_ fun u => ?_
    · rw [if_pos hsend]
      change (r.close.trans s.peer).sends.length - ((r.close.trans s.peer).qp.encoded.length -
        (Function.update r.close.inbox s (r.close.inbox s ++ [frame]) s.peer.peer).length) =
          (r.close.trans s.peer).sends.length - ((r.close.trans s.peer).qp.encoded.length -
            (r.close.inbox s.peer.peer).length) + 1
      rw [Side.peer_peer, Function.update_self, List.length_append, List.length_singleton]
      omega
    · rw [Side.peer_peer]
      change (r.close.trans s).sends.length - ((r.close.trans s).qp.encoded.length -
        (Function.update r.close.inbox s (r.close.inbox s ++ [frame]) s.peer).length) = _
      rw [Function.update_of_ne s.peer_ne]
      rfl
    · rw [hsend]
      intro hwrite
      contradiction
    · obtain ⟨hself, hpeer⟩ := carry_written (g := { r.close with
        inbox := Function.update r.close.inbox s (r.close.inbox s ++ [frame]) }) hnext fun u => rfl
      have hmem : wr ∈ (r.close.trans s.peer).qp.sendLog := List.mem_of_getElem? hnext
      have hnone : writeFrames [wr.wrId.frame] = [] := by
        refine List.filter_cons_of_neg fun htype => ?_
        have hwrite := ((h.delivery.filled s.peer wr hmem).write_iff
          ((h.delivery.flow s.peer).posted wr hmem)).mpr (of_decide_eq_true htype)
        rw [hsend] at hwrite
        contradiction
      rw [hnone, List.append_nil] at hself
      rw [Side.peer_peer] at hpeer
      rcases s.eq_or_peer u with rfl | rfl
      · rw [hself]
        exact h.kept u
      · rw [Side.peer_peer, hpeer]
        have hkept := h.kept s.peer
        rwa [Side.peer_peer] at hkept

/-- A WRITE that the HCA places goes behind those before it. -/
theorem FabricInv.placed {pool : HmrMempool} (h : FabricInv r) (hnext : r.nextRequest s = some wr)
    (hwrite : wr.opcode = .rdmaWrite)
    (hpool : (r.close.trans s.peer).normalMempool = some pool)
    (hcontains : pool.rdmaMr.Contains wr) :
    wr.remoteAddr = pool.rdmaMr.addr.toNat + ((r.written s).map Frame.length).sum := by
  obtain ⟨hlt, hget⟩ := List.getElem?_eq_some_iff.mp hnext
  obtain ⟨rest, hlog⟩ : ∃ rest, (r.close.trans s).qp.sendLog = r.done s ++ wr :: rest := by
    refine ⟨(r.close.trans s).qp.sendLog.drop (r.carried s + 1), ?_⟩
    rw [← hget, ← List.drop_eq_getElem_cons hlt]
    exact (List.take_append_drop _ _).symm
  have hremote : wr ∈ (r.close.conn.trans s).remoteWrites :=
    List.mem_filter.mpr ⟨List.mem_of_getElem? hnext, decide_eq_true hwrite⟩
  have hkey := h.keyed.ends s
  have hmr : (r.close.conn.trans s.peer).ownMr = some (r.close.trans s).peerInfo.normalMr :=
    hkey.learned (hkey.posted wr hremote).1
  have hown : (r.close.conn.trans s.peer).ownMr = some pool.rdmaMr :=
    congrArg (Option.map HmrMempool.rdmaMr) hpool
  obtain hsame : pool.rdmaMr = _ := Option.some.inj (hown.symm.trans hmr)
  have hranges := h.ranges s
  have hsplit : FlushHistory.ranges ⟨r.close.trans s, 0⟩ =
      (r.done s).filterMap IbvSendWr.target ++ (wr.remoteAddr, wr.sgList.length) ::
        rest.filterMap IbvSendWr.target := by
    change (r.close.trans s).qp.sendLog.filterMap IbvSendWr.target = _
    rw [hlog, List.filterMap_append, List.filterMap_cons]
    simp [IbvSendWr.target, hwrite]
  have hconsecutive := hranges.consecutive
  have hcursor := hranges.cursor
  have hroom := hranges.room
  rw [hsplit, consecutive_append, zero_add, h.sized, ← hsame] at hconsecutive
  rw [hsplit, extent_append, h.sized] at hcursor
  have hplace : wr.remoteAddr = (pool.rdmaMr.addr.toNat +
    (((r.written s).map Frame.length).sum : ℕ)) % 2 ^ 64 := hconsecutive.2.1
  have hlo := hcontains.1
  have haddr := pool.rdmaMr.addr.toNat_lt
  unfold intMax at hroom
  omega

/-- A WRITE that reaches the peer keeps the invariant. -/
theorem FabricInv.write {frame : Frame} {pool pool' : HmrMempool} (h : FabricInv r)
    (hnext : r.nextRequest s = some wr) (hwrite : wr.opcode = .rdmaWrite)
    (hread : (r.close.trans s).hcaRead wr = some frame)
    (hpool : (r.close.trans s.peer).normalMempool = some pool)
    (hplace : pool.hcaPlace wr frame = some pool') :
    FabricInv (r.carry s (r.close.setPool s.peer pool')) := by
  obtain ⟨⟨-, hcontains⟩, hsome⟩ := Option.ite_none_right_eq_some.mp hplace
  have haddr := h.placed hnext hwrite hpool hcontains
  rw [haddr, add_sub_cancel_left] at hsome
  have hmem : wr ∈ (r.close.trans s).qp.sendLog := List.mem_of_getElem? hnext
  have hfilled := h.delivery.filled s wr hmem
  have hencoded := (h.delivery.flow s).posted wr hmem
  have hpending : wr.wrId ∈ r.pending s := by
    refine List.mem_append_right _ (List.mem_map_of_mem ?_)
    rw [FabricState.nextRequest, ← List.head?_drop] at hnext
    exact List.mem_of_mem_head? hnext
  have hcarries := (h.kept s).carries (withRegion_keptIf _) hpending hfilled hread
  have hlength : wr.sgList.length = wr.wrId.frame.length := by
    obtain ⟨pool, -, rfl⟩ := Option.map_eq_some_iff.mp hread
    exact hcarries.length
  have hframe : writeFrames [wr.wrId.frame] = [wr.wrId.frame] :=
    List.filter_cons_of_pos (decide_eq_true ((hfilled.write_iff hencoded).mp hwrite))
  have hown : HmrRdmaTransport.ownMr { r.close.trans s.peer with normalMempool := some pool' } =
      (r.close.trans s.peer).ownMr := by
    rw [HmrRdmaTransport.ownMr, HmrRdmaTransport.ownMr, hpool, ← Option.some.inj hsome]
    rfl
  have hkey := h.keyed.ends s.peer
  obtain ⟨hself, hpeer⟩ := carry_written (g := r.close.setPool s.peer pool') hnext fun u => by
    rw [(setPool_frame ..).2.1]
  refine h.carry hnext ?_ ?_ (setPool_frame r.close s.peer _) ⟨?_, setPool_arrived ..⟩
    (fun _ => hlength) fun u => ?_
  · refine h.delivery.silent (s := s.peer) inRing_keptIf (setTrans_self ..) (setTrans_peer ..)
      (fun hne => ⟨hown, hne⟩) rfl (h.delivery.sameRecvs rfl) ⟨rfl, rfl, rfl⟩ (.refl _) ?_
    rw [← Option.some.inj hsome]
    refine (h.delivery.kept s.peer).setMemory hpool fun hring => hring.copy _ _ ?_
    exact le_add_of_le_of_nonneg (by decide) (Nat.cast_nonneg _)
  · exact h.keyed.setTrans hown (hkey.of_same hown rfl rfl ⟨rfl, rfl, rfl⟩ hkey.ready)
      (h.keyed.recvs s.peer) le_rfl
  · rw [hwrite, setPool_arrived]
    rfl
  · rcases s.peer.eq_or_peer u with rfl | rfl
    · rw [setPool_self, Side.peer_peer, hself, hframe, ← Option.some.inj hsome]
      refine (h.kept s.peer).setMemory hpool fun hheld => ?_
      rw [Side.peer_peer] at hheld
      refine ⟨hheld.1.copy _ _ ?_, hheld.2.copy hcarries⟩
      exact le_add_of_le_of_nonneg (by decide) (Nat.cast_nonneg _)
    · rw [setPool_peer, Side.peer_peer s.peer, hpeer, Side.peer_peer]
      exact h.kept s

/-- Every orderly event keeps the invariant. -/
theorem FabricInv.step {e : FabricEvent} (h : FabricInv r) (horderly : r.Orderly e)
    (hstep : fabricStep r e = some r') : FabricInv r' := by
  cases fabricStep_cases hstep with
  | closed e g hdeliver hclose => exact h.close horderly hdeliver hclose
  | delivered s wr g hnext hsend hclose => exact h.deliver hnext hsend hclose
  | written s wr frame pool pool' hnext hwrite hread hpool hplace =>
    exact h.write hnext hwrite hread hpool hplace

/-- The messages handed over were carried out as SENDs. -/
theorem FabricInv.responses_le (h : FabricInv r) :
    (r.close.trans s.peer).responses.length ≤ (r.doneFrames s).countP Frame.twoSided := by
  obtain ⟨taken, hsent, htaken⟩ := (h.delivery.flow s).encoded
  obtain ⟨hdone, hsplit⟩ := h.sends_split (s := s)
  have hframes := sends_frames (r.close.trans s)
  have hlength := congrArg List.length hframes
  rw [hsent, List.length_map, List.length_append] at hlength
  have hle : taken.length ≤ r.close.arrived s := by
    rw [CloseState.arrived, CloseState.undelivered]
    omega
  rw [hsplit, List.map_append, hsent] at hframes
  have hsends : ((r.done s).filter fun wr => wr.opcode = .send).map (·.wrId.frame) <+:
      taken ++ (r.close.trans s).qp.encoded := by
    rw [← hframes]
    exact List.prefix_append _ _
  have hpre : taken <+: ((r.done s).filter fun wr => wr.opcode = .send).map (·.wrId.frame) := by
    refine List.prefix_of_prefix_length_le (List.prefix_append _ _) hsends ?_
    rwa [List.length_map, hdone]
  calc (r.close.trans s.peer).responses.length
      = (appFrames taken).length := htaken.symm
    _ ≤ (appFrames (((r.done s).filter fun wr => wr.opcode = .send).map (·.wrId.frame))).length :=
        (hpre.filter _).length_le
    _ = (r.done s).countP fun wr => wr.wrId.frame.forApp && wr.opcode = .send := by
        simp only [appFrames, ← List.countP_eq_length_filter, List.countP_map, List.countP_filter,
          Function.comp_def]
    _ = (r.doneFrames s).countP Frame.twoSided := by
        rw [FabricState.doneFrames, List.countP_map]
        refine List.countP_congr fun wr hwr => ?_
        have hmem : wr ∈ (r.close.trans s).qp.sendLog := List.mem_of_mem_take hwr
        have htwo := (h.delivery.filled s wr hmem).twoSided_iff ((h.delivery.flow s).posted wr hmem)
        rw [Bool.and_eq_true, decide_eq_true_eq, Function.comp_apply, htwo]
        exact and_comm

/-- Behind the invariant the WRITEs are there when a message behind them is handed over. -/
theorem FabricInv.notified (h : FabricInv r) : r.Notified := by
  intro s before hpre hcount pool hpool
  have happ : appFrames (r.doneFrames s.peer) <+: (r.submitted s.peer).map HmrMsg.frame := by
    rw [← h.requested]
    exact (((List.take_prefix _ _).map _).filter _).trans (List.prefix_append _ _)
  obtain ⟨msgs, hmsgs, hframes⟩ := List.prefix_map_iff.mp happ
  have hhanded : (r.close.trans s).responses.length ≤ msgs.countP fun msg => msg.TwoSided := by
    have hle := h.responses_le (s := s.peer)
    rw [Side.peer_peer, ← countP_appFrames, hframes, List.countP_map] at hle
    simpa only [Function.comp_def, twoSided_frame] using hle
  have hbefore : before <+: msgs :=
    (List.prefix_or_prefix_of_prefix hpre hmsgs).resolve_right fun hle =>
      absurd (hle.sublist.countP_le (p := fun msg => msg.TwoSided)) (by omega)
  have hwritten : writeFrames (before.map HmrMsg.frame) <+: r.written s.peer := by
    rw [FabricState.written, ← writeFrames_appFrames (r.doneFrames s.peer), hframes]
    exact (hbefore.map _).filter _
  obtain ⟨rest, hrest⟩ := hwritten
  have hlaid := ((h.kept s).held pool hpool).2
  rw [← hrest, writeFrames_map, laidFrom_append] at hlaid
  exact hlaid.1

/-- Parties that start have the invariant. -/
theorem FabricState.Starts.inv (h : r.Starts) : FabricInv r := by
  have hidle (s : Side) : (r.close.trans s).Unused := h.close.conn.unused s
  have hdone (s : Side) : r.done s = [] := by simp [FabricState.done, h.carried s]
  have hwritten (s : Side) : r.written s = [] := by
    rw [FabricState.written, FabricState.doneFrames, hdone]
    rfl
  refine ⟨h.close.deliveryInv inRing_nil h.laid, h.close.conn.keyed, fun s => ?_, fun s => ?_,
    fun s => ?_, fun s => ?_, fun s => ?_, fun s => ?_⟩
  · rw [HmrRdmaTransport.requested, (hidle s).log, (hidle s).list, h.submitted s]
    rfl
  · rw [h.carried s]
    exact Nat.zero_le _
  · rw [hdone, CloseState.arrived, HmrRdmaTransport.sends, (hidle s).log]
    exact (Nat.zero_sub _).symm
  · have hlearned := rangeOrder_learned (hidle s).cursor
    rwa [HmrRdmaTransport.writeTargets, (hidle s).log] at hlearned
  · rw [hdone, hwritten]
    rfl
  · rw [hwritten, FabricState.pending, (hidle s).log, (hidle s).list]
    exact ((h.close.deliveryInv withRegion_nil h.laid).kept s).mono (withRegion_keptIf _) (by simp)

/-- In every orderly run a side finds the WRITEs its peer accepted ahead of a message in its region,
one behind another from its start, by the time the message is handed over. -/
theorem notified_run {events : List FabricEvent} (hstart : r.Starts)
    (horderly : Guarded fabricStep FabricState.Orderly r events) :
    Always fabricStep FabricState.Notified r events :=
  always_of_guarded (D := fun _ => True) (fun _ h => h.notified)
    (fun _ _ _ _ h horderly hstep => h.step horderly hstep) (fun _ _ => trivial) hstart.inv horderly

end Fabric

/-- The sample parties and their HCAs. -/
def sampleFabric : FabricState := ⟨sampleClose, fun _ => 0, fun _ => []⟩

/-- Behind the exchange the client sends a WRITE and a message, and both reach the server. -/
def writtenThenTold : List FabricEvent :=
  ([.setProcessResp .server, .conn .accept, .conn .acceptConnecting,
    .conn (.acceptMempool sampleMempoolOutcomes), .conn (.acceptPost .ok), .conn (.acceptPost .ok),
    .conn (.established .server .ok), .conn (.established .client .ok), .deliver .server,
    .conn (.sendComplete .client 0 .success .ok), .conn (.recvComplete .server .ok),
    .deliver .client, .conn (.recvComplete .client .ok),
    .conn (.check .client (sampleMsg .write 8)), .conn (.submit .client 0 .ok),
    .conn (.check .client (sampleMsg .normal 8)), .conn (.submit .client 0 .ok),
    .conn (.tick .client none)] : List CloseEvent).map .close ++
  [.write .client, .close (.deliver .server), .close (.conn (.recvComplete .server .ok))]

/-- The run is orderly, and the server is handed the message when the WRITE is in its region. -/
theorem notified_sample : ((runEvents fabricStep sampleFabric writtenThenTold).map fun r =>
      ((r.close.trans .server).responses.length, (r.written .client).length)) = some (1, 1) ∧
    Always fabricStep FabricState.Notified sampleFabric writtenThenTold :=
  ⟨by decide +kernel,
    notified_run ⟨sampleClose_starts, sampleClose_laidOut, fun _ => rfl, fun _ => rfl⟩
      (by decide +kernel)⟩

end HmrRpc
