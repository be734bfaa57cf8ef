import HmrRpc.TwoParty

/-!
# One-sided writes use the peer's key

WRITE messages pass the check only in RCONNECTED, which a transport enters when an MR
arrives, but the key is read from `peer_info` at a later tick. What ties the two is that
an MR on a wire is the sender's own, so `peer_info` holds the peer's MR from the first one
on, however the state moves in between.

The allocator can give the buffer of a queued message away before the tick posts it. The
peer then takes whatever stands there for the message, and if that starts with the type of
an MR, its bytes for an MR. Only this breaks the tie.
-/

namespace HmrRpc

open Common

/-- A request with the key of the MR, to an address at an `int` offset from it. -/
def KeyedBy (mr : Option IbvMr) (wr : IbvSendWr) : Prop :=
  ∃ mr', mr = some mr' ∧ wr.rkey = mr'.rkey ∧ ∃ offset : ℤ, -2 ^ 31 ≤ offset ∧ offset < 2 ^ 31 ∧
    wr.remoteAddr = (mr'.addr.toNat + offset) % 2 ^ 64

/-- Every WRITE follows the arrival of an MR and carries the key and address of the peer's, and a
WRITE task is queued only behind that arrival. -/
structure WritesKeyed (c : Connection) : Prop where
  posted : ∀ s, ∀ wr ∈ (c.trans s).remoteWrites,
    0 < (c.trans s).mrsReceived ∧ KeyedBy (c.trans s.peer).ownMr wr
  queued : ∀ s, ∀ task ∈ (c.trans s).sendTaskList, task.taskType = .write →
    0 < (c.trans s).mrsReceived

/-- The application leaves MR messages to the exchange. -/
def AppSends : ConnectionEvent → Prop
  | .check _ msg => msg.msgType ≠ .mr
  | _ => True

/-- The buffers of the queued messages that a tick posts as SENDs start with a type, and not with
that of an MR. -/
def HmrRdmaTransport.QueuesNoMr (t : HmrRdmaTransport) : Prop :=
  ∀ pool, t.normalMempool = some pool → ∀ task ∈ t.sendTaskList,
    hmrGetOpcodeFromTask task = .send → sizeofMsgType ≤ task.ibvSge.length ∧
      receivedType (pool.memory.bytesAt task.ibvSge.addr) ≠ .mr

instance (t : HmrRdmaTransport) : Decidable t.QueuesNoMr :=
  decidable_of_iff (∀ pool ∈ t.normalMempool, ∀ task ∈ t.sendTaskList,
    hmrGetOpcodeFromTask task = .send → sizeofMsgType ≤ task.ibvSge.length ∧
      receivedType (pool.memory.bytesAt task.ibvSge.addr) ≠ .mr) Iff.rfl

/-- No tick posts a message whose buffer has been given away and holds an MR by now. -/
def TicksNoMr (c : Connection) : ConnectionEvent → Prop
  | .tick s _ => (c.trans s).QueuesNoMr
  | _ => True

instance (c : Connection) : (e : ConnectionEvent) → Decidable (TicksNoMr c e)
  | .tick s _ => inferInstanceAs (Decidable (c.trans s).QueuesNoMr)
  | .established .. | .sendComplete .. | .recvComplete .. | .recvFail .. | .check .. | .submit ..
  | .accept | .acceptConnecting | .acceptMempool _ | .acceptPost _ => isTrue trivial

instance : (e : ConnectionEvent) → Decidable (AppSends e)
  | .check _ msg => inferInstanceAs (Decidable (msg.msgType ≠ .mr))
  | .established .. | .sendComplete .. | .recvComplete .. | .recvFail .. | .tick .. | .submit ..
  | .accept | .acceptConnecting | .acceptMempool _ | .acceptPost _ => isTrue trivial

/-- A frame that holds a type and, if it is an MR message, announces the given MR. -/
def Announces (mr : Option IbvMr) (frame : Frame) : Prop :=
  sizeofMsgType ≤ frame.length ∧
    (receivedType frame.byte = .mr → ∃ mr', mr = some mr' ∧ frame.Carries (mrMsg mr').frame)

section Announces

variable {mr mr' : Option IbvMr} {frame : Frame}

/-- Carrying is transitive. -/
theorem Frame.Carries.trans {posted encoded : Frame} (h : frame.Carries posted)
    (h' : posted.Carries encoded) : frame.Carries encoded :=
  ⟨h.length.trans h'.length, fun i hi => (h.byte i (h'.length ▸ hi)).trans (h'.byte i hi)⟩

/-- A carried frame has the type of the other. -/
theorem Frame.Carries.receivedType {encoded : Frame} (h : frame.Carries encoded)
    (hlen : sizeofMsgType ≤ encoded.length) :
    HmrRpc.receivedType frame.byte = HmrRpc.receivedType encoded.byte :=
  congrArg HmrTaskType.ofNat (ofLeBytes_congr fun i hi => h.byte i (hi.trans_le hlen))

/-- What announces nothing may announce anything. -/
theorem Announces.mono (h : Announces mr frame) (hmr : ∀ m, mr = some m → mr' = some m) :
    Announces mr' frame := by
  refine ⟨h.1, fun htype => ?_⟩
  obtain ⟨m, hm, hframe⟩ := h.2 htype
  exact ⟨m, hmr m hm, hframe⟩

/-- Every frame has room for its type. -/
theorem sizeofMsgType_le_frame (msg : HmrMsg) : sizeofMsgType ≤ msg.frame.length := by
  simp only [HmrMsg.frame, HmrMsg.encodedLength]
  omega

/-- An encoded MR message has the length of an MR. -/
theorem Announces.encodedLength_lt {msg : HmrMsg} (h : Announces mr msg.frame)
    (htype : msg.msgType = .mr) : msg.encodedLength < 2 ^ 31 := by
  have hmr : receivedType msg.frame.byte = .mr := by
    rw [receivedType_frame, HmrTaskType.ofMsgType_eq_mr]
    exact htype
  obtain ⟨m, -, hframe⟩ := h.2 hmr
  have hlength : msg.encodedLength = 8 + sizeofIbvMr := hframe.length
  rw [hlength]
  decide

/-- A message of another type announces nothing. -/
theorem announces_frame (mr : Option IbvMr) {msg : HmrMsg} (htype : msg.msgType ≠ .mr) :
    Announces mr msg.frame := by
  refine ⟨sizeofMsgType_le_frame msg, fun hmr => absurd ?_ htype⟩
  rwa [receivedType_frame, HmrTaskType.ofMsgType_eq_mr] at hmr

/-- A frame that carries another announces what it does. -/
theorem Announces.carried {encoded : Frame} (h : Announces mr encoded)
    (hcarries : frame.Carries encoded) : Announces mr frame := by
  refine ⟨hcarries.length ▸ h.1, fun htype => ?_⟩
  rw [hcarries.receivedType h.1] at htype
  obtain ⟨m, hm, hframe⟩ := h.2 htype
  exact ⟨m, hm, hcarries.trans hframe⟩

/-- The MR message announces its MR. -/
theorem announces_mrMsg (mr : IbvMr) : Announces (some mr) (mrMsg mr).frame :=
  ⟨sizeofMsgType_le_frame _, fun _ => ⟨mr, rfl, rfl, fun _ _ => rfl⟩⟩

/-- It is short enough to be posted as it is encoded. -/
theorem mrMsg_encodedLength_lt (mr : IbvMr) : (mrMsg mr).encodedLength < 2 ^ 31 :=
  (announces_mrMsg mr).encodedLength_lt rfl

end Announces

/-- What one party keeps, given its peer's MR: only its own MR on its wire and in what it has
encoded, WRITE tasks and RCONNECTED only behind an MR, and then the peer's MR in `peer_info`. -/
structure KeyInv (peerMr : Option IbvMr) (t : HmrRdmaTransport) : Prop where
  wire : ∀ frame ∈ t.qp.wire, Announces t.ownMr frame
  encoded : ∀ frame ∈ t.qp.encoded, Announces t.ownMr frame
  list : ∀ task ∈ t.sendTaskList, Announces t.ownMr task.frame
  queued : ∀ task ∈ t.sendTaskList, task.taskType = .write → 0 < t.mrsReceived
  learned : 0 < t.mrsReceived → peerMr = some t.peerInfo.normalMr
  ready : t.transState = .rconnected → 0 < t.mrsReceived
  cursor : -2 ^ 31 ≤ t.peerInfo.usedNormalSize ∧ t.peerInfo.usedNormalSize < 2 ^ 31
  posted : ∀ wr ∈ t.remoteWrites, 0 < t.mrsReceived ∧ KeyedBy peerMr wr

section Sides

variable {peerMr : Option IbvMr} {o : Outcomes} {t t' : HmrRdmaTransport} {msg : HmrMsg}

/-- A party that has done nothing keeps it. -/
theorem KeyInv.of_unused (h : t.Unused) (hstate : t.transState ≠ .rconnected) :
    KeyInv peerMr t where
  wire := by simp [h.wire]
  encoded := by simp [h.encoded]
  list := by simp [h.list]
  queued := by simp [h.list]
  learned hpos := by simp [h.mrs] at hpos
  ready hready := absurd hready hstate
  cursor := by simp [h.cursor]
  posted := by simp [HmrRdmaTransport.remoteWrites, h.log]

/-- A peer that gets its MR later than the party reads this keeps it. -/
theorem KeyInv.mono (h : KeyInv none t) : KeyInv peerMr t where
  wire := h.wire
  encoded := h.encoded
  list := h.list
  queued := h.queued
  learned hpos := absurd (h.learned hpos) (by simp)
  ready := h.ready
  cursor := h.cursor
  posted wr hwr := absurd (h.learned (h.posted wr hwr).1) (by simp)

/-- So does the party that gets its own MR. -/
theorem KeyInv.setPool (h : KeyInv peerMr t) (hnone : t.ownMr = none) (pool : Option HmrMempool) :
    KeyInv peerMr { t with normalMempool := pool } where
  wire frame hframe := (h.wire frame hframe).mono (by simp [hnone])
  encoded frame hframe := (h.encoded frame hframe).mono (by simp [hnone])
  list task htask := (h.list task htask).mono (by simp [hnone])
  queued := h.queued
  learned := h.learned
  ready := h.ready
  cursor := h.cursor
  posted := h.posted

/-- Steps that leave MRs, peer information and WRITE requests alone keep it when their frames and
tasks do. -/
theorem KeyInv.of_frame (h : KeyInv peerMr t) (hown : t'.ownMr = t.ownMr)
    (hmrs : t'.mrsReceived = t.mrsReceived) (hpeer : t'.peerInfo = t.peerInfo)
    (hwrites : t'.remoteWrites = t.remoteWrites)
    (hstate : t'.transState = .rconnected → 0 < t.mrsReceived)
    (hwire : ∀ frame ∈ t'.qp.wire, Announces t.ownMr frame)
    (hencoded : ∀ frame ∈ t'.qp.encoded, Announces t.ownMr frame)
    (hlist : ∀ task ∈ t'.sendTaskList, Announces t.ownMr task.frame ∧
      (task.taskType = .write → 0 < t.mrsReceived)) : KeyInv peerMr t' := by
  constructor <;> simp only [hown, hmrs, hpeer, hwrites]
  · exact hwire
  · exact hencoded
  · exact fun task htask => (hlist task htask).1
  · exact fun task htask => (hlist task htask).2
  · exact h.learned
  · exact hstate
  · exact h.cursor
  · exact h.posted

/-- Steps that send nothing keep it. -/
theorem KeyInv.of_same (h : KeyInv peerMr t) (hown : t'.ownMr = t.ownMr)
    (hmrs : t'.mrsReceived = t.mrsReceived) (hpeer : t'.peerInfo = t.peerInfo)
    (hsends : t'.sendTaskList = t.sendTaskList ∧ t'.qp.underWay = t.qp.underWay ∧
      t'.qp.sendLog = t.qp.sendLog)
    (hstate : t'.transState = .rconnected → 0 < t.mrsReceived) : KeyInv peerMr t' := by
  obtain ⟨hlist, hway, hlog⟩ := hsends
  have hwire : t'.qp.wire = t.qp.wire := congrArg Prod.fst hway
  have hencoded : t'.qp.encoded = t.qp.encoded := congrArg Prod.snd hway
  have hwrites : t'.remoteWrites = t.remoteWrites := by
    rw [HmrRdmaTransport.remoteWrites, hlog, HmrRdmaTransport.remoteWrites]
  apply h.of_frame hown hmrs hpeer hwrites hstate
  · rw [hwire]
    exact h.wire
  · rw [hencoded]
    exact h.encoded
  · rw [hlist]
    exact fun task htask => ⟨h.list task htask, h.queued task htask⟩

/-- Frames put on a wire are read from the buffers of SEND requests. -/
theorem mem_wireFrames {pool : Option HmrMempool} {chain : List IbvSendWr} {frame : Frame}
    (h : frame ∈ chain.filterMap (IbvSendWr.wireFrame pool)) :
    ∃ wr ∈ chain, wr.opcode = .send ∧ ∃ pool', pool = some pool' ∧ pool'.hcaRead wr = frame := by
  obtain ⟨wr, hwr, hframe⟩ := List.mem_filterMap.mp h
  obtain ⟨hopcode, hframe⟩ := Option.ite_none_right_eq_some.mp hframe
  obtain ⟨pool', hpool, hread⟩ := Option.map_eq_some_iff.mp hframe
  exact ⟨wr, hwr, hopcode, pool', hpool, hread⟩

/-- As encoded they are the frames of tasks. -/
theorem mem_encodedFrames {chain : List IbvSendWr} {frame : Frame}
    (h : frame ∈ chain.filterMap IbvSendWr.encodedFrame) :
    ∃ wr ∈ chain, wr.wrId.frame = frame := by
  obtain ⟨wr, hwr, hframe⟩ := List.mem_filterMap.mp h
  exact ⟨wr, hwr, Option.some.inj (Option.ite_none_right_eq_some.mp hframe).2⟩

/-- Submitting a message keeps it when its frame announces nothing else, and a WRITE follows an
MR. -/
theorem KeyInv.submit (h : KeyInv peerMr t) (hframe : Announces t.ownMr msg.frame)
    (hwrite : msg.msgType = .write → 0 < t.mrsReceived) (hsubmit : SubmitResult o t msg t') :
    KeyInv peerMr t' := by
  have hlist (task : HmrTask) (htask : task ∈ t.sendTaskList) :=
    And.intro (h.list task htask) (h.queued task htask)
  refine h.of_frame hsubmit.ownMr hsubmit.mrsReceived hsubmit.peerInfo hsubmit.remoteWrites
    (by rw [hsubmit.transState]; exact h.ready) ?_ ?_ ?_
  · cases hsubmit with
    | posted pool _ htype =>
      obtain ⟨posted, hwire, hcarries⟩ :=
        postedDirect_wire htype (hframe.encodedLength_lt htype)
      intro frame hmem
      rw [hwire] at hmem
      rcases List.mem_append.mp hmem with hold | hnew
      · exact h.wire frame hold
      · rw [List.mem_singleton.mp hnew]
        exact hframe.carried hcarries
    | _ => exact h.wire
  · cases hsubmit with
    | posted pool =>
      intro frame hmem
      rcases List.mem_append.mp hmem with hold | hnew
      · exact h.encoded frame hold
      · obtain ⟨wr, hwr, rfl⟩ := mem_encodedFrames hnew
        rwa [List.mem_singleton.mp hwr]
    | _ => exact h.encoded
  · cases hsubmit with
    | queued pool =>
      intro task hmem
      rcases List.mem_append.mp hmem with hold | hnew
      · exact hlist task hold
      · obtain rfl := List.mem_singleton.mp hnew
        exact ⟨hframe, fun htype => hwrite (HmrTaskType.ofMsgType_eq_write.mp htype)⟩
    | _ => exact hlist

/-- Sending one of the program's own messages keeps it. -/
theorem KeyInv.send {r : ℤ} (h : KeyInv peerMr t) (hframe : Announces t.ownMr msg.frame)
    (htype : msg.msgType ≠ .write) (hsend : SendResult o t msg r t') : KeyInv peerMr t' := by
  cases hsend with
  | refused => exact h
  | submitted _ _ hsubmit => exact h.submit hframe (fun hwrite => absurd hwrite htype) hsubmit

/-- Sending the transport's own MR keeps it. -/
theorem KeyInv.sendMr {pool : HmrMempool} {r : ℤ} (h : KeyInv peerMr t)
    (hpool : t.normalMempool = some pool) (hsend : SendResult o t (mrMsg pool.rdmaMr) r t') :
    KeyInv peerMr t' := by
  have hown : t.ownMr = some pool.rdmaMr := by rw [HmrRdmaTransport.ownMr, hpool, Option.map_some]
  exact h.send (hown ▸ announces_mrMsg pool.rdmaMr) (by simp [mrMsg]) hsend

/-- Posting a receive keeps it. -/
theorem KeyInv.postRecv {size : ℤ} (h : KeyInv peerMr t) (hpost : PostRecvResult o t size t') :
    KeyInv peerMr t' := by
  obtain ⟨hlist, -, hway, hlog⟩ := hpost.sends
  exact h.of_same hpost.ownMr hpost.mrsReceived hpost.peerInfo ⟨hlist, hway, hlog⟩
    (by rw [hpost.transState]; exact h.ready)

/-- An event that makes the connection established keeps it. -/
theorem KeyInv.established (h : KeyInv peerMr t) (hstep : onCmEstablished o t = .ok t') :
    KeyInv peerMr t' := by
  have hconnected : KeyInv peerMr { t with transState := .connected } :=
    h.of_same rfl rfl rfl ⟨rfl, rfl, rfl⟩ (by simp)
  rcases onCmEstablished_cases hstep with ⟨-, rfl⟩ | ⟨-, pool, r, hpool, hsend⟩
  · exact hconnected
  · exact hconnected.sendMr hpool hsend

/-- A send completion keeps it. -/
theorem KeyInv.sendComplete {i : ℕ} {status : IbvWcStatus} (h : KeyInv peerMr t)
    (hstep : dataStep t (.sendComplete i status o) = some t') : KeyInv peerMr t' := by
  obtain ⟨hpool, hlist, hpeer, hqp⟩ := dataStep_sendComplete_frame hstep
  obtain ⟨-, hmrs, hstate⟩ := dataStep_sendComplete_state hstep
  refine h.of_same ?_ hmrs hpeer ⟨hlist, by rw [hqp]; rfl, by rw [hqp]; rfl⟩ fun hready => ?_
  · rw [HmrRdmaTransport.ownMr, hpool, HmrRdmaTransport.ownMr]
  · rcases hstate with heq | ⟨-, heq⟩
    · exact h.ready (heq ▸ hready)
    · rw [heq] at hready
      contradiction

end Sides

section Tick

variable {peerMr : Option IbvMr} {t t' : HmrRdmaTransport}

/-- The cursor stays an `int` through one pass of the loop. -/
theorem fillSendWr_range {peer : HmrPeerInfo} (i : ℕ) (task : HmrTask)
    (h : -2 ^ 31 ≤ peer.usedNormalSize ∧ peer.usedNormalSize < 2 ^ 31) :
    -2 ^ 31 ≤ (fillSendWr peer i task).2.usedNormalSize ∧
      (fillSendWr peer i task).2.usedNormalSize < 2 ^ 31 := by
  simp only [fillSendWr]
  split
  · exact cInt_range _
  · exact h

/-- It stays one through the whole loop. -/
theorem fillSendWrs_range {peer : HmrPeerInfo} (i : ℕ) (tasks : List HmrTask)
    (h : -2 ^ 31 ≤ peer.usedNormalSize ∧ peer.usedNormalSize < 2 ^ 31) :
    -2 ^ 31 ≤ (fillSendWrs peer i tasks).2.usedNormalSize ∧
      (fillSendWrs peer i tasks).2.usedNormalSize < 2 ^ 31 := by
  induction tasks generalizing peer i with
  | nil => exact h
  | cons task rest ih => exact ih (i + 1) (fillSendWr_range i task h)

/-- The WRITE requests of the loop come from WRITE tasks and are keyed by the peer's MR. -/
theorem fillSendWrs_keyed {peer : HmrPeerInfo} (i : ℕ) (tasks : List HmrTask)
    (h : -2 ^ 31 ≤ peer.usedNormalSize ∧ peer.usedNormalSize < 2 ^ 31) :
    ∀ wr ∈ (fillSendWrs peer i tasks).1, wr.opcode = .rdmaWrite →
      wr.wrId.taskType = .write ∧ KeyedBy (some peer.normalMr) wr := by
  induction tasks generalizing peer i with
  | nil => simp [fillSendWrs]
  | cons task rest ih =>
    intro wr hwr hopcode
    rcases List.mem_cons.mp hwr with rfl | hrest
    · have htype : task.taskType = .write := hmrGetOpcodeFromTask_eq_write.mp hopcode
      refine ⟨htype, peer.normalMr, rfl, ?_, peer.usedNormalSize, h.1, h.2, ?_⟩
      · simp [fillSendWr, hmrGetOpcodeFromTask_eq_write, htype]
      · simp [fillSendWr, hmrGetOpcodeFromTask_eq_write, htype]
    · exact ih (i + 1) (fillSendWr_range i task h) wr hrest hopcode

/-- So are those of the chain. -/
theorem sendChain_keyed {peer : HmrPeerInfo} (tasks : List HmrTask)
    (h : -2 ^ 31 ≤ peer.usedNormalSize ∧ peer.usedNormalSize < 2 ^ 31) :
    ∀ wr ∈ sendChain peer tasks, wr.opcode = .rdmaWrite →
      wr.wrId.taskType = .write ∧ KeyedBy (some peer.normalMr) wr :=
  (forall_sendChain (fun _ => Iff.rfl) peer tasks).mpr (fillSendWrs_keyed 0 tasks h)

/-- The requests of the chain carry tasks of the list. -/
theorem mem_sendChain_wrId {peer : HmrPeerInfo} {tasks : List HmrTask} {wr : IbvSendWr}
    (h : wr ∈ sendChain peer tasks) : wr.wrId ∈ tasks := by
  have hmem := List.mem_map_of_mem (f := IbvSendWr.wrId) h
  rwa [sendChain_wrId] at hmem

/-- Posting any part of the chain, and keeping any part of the list, keeps what a party keeps if no
buffer holds an MR by now. -/
theorem KeyInv.postChain (h : KeyInv peerMr t) (hqueues : t.QueuesNoMr) {chain : List IbvSendWr}
    {rest : List HmrTask}
    (hchain : ∀ wr ∈ chain, wr ∈ sendChain t.peerInfo t.sendTaskList)
    (hrest : ∀ task ∈ rest, task ∈ t.sendTaskList) :
    KeyInv peerMr { HmrRdmaTransport.ibvPostSend
      { t with peerInfo := (fillSendWrs t.peerInfo 0 t.sendTaskList).2 } chain with
        sendTaskList := rest } where
  wire frame hframe := by
    rcases List.mem_append.mp hframe with hold | hnew
    · exact h.wire frame hold
    · obtain ⟨wr, hwr, hopcode, pool, hpool, rfl⟩ := mem_wireFrames hnew
      obtain ⟨hsge, hfilled⟩ := sendChain_filled _ _ wr (hchain wr hwr)
      obtain ⟨hlength, htype⟩ := hqueues pool hpool _ (mem_sendChain_wrId (hchain wr hwr))
        (hfilled ▸ hopcode)
      rw [HmrMempool.hcaRead, hsge]
      exact ⟨hlength, fun hmr => absurd hmr htype⟩
  encoded frame hframe := by
    rcases List.mem_append.mp hframe with hold | hnew
    · exact h.encoded frame hold
    · obtain ⟨wr, hwr, rfl⟩ := mem_encodedFrames hnew
      exact h.list _ (mem_sendChain_wrId (hchain wr hwr))
  list task htask := h.list task (hrest task htask)
  queued task htask := h.queued task (hrest task htask)
  learned hpos := by
    rw [h.learned hpos]
    exact congrArg some (fillSendWrs_normalMr t.peerInfo 0 t.sendTaskList).symm
  ready := h.ready
  cursor := fillSendWrs_range 0 t.sendTaskList h.cursor
  posted wr hwr := by
    obtain ⟨hmem, hopcode⟩ := List.mem_filter.mp hwr
    rcases List.mem_append.mp hmem with hold | hnew
    · exact h.posted wr (List.mem_filter.mpr ⟨hold, hopcode⟩)
    · obtain ⟨htype, hkeyed⟩ :=
        sendChain_keyed t.sendTaskList h.cursor wr (hchain wr hnew) (of_decide_eq_true hopcode)
      have hpos := h.queued _ (mem_sendChain_wrId (hchain wr hnew)) htype
      exact ⟨hpos, h.learned hpos ▸ hkeyed⟩

/-- So a tick keeps it. -/
theorem KeyInv.tick {a : Option ℕ} (h : KeyInv peerMr t) (hqueues : t.QueuesNoMr)
    (htick : TickResult t a t') : KeyInv peerMr t' := by
  cases htick with
  | idle => exact h
  | flushed => exact h.postChain hqueues (fun _ hwr => hwr) (by simp)
  | failed => exact h.postChain hqueues (fun _ hwr => List.mem_of_mem_take hwr) (fun _ htask => htask)

end Tick

section Receive

variable {peerMr : Option IbvMr} {o : Outcomes} {t t' u : HmrRdmaTransport} {bytes : ℕ → UInt8}
  {taskType : HmrTaskType}

/-- Handling a frame keeps what a party keeps, given that a received MR is the peer's. -/
theorem KeyInv.recvBody (h : KeyInv peerMr t)
    (hmr : taskType = .mr → peerMr = some (IbvMr.decode (HmrMsg.decode bytes).data))
    (hbody : RecvBody o t bytes taskType u) : KeyInv peerMr u := by
  have hlearn (hpeer : peerMr = some (IbvMr.decode (HmrMsg.decode bytes).data)) :
      KeyInv peerMr (t.learnMr (.decode bytes)) :=
    ⟨h.wire, h.encoded, h.list, fun _ _ _ => Nat.succ_pos _, fun _ => hpeer, fun _ => Nat.succ_pos _,
      by simp [HmrRdmaTransport.learnMr], fun wr hwr => ⟨Nat.succ_pos _, (h.posted wr hwr).2⟩⟩
  have hrespond (taskType : HmrTaskType) : KeyInv peerMr (t.respond taskType (.decode bytes)) :=
    h.of_same (by simp [HmrRdmaTransport.ownMr]) (by simp) (by simp) (by simp)
      (by rw [respond_transState]; exact h.ready)
  cases hbody with
  | firstMr pool r v _ hpool hsend =>
    have hv : KeyInv peerMr v := (hlearn (hmr rfl)).sendMr hpool hsend
    refine hv.of_same rfl rfl rfl ⟨rfl, rfl, rfl⟩ fun _ => ?_
    rw [hsend.mrsReceived]
    exact Nat.succ_pos _
  | laterMr => exact (hlearn (hmr rfl)).of_same rfl rfl rfl ⟨rfl, rfl, rfl⟩ fun _ => Nat.succ_pos _
  | finish r _ hsend =>
    exact (hrespond .finish).send (announces_frame _ (by simp [closingMsg])) (by simp [closingMsg])
      hsend
  | done => exact (hrespond .done).of_same rfl rfl rfl ⟨rfl, rfl, rfl⟩ (hrespond .done).ready
  | plain => exact hrespond _

/-- Receiving a frame that announces the peer's MR keeps what a party keeps. -/
theorem KeyInv.recvComplete {frame : Frame} {status : IbvWcStatus} (h : KeyInv peerMr t)
    (hmatch : t.RecvsMatch) (hframe : status = .success → Announces peerMr frame)
    (hstep : dataStep t (.recvComplete frame status o) = some t') : KeyInv peerMr t' := by
  cases dataStep_recvComplete hstep with
  | flushed => exact h.of_same rfl rfl rfl ⟨rfl, rfl, rfl⟩ h.ready
  | received wr pool u _ hhead hpool hbody hrepost =>
    have hwr : wr.sgList.addr = wr.wrId.sgeList.addr := hmatch wr (List.mem_of_mem_head? hhead)
    have hpolled : KeyInv peerMr (t.pollRecv.hcaWrite wr.sgList.addr frame) := by
      refine h.of_same ?_ rfl rfl ⟨rfl, rfl, rfl⟩ h.ready
      simp only [HmrRdmaTransport.ownMr, HmrRdmaTransport.hcaWrite, Option.map_map]
      rfl
    refine KeyInv.postRecv (hpolled.recvBody (fun hmr => ?_) hbody) hrepost
    rw [receivedType_of_match hwr hpool (hframe rfl).1] at hmr
    obtain ⟨mr, hpeer, hcarries⟩ := (hframe rfl).2 hmr
    rw [hpeer, decode_mrMsg fun i hi => ?_]
    rw [← hwr, ← hcarries.byte i hi]
    exact hcaWrite_bytes hpool (hcarries.length ▸ hi)

end Receive

/-- The whole connection: both parties keep what they must, and the messages past their check may
be submitted. -/
structure KeyedConnection (c : Connection) : Prop extends SoundConnection c where
  ends : ∀ s, KeyInv (c.trans s.peer).ownMr (c.trans s)
  checked : ∀ s, ∀ msg ∈ (c.ends s).checked, msg.msgType ≠ .mr ∧
    (msg.msgType = .write → 0 < (c.trans s).mrsReceived)

section Connection

variable {c c' : Connection} {s : Side}

/-- A step of one party that keeps its MR keeps the connection's invariant. -/
theorem KeyedConnection.setEnd (h : KeyedConnection c) {e : Endpoint}
    (hown : e.trans.ownMr = (c.trans s).ownMr)
    (hinv : KeyInv (c.trans s.peer).ownMr e.trans) (hrecvs : e.trans.RecvsMatch)
    (hchecked : ∀ msg ∈ e.checked, msg.msgType ≠ .mr ∧
      (msg.msgType = .write → 0 < e.trans.mrsReceived)) : KeyedConnection (c.setEnd s e) where
  toSoundConnection := h.toSoundConnection.setEnd hown hrecvs
  ends r := by
    rcases s.eq_or_peer r with rfl | rfl
    · simpa using hinv
    · have hpeer := h.ends s.peer
      rw [Side.peer_peer, ← hown] at hpeer
      simpa using hpeer
  checked r := by
    rcases s.eq_or_peer r with rfl | rfl
    · simpa using hchecked
    · simpa using h.checked s.peer

/-- So does a step of its transport alone that forgets no MR. -/
theorem KeyedConnection.setTrans (h : KeyedConnection c) {t : HmrRdmaTransport}
    (hown : t.ownMr = (c.trans s).ownMr) (hinv : KeyInv (c.trans s.peer).ownMr t)
    (hrecvs : t.RecvsMatch) (hmrs : (c.trans s).mrsReceived ≤ t.mrsReceived) :
    KeyedConnection (c.setTrans s t) := by
  apply h.setEnd hown hinv hrecvs
  intro msg hmsg
  obtain ⟨htype, hwrite⟩ := h.checked s msg hmsg
  exact ⟨htype, fun hmsgType => (hwrite hmsgType).trans_le hmrs⟩

/-- An event of one transport that keeps what its party keeps keeps the connection's invariant. -/
theorem KeyedConnection.data (h : KeyedConnection c) {t : HmrRdmaTransport} {e : DataEvent}
    (hstep : dataStep (c.trans s) e = some t) (hinv : KeyInv (c.trans s.peer).ownMr t) :
    KeyedConnection (c.setTrans s t) :=
  h.setTrans (dataStep_ownMr hstep) hinv (dataStep_recvsMatch (h.recvs s) hstep)
    (dataStep_mrsReceived_le hstep)

/-- So does a message that is taken off the peer's wire and handled. -/
theorem KeyedConnection.handled (h : KeyedConnection c) {t : HmrRdmaTransport} {e : DataEvent}
    (hstep : dataStep (c.trans s) e = some t) (hinv : KeyInv (c.trans s.peer).ownMr t) :
    KeyedConnection (c.handled s t) := by
  have hrecv := h.data hstep hinv
  have hpeer : (c.setTrans s t).trans s.peer = c.trans s.peer := setTrans_peer c s t
  rw [Connection.handled, ← hpeer]
  have hinv := hrecv.ends s.peer
  refine hrecv.setTrans rfl ?_ (hrecv.recvs s.peer) le_rfl
  exact hinv.of_frame rfl rfl rfl rfl hinv.ready
    (fun frame hmem => hinv.wire frame (List.mem_of_mem_tail hmem))
    (fun frame hmem => hinv.encoded frame (List.mem_of_mem_tail hmem))
    fun task htask => ⟨hinv.list task htask, hinv.queued task htask⟩

/-- Accepted WRITE messages were checked in RCONNECTED. -/
theorem hmrMsgReady_write {t : HmrRdmaTransport} {msg : HmrMsg} (h : hmrMsgReady t msg)
    (htype : msg.msgType = .write) : t.transState = .rconnected := by
  simpa [hmrMsgReady, htype] using h

/-- Every event keeps the connection's invariant, unless a tick posts an overwritten message as an
MR. -/
theorem KeyedConnection.step {e : ConnectionEvent} (h : KeyedConnection c) (happ : AppSends e)
    (hticks : TicksNoMr c e) (hstep : connectionStep c e = some c') : KeyedConnection c' := by
  cases connectionStep_cases hstep with
  | established s o t _ hhandler =>
    obtain ⟨-, hown, hrq, hmrs⟩ := onCmEstablished_frame hhandler
    apply h.setEnd hown ((h.ends s).established hhandler)
    · exact fun wr hwr => h.recvs s wr (hrq ▸ hwr)
    · rw [show ({ c.ends s with trans := t } : Endpoint).trans.mrsReceived = _ from hmrs]
      exact h.checked s
  | sendComplete s i status o t hdata => exact h.data hdata ((h.ends s).sendComplete hdata)
  | recvComplete s o frame t hframe hdata =>
    have hhead : frame ∈ (c.trans s.peer).qp.wire := List.mem_of_mem_head? hframe
    exact h.handled hdata
      ((h.ends s).recvComplete (h.recvs s) (fun _ => (h.ends s.peer).wire frame hhead) hdata)
  | recvFail s status o t hstatus hdata =>
    exact h.data hdata ((h.ends s).recvComplete (h.recvs s) (fun h => absurd h hstatus) hdata)
  | tick s a t hdata => exact h.data hdata ((h.ends s).tick hticks (dataStep_tick hdata))
  | check s msg hready =>
    refine h.setEnd rfl (h.ends s) (h.recvs s) fun msg' hmsg' => ?_
    rcases List.mem_append.mp hmsg' with hold | hnew
    · exact h.checked s msg' hold
    · obtain rfl := List.mem_singleton.mp hnew
      exact ⟨happ, fun htype => (h.ends s).ready (hmrMsgReady_write hready htype)⟩
  | submit s i o msg t hmsg hsubmit =>
    obtain ⟨htype, hwrite⟩ := h.checked s msg (List.mem_of_getElem? hmsg)
    apply h.setEnd hsubmit.ownMr ((h.ends s).submit (announces_frame _ htype) hwrite hsubmit)
    · exact fun wr hwr => h.recvs s wr (hsubmit.rq ▸ hwr)
    · rw [show ({ c.ends s with trans := t } : Endpoint).trans.mrsReceived = _ from
        hsubmit.mrsReceived]
      exact fun msg' hmsg' => h.checked s msg' (List.mem_of_mem_eraseIdx hmsg')
  | accept hphase => exact ⟨h.toSoundConnection.step hstep, h.ends, h.checked⟩
  | acceptConnecting hphase =>
    have hserver := h.setTrans (s := .server) (t := acceptConnecting (c.trans .server)) rfl
      ((h.ends .server).of_same rfl rfl rfl ⟨rfl, rfl, rfl⟩ (by simp [acceptConnecting]))
      (h.recvs .server) le_rfl
    exact ⟨h.toSoundConnection.step hstep, hserver.ends, hserver.checked⟩
  | acceptMempool m hphase =>
    have hnone := h.pool (by simp [hphase])
    refine ⟨h.toSoundConnection.step hstep, fun s => ?_, fun s => ?_⟩
    · cases s with
      | client =>
        have hclient := h.ends .client
        rw [show (c.trans Side.client.peer).ownMr = none from hnone] at hclient
        exact hclient.mono
      | server => exact (h.ends .server).setPool hnone (hmrMempoolCreate m)
    · cases s with
      | client => exact h.checked .client
      | server => exact h.checked .server
  | acceptPost o left t hphase hpost =>
    have hserver := h.setTrans (s := .server) hpost.ownMr ((h.ends .server).postRecv hpost)
      (hpost.recvsMatch (h.recvs .server)) hpost.mrsReceived.ge
    exact ⟨h.toSoundConnection.step hstep, hserver.ends, hserver.checked⟩

/-- A connection that starts has the invariant. -/
theorem Connection.Starts.keyed (h : c.Starts) : KeyedConnection c where
  toSoundConnection := h.sound
  ends s := by
    apply KeyInv.of_unused (h.unused s)
    cases s with
    | client => simp [h.client.2]
    | server => simp [h.server.2.1]
  checked s := by simp [h.checked s]

/-- Every WRITE of either party follows the exchange and uses the peer's key, in every state of
every run in which the application sends no MR message of its own and no queued message is posted
as one. -/
theorem writesKeyed_run {events : List ConnectionEvent} (hstart : c.Starts)
    (hevents : ∀ e ∈ events, AppSends e) (hticks : Guarded connectionStep TicksNoMr c events) :
    Always connectionStep WritesKeyed c events :=
  always_of_guarded (D := AppSends) (I := KeyedConnection)
    (fun _ h => ⟨fun s => (h.ends s).posted, fun s => (h.ends s).queued⟩)
    (fun _ _ _ happ h hticks hstep => h.step happ hticks hstep) hevents hstart.keyed hticks

end Connection

/-- An application call that passes its check and is submitted at once. -/
def sampleSend (s : Side) (msg : HmrMsg) : List ConnectionEvent := [.check s msg, .submit s 0 .ok]

/-- The exchange of the sample parties. -/
def sampleExchanged : List ConnectionEvent :=
  [.accept, .acceptConnecting, .acceptMempool sampleMempoolOutcomes, .acceptPost .ok,
    .established .server .ok, .established .client .ok, .sendComplete .client 0 .success .ok,
    .recvComplete .server .ok, .recvComplete .client .ok]

/-- Behind it the server posts messages of 16 and `n` times 128 bytes at one tick, and the client
receives the first and posts a WRITE. -/
def sampleWrite (n : ℕ) : List ConnectionEvent :=
  sampleExchanged ++ sampleSend .server (sampleMsg .normal 8) ++
  (List.replicate n (sampleSend .server (sampleMsg .normal 120))).flatten ++
  [.tick .server none, .recvComplete .client .ok] ++
  sampleSend .client (sampleMsg .write 8) ++ [.tick .client none]

/-- While the messages fit the ring the WRITE is keyed. -/
theorem writesKeyed_sample :
    ((runEvents connectionStep sampleConnection (sampleWrite 7)).map fun c =>
      (c.trans .client).remoteWrites.map IbvSendWr.rkey) = some [3] ∧
    Always connectionStep WritesKeyed sampleConnection (sampleWrite 7) :=
  ⟨by decide +kernel, writesKeyed_run sampleConnection_starts (by decide +kernel) (by decide +kernel)⟩

/-- One more restarts the ring over the first, whose buffer then starts with zeros, the type of an
MR: the client takes its bytes for the server's MR, and the WRITE has the key zero. -/
theorem writes_misKeyed :
    ¬∀ (c : Connection) (events : List ConnectionEvent), c.Starts → (∀ e ∈ events, AppSends e) →
      Always connectionStep WritesKeyed c events := by
  intro h
  have hrun : (runEvents connectionStep sampleConnection (sampleWrite 8)).map
      (fun c => ((c.trans .client).remoteWrites.map IbvSendWr.rkey,
        (c.trans .server).ownMr.map IbvMr.rkey)) = some ([0], some 3) := by decide +kernel
  obtain ⟨c, hc, hobs⟩ := Option.map_eq_some_iff.mp hrun
  obtain ⟨hwrites, hown⟩ := Prod.mk.inj hobs
  obtain ⟨wr, hwr, hkey⟩ : ∃ wr ∈ (c.trans .client).remoteWrites, wr.rkey = 0 :=
    List.mem_map.mp (by simp [hwrites])
  have hkeyed := (h sampleConnection (sampleWrite 8) sampleConnection_starts
    (by decide +kernel)).of_run hc
  obtain ⟨-, mr, hmr, hsame, -⟩ := hkeyed.posted .client wr hwr
  have hmr : (c.trans .server).ownMr = some mr := hmr
  rw [hmr, Option.map_some] at hown
  rw [hkey, Option.some.inj hown] at hsame
  exact absurd hsame (by decide)

end HmrRpc
