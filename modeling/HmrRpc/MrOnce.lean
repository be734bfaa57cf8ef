import HmrRpc.RemoteCursor
import HmrRpc.Session

/-!
# Each side announces its MR once

A side that receives an MR in CONNECTED takes it for the opening of the exchange and answers
with its own. The client has sent its MR by then, so it must have left CONNECTED, that is
polled the completion of its own send, before the server's answer arrives. Every arriving MR
also resets the cursor of the WRITE requests.
-/

namespace HmrRpc

open Common

/-- The range of the peer's memory a WRITE request goes to, by its start and length. -/
def IbvSendWr.target (wr : IbvSendWr) : Option (ℤ × ℕ) :=
  if wr.opcode = .rdmaWrite then some (wr.remoteAddr, wr.sgList.length) else none

/-- The ranges of the WRITE requests posted so far. -/
def HmrRdmaTransport.writeTargets (t : HmrRdmaTransport) : List (ℤ × ℕ) :=
  t.qp.sendLog.filterMap IbvSendWr.target

/-- Two ranges with no byte in common. -/
def RangesApart (r r' : ℤ × ℕ) : Prop := r.1 + r.2 ≤ r'.1 ∨ r'.1 + r'.2 ≤ r.1

/-- The range lies behind the start of the MR's region by less than an `int`, between two offsets. -/
def IbvMr.Between (mr : IbvMr) (lo hi : ℤ) (r : ℤ × ℕ) : Prop :=
  ∃ offset : ℤ, lo ≤ offset ∧ offset + r.2 ≤ hi ∧ r.1 = (mr.addr.toNat + offset) % 2 ^ 64

section Ranges

variable {mr : IbvMr} {lo mid hi : ℤ} {r r' : ℤ × ℕ}

/-- A range between two offsets is between wider ones. -/
theorem IbvMr.Between.mono {lo' hi' : ℤ} (h : mr.Between lo hi r) (hlo : lo' ≤ lo) (hhi : hi ≤ hi') :
    mr.Between lo' hi' r := by
  obtain ⟨offset, hge, hle, htarget⟩ := h
  exact ⟨offset, by omega, by omega, htarget⟩

/-- Ranges on two sides of an offset are apart, also where the address space wraps around. -/
theorem IbvMr.Between.apart (h : mr.Between lo mid r) (h' : mr.Between mid hi r') (hlo : 0 ≤ lo)
    (hhi : hi ≤ intMax) : RangesApart r r' := by
  obtain ⟨offset, hge, hle, htarget⟩ := h
  obtain ⟨offset', hge', hle', htarget'⟩ := h'
  unfold intMax at hhi
  unfold RangesApart
  omega

/-- The ranges of the loop's WRITE requests lie between the cursor before and behind it. -/
theorem fillSendWrs_between {peer : HmrPeerInfo} (i : ℕ) (tasks : List HmrTask)
    (hlo : 0 ≤ peer.usedNormalSize) (hhi : peer.usedNormalSize + writeBytes tasks ≤ intMax) :
    ∀ r ∈ (fillSendWrs peer i tasks).1.filterMap IbvSendWr.target,
      peer.normalMr.Between peer.usedNormalSize (peer.usedNormalSize + writeBytes tasks) r := by
  intro r hr
  obtain ⟨wr, hwr, htarget⟩ := List.mem_filterMap.mp hr
  obtain ⟨hopcode, htarget⟩ := Option.ite_none_right_eq_some.mp htarget
  obtain rfl := Option.some.inj htarget
  exact fillSendWrs_target i tasks hlo hhi wr hwr hopcode

/-- They are apart from each other. -/
theorem fillSendWrs_apart {peer : HmrPeerInfo} (i : ℕ) (tasks : List HmrTask)
    (hlo : 0 ≤ peer.usedNormalSize) (hhi : peer.usedNormalSize + writeBytes tasks ≤ intMax) :
    ((fillSendWrs peer i tasks).1.filterMap IbvSendWr.target).Pairwise RangesApart := by
  induction tasks generalizing peer i with
  | nil => exact .nil
  | cons task rest ih =>
    have hbytes : (writeBytes (task :: rest) : ℤ) = task.writeLength + writeBytes rest := by
      simp [writeBytes]
    have hcursor := fillSendWr_cursor i peer task (by omega) (by omega)
    have hrestLo : 0 ≤ (fillSendWr peer i task).2.usedNormalSize := by omega
    have hrestHi : (fillSendWr peer i task).2.usedNormalSize + writeBytes rest ≤ intMax := by omega
    have hrest := ih (i + 1) hrestLo hrestHi
    rw [fillSendWrs, List.filterMap_cons]
    cases htarget : (fillSendWr peer i task).1.target with
    | none => exact hrest
    | some r =>
      refine List.pairwise_cons.mpr ⟨fun r' hr' => ?_, hrest⟩
      -- the head ends where the cursor of the rest starts
      obtain ⟨hopcode, hr⟩ := Option.ite_none_right_eq_some.mp htarget
      obtain rfl := Option.some.inj hr
      obtain ⟨hlength, haddr⟩ := fillSendWr_target i hopcode
      have hhead : peer.normalMr.Between peer.usedNormalSize
          (fillSendWr peer i task).2.usedNormalSize
          ((fillSendWr peer i task).1.remoteAddr, (fillSendWr peer i task).1.sgList.length) :=
        ⟨peer.usedNormalSize, le_rfl, by omega, haddr⟩
      exact hhead.apart (fillSendWrs_between (i + 1) rest hrestLo hrestHi r' hr') hlo hrestHi

/-- The chain posts the ranges of the loop. -/
theorem sendChain_targets (peer : HmrPeerInfo) (tasks : List HmrTask) :
    (sendChain peer tasks).filterMap IbvSendWr.target =
      (fillSendWrs peer 0 tasks).1.filterMap IbvSendWr.target := by
  rw [sendChain_eq]
  exact filterMap_eq_of_map_eq (map_endChain IbvSendWr.target (fun _ => rfl) _)

end Ranges

/-- The WRITE requests posted so far lie apart from each other and before the cursor. -/
structure WritesBehind (t : HmrRdmaTransport) : Prop where
  nonneg : 0 ≤ t.peerInfo.usedNormalSize
  room : t.peerInfo.usedNormalSize ≤ intMax
  behind : ∀ r ∈ t.writeTargets, t.peerInfo.normalMr.Between 0 t.peerInfo.usedNormalSize r
  apart : t.writeTargets.Pairwise RangesApart

section Writes

variable {t t' : HmrRdmaTransport}

/-- The ranges are those of the WRITE requests. -/
theorem writeTargets_eq (t : HmrRdmaTransport) :
    t.writeTargets = t.remoteWrites.filterMap IbvSendWr.target := by
  rw [HmrRdmaTransport.remoteWrites, List.filterMap_filter]
  refine List.filterMap_congr fun wr _ => ?_
  by_cases hopcode : wr.opcode = .rdmaWrite <;> simp [IbvSendWr.target, hopcode]

/-- An event that keeps the peer's information and posts no WRITE keeps this. -/
theorem WritesBehind.of_same (h : WritesBehind t) (hpeer : t'.peerInfo = t.peerInfo)
    (hremote : t'.remoteWrites = t.remoteWrites) : WritesBehind t' := by
  have hwrites : t'.writeTargets = t.writeTargets := by
    rw [writeTargets_eq, hremote, writeTargets_eq]
  constructor <;> simp only [hpeer, hwrites]
  · exact h.nonneg
  · exact h.room
  · exact h.behind
  · exact h.apart

/-- Without a WRITE the cursor may be anywhere from zero on. -/
theorem WritesBehind.of_nil (hnil : t.writeTargets = []) (hlo : 0 ≤ t.peerInfo.usedNormalSize)
    (hhi : t.peerInfo.usedNormalSize ≤ intMax) : WritesBehind t :=
  ⟨hlo, hhi, by simp [hnil], by simp [hnil]⟩

/-- Posting any part of the chain of a tick keeps it, while the cursor stays an `int`. -/
theorem WritesBehind.postChain (h : WritesBehind t) {chain : List IbvSendWr} {rest : List HmrTask}
    (hchain : chain.Sublist (sendChain t.peerInfo t.sendTaskList))
    (hfits : t.peerInfo.usedNormalSize + writeBytes t.sendTaskList ≤ intMax) :
    WritesBehind { HmrRdmaTransport.ibvPostSend
      { t with peerInfo := (fillSendWrs t.peerInfo 0 t.sendTaskList).2 } chain with
        sendTaskList := rest } := by
  have hlo := h.nonneg
  have hcursor := fillSendWrs_cursor 0 t.sendTaskList (by omega) hfits
  have hmr := fillSendWrs_normalMr t.peerInfo 0 t.sendTaskList
  have hsub := hchain.filterMap IbvSendWr.target
  rw [sendChain_targets] at hsub
  have hnew := fillSendWrs_between 0 t.sendTaskList h.nonneg hfits
  have htargets (u : HmrRdmaTransport) (hlog : u.qp.sendLog = t.qp.sendLog ++ chain) :
      u.writeTargets = t.writeTargets ++ chain.filterMap IbvSendWr.target := by
    rw [HmrRdmaTransport.writeTargets, hlog, List.filterMap_append]
    rfl
  refine ⟨?_, ?_, ?_, ?_⟩
  · have := h.nonneg
    exact hcursor ▸ by omega
  · exact hcursor ▸ hfits
  · rw [htargets _ rfl]
    intro r hr
    show IbvMr.Between (fillSendWrs t.peerInfo 0 t.sendTaskList).2.normalMr 0
      (fillSendWrs t.peerInfo 0 t.sendTaskList).2.usedNormalSize r
    rw [hmr, hcursor]
    rcases List.mem_append.mp hr with hold | hmem
    · exact (h.behind r hold).mono le_rfl (by omega)
    · exact (hnew r (hsub.subset hmem)).mono h.nonneg le_rfl
  · rw [htargets _ rfl]
    refine List.pairwise_append.mpr ⟨h.apart, (fillSendWrs_apart 0 _ h.nonneg hfits).sublist hsub, ?_⟩
    intro r hr r' hr'
    exact (h.behind r hr).apart (hnew r' (hsub.subset hr')) le_rfl hfits

/-- So does a tick. -/
theorem WritesBehind.tick {a : Option ℕ} (h : WritesBehind t) (htick : TickResult t a t')
    (hfits : t.peerInfo.usedNormalSize + writeBytes t.sendTaskList ≤ intMax) : WritesBehind t' := by
  cases htick with
  | idle => exact h
  | flushed => exact h.postChain (List.Sublist.refl _) hfits
  | failed k => exact h.postChain (List.take_sublist k _) hfits

end Writes

/-- The MR messages a transport has posted. -/
def HmrRdmaTransport.mrPosts (t : HmrRdmaTransport) : ℕ :=
  t.qp.sendLog.countP fun wr => wr.wrId.taskType = .mr

/-- The MR messages among frames. -/
def mrCount (frames : List Frame) : ℕ := frames.countP fun frame => receivedType frame.byte = .mr

/-- A task that carries no MR. -/
def HmrTask.Plain (task : HmrTask) : Prop :=
  task.taskType ≠ .mr ∧ receivedType task.frame.byte ≠ .mr

/-- A step that posts `n` MR messages, puts them on the wire as they are encoded, and queues
none. -/
structure PostsMrs (n : ℕ) (t t' : HmrRdmaTransport) : Prop where
  posts : t'.mrPosts = t.mrPosts + n
  wire : mrCount t'.qp.wire = mrCount t.qp.wire + n
  encoded : mrCount t'.qp.encoded = mrCount t.qp.encoded + n
  list : (∀ task ∈ t.sendTaskList, task.Plain) → ∀ task ∈ t'.sendTaskList, task.Plain

section Posts

variable {o : Outcomes} {t t' u : HmrRdmaTransport} {msg : HmrMsg}

/-- A step that sends nothing posts none. -/
theorem PostsMrs.of_same (hsends : t'.sendTaskList = t.sendTaskList ∧
    t'.qp.underWay = t.qp.underWay ∧ t'.qp.sendLog = t.qp.sendLog) : PostsMrs 0 t t' := by
  obtain ⟨hlist, hway, hlog⟩ := hsends
  refine ⟨?_, ?_, ?_, fun h => by rwa [hlist]⟩
  · rw [HmrRdmaTransport.mrPosts, hlog, HmrRdmaTransport.mrPosts, Nat.add_zero]
  · rw [show t'.qp.wire = t.qp.wire from congrArg Prod.fst hway, Nat.add_zero]
  · rw [show t'.qp.encoded = t.qp.encoded from congrArg Prod.snd hway, Nat.add_zero]

/-- Steps that follow each other post their MRs together. -/
theorem PostsMrs.trans {n m : ℕ} (h : PostsMrs n t u) (h' : PostsMrs m u t') :
    PostsMrs (n + m) t t' :=
  ⟨by rw [h'.posts, h.posts, Nat.add_assoc], by rw [h'.wire, h.wire, Nat.add_assoc],
    by rw [h'.encoded, h.encoded, Nat.add_assoc], fun hlist => h'.list (h.list hlist)⟩

/-- Submitting a message posts an MR if it is one and the post succeeds. -/
theorem SubmitResult.postsMrs (h : SubmitResult o t msg t')
    (hfit : msg.msgType = .mr → msg.encodedLength < 2 ^ 31) :
    PostsMrs (if msg.msgType = .mr ∧ o.sendPost then 1 else 0) t t' := by
  cases h with
  | queued pool _ htype =>
    rw [if_neg fun hor => htype hor.1]
    refine ⟨rfl, rfl, rfl, fun hlist task htask => ?_⟩
    rcases List.mem_append.mp htask with hold | hnew
    · exact hlist task hold
    · obtain rfl := List.mem_singleton.mp hnew
      have htaskType : HmrTaskType.ofMsgType msg.msgType ≠ .mr :=
        fun hmr => htype (HmrTaskType.ofMsgType_eq_mr.mp hmr)
      refine ⟨htaskType, ?_⟩
      rwa [show (acceptedTask pool msg t.nextTask).frame = msg.frame from rfl, receivedType_frame]
  | posted pool _ htype hpost =>
    rw [if_pos ⟨htype, hpost⟩]
    have htaskType : (acceptedTask pool msg t.nextTask).taskType = .mr :=
      HmrTaskType.ofMsgType_eq_mr.mpr htype
    have hopcode : (directSendWr t.peerInfo (acceptedTask pool msg t.nextTask)).opcode = .send := by
      simp [directSendWr, hmrGetOpcodeFromTask, htaskType]
    have hframe : receivedType msg.frame.byte = .mr := by
      rw [receivedType_frame]
      exact htaskType
    refine ⟨?_, ?_, ?_, id⟩
    · refine List.countP_append.trans (congrArg _ ?_)
      simp [directSendWr, htaskType]
    · obtain ⟨posted, hwire, hcarries⟩ :=
        postedDirect_wire htype (hfit htype)
      have hposted := hcarries.receivedType (sizeofMsgType_le_frame msg)
      rw [hwire, mrCount, List.countP_append]
      simp [mrCount, hposted, hframe]
    · refine List.countP_append.trans (congrArg _ ?_)
      simp only [List.filterMap_cons, IbvSendWr.encodedFrame, hopcode, if_true, List.filterMap_nil]
      exact List.countP_eq_length.mpr fun frame hmem => by
        rw [List.mem_singleton.mp hmem]
        exact decide_eq_true hframe
  | dropped pool _ _ hpost =>
    rw [if_neg (by simp [hpost])]
    exact .of_same ⟨rfl, rfl, rfl⟩

/-- Sending does so in a state that is ready for the message. -/
theorem SendResult.postsMrs {r : ℤ} (h : SendResult o t msg r t')
    (hfit : msg.msgType = .mr → msg.encodedLength < 2 ^ 31) :
    PostsMrs (if msg.msgType = .mr ∧ o.sendPost ∧ hmrMsgReady t msg then 1 else 0) t t' := by
  cases h with
  | refused hcheck =>
    rw [if_neg fun hor => not_ready_of_refused hcheck hor.2.2]
    exact .of_same ⟨rfl, rfl, rfl⟩
  | submitted _ hready hsubmit => simpa [hready] using hsubmit.postsMrs hfit

/-- A tick posts none when its list is plain, by its tasks and by its buffers. -/
theorem TickResult.postsMrs {a : Option ℕ} (h : TickResult t a t') (hqueues : t.QueuesNoMr)
    (hlist : ∀ task ∈ t.sendTaskList, task.Plain) : PostsMrs 0 t t' := by
  have hchain {chain : List IbvSendWr} {rest : List HmrTask}
      (hmem : ∀ wr ∈ chain, wr ∈ sendChain t.peerInfo t.sendTaskList)
      (hrest : ∀ task ∈ rest, task ∈ t.sendTaskList) :
      PostsMrs 0 t { HmrRdmaTransport.ibvPostSend
        { t with peerInfo := (fillSendWrs t.peerInfo 0 t.sendTaskList).2 } chain with
          sendTaskList := rest } := by
    have hplain (wr : IbvSendWr) (hwr : wr ∈ chain) := hlist _ (mem_sendChain_wrId (hmem wr hwr))
    refine ⟨?_, ?_, ?_, fun _ task htask => hlist task (hrest task htask)⟩
    · refine List.countP_append.trans (congrArg _ (List.countP_eq_zero.mpr fun wr hwr => ?_))
      simp [(hplain wr hwr).1]
    · refine List.countP_append.trans (congrArg _ (List.countP_eq_zero.mpr fun frame hframe => ?_))
      obtain ⟨wr, hwr, hopcode, pool, hpool, rfl⟩ := mem_wireFrames hframe
      obtain ⟨hsge, hfilled⟩ := sendChain_filled _ _ wr (hmem wr hwr)
      have htype := (hqueues pool hpool _ (mem_sendChain_wrId (hmem wr hwr)) (hfilled ▸ hopcode)).2
      simp [HmrMempool.hcaRead, hsge, htype]
    · refine List.countP_append.trans (congrArg _ (List.countP_eq_zero.mpr fun frame hframe => ?_))
      obtain ⟨wr, hwr, rfl⟩ := mem_encodedFrames hframe
      simp [(hplain wr hwr).2]
  cases h with
  | idle => exact .of_same ⟨rfl, rfl, rfl⟩
  | flushed => exact hchain (fun _ hwr => hwr) (by simp)
  | failed k => exact hchain (fun _ hwr => List.mem_of_mem_take hwr) (fun _ htask => htask)

/-- The MRs a side posts in answer to a received frame. -/
def mrAnswers (o : Outcomes) (t : HmrRdmaTransport) (taskType : HmrTaskType) : ℕ :=
  if taskType = .mr ∧ t.transState = .connected ∧ o.sendPost then 1 else 0

/-- Only an MR is answered with one. -/
theorem mrAnswers_le (o : Outcomes) (t : HmrRdmaTransport) (taskType : HmrTaskType) :
    mrAnswers o t taskType ≤ if taskType = .mr then 1 else 0 := by
  unfold mrAnswers
  split_ifs with hand hmr
  · exact le_rfl
  · exact absurd hand.1 hmr
  · exact Nat.zero_le 1
  · exact le_rfl

/-- They depend on the state alone. -/
theorem mrAnswers_congr {taskType : HmrTaskType} (h : u.transState = t.transState) :
    mrAnswers o u taskType = mrAnswers o t taskType := by
  rw [mrAnswers, mrAnswers, h]

/-- Handling a frame posts that many. -/
theorem RecvBody.postsMrs {bytes : ℕ → UInt8} {taskType : HmrTaskType}
    (h : RecvBody o t bytes taskType u) : PostsMrs (mrAnswers o t taskType) t u := by
  have hrespond (taskType : HmrTaskType) : PostsMrs 0 t (t.respond taskType (.decode bytes)) :=
    .of_same (by simp)
  cases h with
  | firstMr pool r v hstate _ hsend =>
    have hready : hmrMsgReady (t.learnMr (.decode bytes)) (mrMsg pool.rdmaMr) := by
      simp [hmrMsgReady, mrMsg, HmrRdmaTransport.learnMr, hstate]
    have htype : (mrMsg pool.rdmaMr).msgType = .mr := rfl
    have hposts := hsend.postsMrs fun _ => mrMsg_encodedLength_lt pool.rdmaMr
    simp only [hready, htype, true_and, and_true] at hposts
    simp only [mrAnswers, hstate, true_and]
    exact ⟨hposts.posts, hposts.wire, hposts.encoded, hposts.list⟩
  | laterMr hstate =>
    rw [mrAnswers, if_neg fun hor => hstate hor.2.1]
    exact .of_same ⟨rfl, rfl, rfl⟩
  | finish r _ hsend =>
    have hposts := hsend.postsMrs fun htype => by simp [closingMsg] at htype
    simpa [mrAnswers, closingMsg] using (hrespond .finish).trans hposts
  | done =>
    have hdone := hrespond .done
    exact ⟨hdone.posts, hdone.wire, hdone.encoded, hdone.list⟩
  | plain taskType hmr =>
    rw [mrAnswers, if_neg fun hor => hmr hor.1]
    exact hrespond taskType

/-- A receive completion posts as many as its frame is answered with. -/
theorem recvComplete_postsMrs {frame : Frame} (hmatch : t.RecvsMatch)
    (hlen : sizeofMsgType ≤ frame.length)
    (hstep : dataStep t (.recvComplete frame .success o) = some t') :
    PostsMrs (mrAnswers o t (receivedType frame.byte)) t t' := by
  obtain ⟨addr, pool, u, -, hbody, hrepost⟩ := dataStep_received hmatch hlen hstep
  obtain ⟨hlist, -, hway, hlog⟩ := hrepost.sends
  have hpolled : PostsMrs 0 t (t.pollRecv.hcaWrite addr frame) := .of_same ⟨rfl, rfl, rfl⟩
  have hstate : (t.pollRecv.hcaWrite addr frame).transState = t.transState := rfl
  have hposts := (hpolled.trans hbody.postsMrs).trans (.of_same ⟨hlist, hway, hlog⟩)
  rwa [Nat.zero_add, Nat.add_zero, mrAnswers_congr hstate] at hposts

end Posts

/-- Each side has posted at most one MR and handled at most one, an MR that arrives finds no WRITE
posted whose place its reset of the cursor gives away, and the WRITE requests are apart. -/
structure MrOnce (c : Connection) : Prop where
  posted : ∀ s, (c.trans s).mrPosts ≤ 1
  handled : ∀ s, (c.trans s).mrsReceived ≤ 1
  reset : ∀ s frame, (c.trans s.peer).qp.wire.head? = some frame →
    receivedType frame.byte = .mr → (c.trans s).writeTargets = []
  apart : ∀ s, (c.trans s).writeTargets.Pairwise RangesApart

/-- An MR that arrives in CONNECTED and is answered finds that none has been posted. -/
def AnswersOnce (c : Connection) : SessionEvent → Prop
  | .conn (.recvComplete s o) => ∀ frame, (c.trans s.peer).qp.wire.head? = some frame →
      receivedType frame.byte = .mr → (c.trans s).transState = .connected → o.sendPost →
      (c.trans s).mrPosts = 0
  | _ => True

/-- The WRITE tasks a tick finds on the list leave the cursor an `int`. -/
def CursorFits (c : Connection) : SessionEvent → Prop
  | .conn (.tick s _) =>
    (c.trans s).peerInfo.usedNormalSize + writeBytes (c.trans s).sendTaskList ≤ intMax
  | _ => True

instance (c : Connection) : (e : SessionEvent) → Decidable (AnswersOnce c e)
  | .conn (.recvComplete s o) =>
    inferInstanceAs (Decidable (∀ frame ∈ (c.trans s.peer).qp.wire.head?,
      receivedType frame.byte = .mr → (c.trans s).transState = .connected → o.sendPost →
        (c.trans s).mrPosts = 0))
  | .conn (.established ..) | .conn (.sendComplete ..) | .conn (.recvFail ..) | .conn (.tick ..)
  | .conn (.check ..) | .conn (.submit ..) | .conn .accept | .conn .acceptConnecting
  | .conn (.acceptMempool _) | .conn (.acceptPost _) | .disconnected _ => isTrue trivial

instance (c : Connection) : (e : SessionEvent) → Decidable (CursorFits c e)
  | .conn (.tick ..) => inferInstanceAs (Decidable (_ ≤ _))
  | .conn (.established ..) | .conn (.sendComplete ..) | .conn (.recvComplete ..)
  | .conn (.recvFail ..) | .conn (.check ..) | .conn (.submit ..) | .conn .accept
  | .conn .acceptConnecting | .conn (.acceptMempool _) | .conn (.acceptPost _)
  | .disconnected _ => isTrue trivial

/-- What the session keeps: MRs are only posted directly, every one on a wire or handled was posted,
the client posts none before its ESTABLISHED event, and the server only in answer. -/
structure MrOnceInv (c : Connection) : Prop where
  keyed : KeyedConnection c
  waiting : c.accept = .waiting → (c.ends .client).established = .absent
  server : (c.trans .server).isClient = false
  plain : ∀ s, ∀ task ∈ (c.trans s).sendTaskList, task.Plain
  fresh : (c.ends .client).established ≠ .handled → (c.trans .client).mrPosts = 0
  answered : (c.trans .server).mrPosts ≤ (c.trans .server).mrsReceived
  counted : ∀ s, (c.trans s.peer).mrsReceived + mrCount (c.trans s).qp.wire ≤ (c.trans s).mrPosts
  posted : ∀ s, (c.trans s).mrPosts ≤ 1
  writes : ∀ s, WritesBehind (c.trans s)

section Session

variable {c c' : Connection} {s : Side}

/-- The invariant gives the property: an MR on a wire has not been handled, and no WRITE precedes
the MR. -/
theorem MrOnceInv.once (h : MrOnceInv c) : MrOnce c where
  posted := h.posted
  handled s := by
    have hcounted := h.counted s.peer
    have hposted := h.posted s.peer
    rw [Side.peer_peer] at hcounted
    omega
  reset s frame hframe hmr := by
    rw [writeTargets_eq, List.filterMap_eq_nil_iff]
    intro wr hwr
    exfalso
    have hpos := ((h.keyed.ends s).posted wr hwr).1
    have hframes : 0 < mrCount (c.trans s.peer).qp.wire :=
      List.countP_pos_iff.mpr ⟨frame, List.mem_of_mem_head? hframe, decide_eq_true hmr⟩
    have hcounted := h.counted s.peer
    have hposted := h.posted s.peer
    rw [Side.peer_peer] at hcounted
    omega
  apart s := (h.writes s).apart

/-- A step of a transport that posts and handles no MR. -/
structure QuietStep (t t' : HmrRdmaTransport) : Prop where
  posts : (∀ task ∈ t.sendTaskList, task.Plain) → PostsMrs 0 t t'
  role : t'.isClient = t.isClient
  handled : t'.mrsReceived = t.mrsReceived
  writes : WritesBehind t → WritesBehind t'

/-- A step that sends nothing is quiet if it keeps the rest. -/
theorem QuietStep.of_same {t t' : HmrRdmaTransport} (hrole : t'.isClient = t.isClient)
    (hmrs : t'.mrsReceived = t.mrsReceived) (hpeer : t'.peerInfo = t.peerInfo)
    (hsends : t'.sendTaskList = t.sendTaskList ∧ t'.qp.underWay = t.qp.underWay ∧
      t'.qp.sendLog = t.qp.sendLog) : QuietStep t t' :=
  ⟨fun _ => .of_same hsends, hrole, hmrs, fun h => h.of_same hpeer (by
    rw [HmrRdmaTransport.remoteWrites, hsends.2.2, HmrRdmaTransport.remoteWrites])⟩

/-- A send completion is quiet. -/
theorem QuietStep.sendComplete {t t' : HmrRdmaTransport} {i : ℕ} {status : IbvWcStatus}
    {o : Outcomes} (hstep : dataStep t (.sendComplete i status o) = some t') : QuietStep t t' := by
  obtain ⟨-, hlist, hpeer, hqp⟩ := dataStep_sendComplete_frame hstep
  obtain ⟨hrole, hmrs, -⟩ := dataStep_sendComplete_state hstep
  exact .of_same hrole hmrs hpeer ⟨hlist, by rw [hqp]; rfl, by rw [hqp]; rfl⟩

/-- So is a tick that leaves the cursor an `int` and posts no overwritten message as an MR. -/
theorem QuietStep.tick {t t' : HmrRdmaTransport} {a : Option ℕ} (hqueues : t.QueuesNoMr)
    (hfits : t.peerInfo.usedNormalSize + writeBytes t.sendTaskList ≤ intMax)
    (hstep : dataStep t (.tick a) = some t') : QuietStep t t' := by
  have htick := dataStep_tick hstep
  exact ⟨htick.postsMrs hqueues, dataStep_isClient hstep, htick.mrsReceived, fun h => h.tick htick hfits⟩

/-- So is a receive that failed. -/
theorem QuietStep.recvFail {t t' : HmrRdmaTransport} {frame : Frame} {status : IbvWcStatus}
    {o : Outcomes} (hstatus : status ≠ .success)
    (hstep : dataStep t (.recvComplete frame status o) = some t') : QuietStep t t' := by
  cases dataStep_recvComplete hstep with
  | flushed => exact .of_same rfl rfl rfl ⟨rfl, rfl, rfl⟩
  | received => contradiction

/-- So is a submitted message that is no MR. -/
theorem QuietStep.submit {t t' : HmrRdmaTransport} {o : Outcomes} {msg : HmrMsg}
    (htype : msg.msgType ≠ .mr) (hsubmit : SubmitResult o t msg t') : QuietStep t t' := by
  have hposts := hsubmit.postsMrs fun hmr => absurd hmr htype
  rw [if_neg fun hor => htype hor.1] at hposts
  exact ⟨fun _ => hposts, hsubmit.isClient, hsubmit.mrsReceived,
    fun h => h.of_same hsubmit.peerInfo hsubmit.remoteWrites⟩

/-- Quiet steps of the two transports keep the invariant. -/
theorem MrOnceInv.quiet (h : MrOnceInv c) (hkeyed : KeyedConnection c')
    (hwaiting : c'.accept = .waiting → (c'.ends .client).established = .absent)
    (hfresh : (c'.ends .client).established ≠ .handled →
      (c.ends .client).established ≠ .handled)
    (hquiet : ∀ r, QuietStep (c.trans r) (c'.trans r)) : MrOnceInv c' := by
  have hposts r := (hquiet r).posts (h.plain r)
  have hcounts r : (c'.trans r).mrPosts = (c.trans r).mrPosts ∧
      mrCount (c'.trans r).qp.wire = mrCount (c.trans r).qp.wire :=
    ⟨(hposts r).posts, (hposts r).wire⟩
  refine ⟨hkeyed, hwaiting, (hquiet .server).role.trans h.server,
    fun r => (hposts r).list (h.plain r), fun hne => ?_, ?_, fun r => ?_, fun r => ?_,
    fun r => (hquiet r).writes (h.writes r)⟩
  · rw [(hcounts .client).1]
    exact h.fresh (hfresh hne)
  · rw [(hcounts .server).1, (hquiet .server).handled]
    exact h.answered
  · rw [(hcounts r).1, (hcounts r).2, (hquiet r.peer).handled]
    exact h.counted r
  · rw [(hcounts r).1]
    exact h.posted r

/-- A quiet step of one party does. -/
theorem MrOnceInv.quietEnd (h : MrOnceInv c) {e : Endpoint}
    (hkeyed : KeyedConnection (c.setEnd s e)) (hestablished : e.established = (c.ends s).established)
    (hquiet : QuietStep (c.trans s) e.trans) : MrOnceInv (c.setEnd s e) := by
  have hsame : ((c.setEnd s e).ends .client).established = (c.ends .client).established := by
    cases s with
    | client => exact hestablished
    | server => rfl
  refine h.quiet hkeyed (fun hphase => hsame.trans (h.waiting hphase)) (fun hne => hsame ▸ hne)
    fun r => ?_
  rcases s.eq_or_peer r with rfl | rfl
  · simpa using hquiet
  · simpa using QuietStep.of_same rfl rfl rfl ⟨rfl, rfl, rfl⟩

/-- An ESTABLISHED event posts at most one MR, and only a client's does. -/
theorem onCmEstablished_postsMrs {o : Outcomes} {t t' : HmrRdmaTransport}
    (h : onCmEstablished o t = .ok t') : t'.isClient = t.isClient ∧
      (WritesBehind t → WritesBehind t') ∧
      ∃ n ≤ 1, (t.isClient = false → n = 0) ∧ PostsMrs n t t' := by
  rcases onCmEstablished_cases h with ⟨-, rfl⟩ | ⟨hclient, pool, r, -, hsend⟩
  · exact ⟨rfl, fun hw => hw.of_same rfl rfl, 0, by omega, fun _ => rfl, .of_same ⟨rfl, rfl, rfl⟩⟩
  · have hposts := hsend.postsMrs fun _ => mrMsg_encodedLength_lt pool.rdmaMr
    refine ⟨hsend.isClient, fun hw => hw.of_same hsend.peerInfo hsend.remoteWrites, _, ?_, ?_,
      ⟨hposts.posts, hposts.wire, hposts.encoded, hposts.list⟩⟩
    · split <;> omega
    · simp [hclient]

/-- The client's ESTABLISHED event posts its first MR. -/
theorem MrOnceInv.clientEstablished (h : MrOnceInv c) {o : Outcomes} {t : HmrRdmaTransport}
    (hpending : (c.ends .client).established = .pending)
    (hhandler : onCmEstablished o (c.trans .client) = .ok t)
    (hkeyed : KeyedConnection
      (c.setEnd .client { c.ends .client with trans := t, established := .handled })) :
    MrOnceInv (c.setEnd .client { c.ends .client with trans := t, established := .handled }) := by
  obtain ⟨-, hwrites, n, hn, -, hposts⟩ := onCmEstablished_postsMrs hhandler
  obtain ⟨-, -, -, hmrs⟩ := onCmEstablished_frame hhandler
  have hfresh := h.fresh (by simp [hpending])
  have hnew := hposts.posts
  have hframes := hposts.wire
  refine ⟨hkeyed, fun hphase => ?_, h.server, fun r => ?_, fun hne => absurd rfl hne, h.answered,
    fun r => ?_, fun r => ?_, fun r => ?_⟩
  · have habsent := h.waiting hphase
    simp [hpending] at habsent
  · cases r with
    | client => exact hposts.list (h.plain .client)
    | server => exact h.plain .server
  · cases r with
    | client =>
      have hcounted := h.counted .client
      show (c.trans .server).mrsReceived + mrCount t.qp.wire ≤ t.mrPosts
      simp only [Side.peer] at hcounted
      omega
    | server =>
      show t.mrsReceived + mrCount (c.trans .server).qp.wire ≤ (c.trans .server).mrPosts
      rw [hmrs]
      exact h.counted .server
  · cases r with
    | client =>
      show t.mrPosts ≤ 1
      omega
    | server => exact h.posted .server
  · cases r with
    | client => exact hwrites (h.writes .client)
    | server => exact h.writes .server

/-- The server's posts none. -/
theorem MrOnceInv.serverEstablished (h : MrOnceInv c) {o : Outcomes} {t : HmrRdmaTransport}
    (hhandler : onCmEstablished o (c.trans .server) = .ok t)
    (hkeyed : KeyedConnection
      (c.setEnd .server { c.ends .server with trans := t, established := .handled })) :
    MrOnceInv (c.setEnd .server { c.ends .server with trans := t, established := .handled }) := by
  obtain ⟨hrole, hwrites, n, -, hserver, hposts⟩ := onCmEstablished_postsMrs hhandler
  obtain ⟨-, -, -, hmrs⟩ := onCmEstablished_frame hhandler
  obtain rfl := hserver h.server
  refine h.quiet hkeyed h.waiting id fun r => ?_
  cases r with
  | client => exact .of_same rfl rfl rfl ⟨rfl, rfl, rfl⟩
  | server => exact ⟨fun _ => hposts, hrole, hmrs, hwrites⟩

/-- What a receive that succeeds does to the MRs handled and to the cursor. -/
theorem recvComplete_learns {o : Outcomes} {t t' : HmrRdmaTransport} {frame : Frame}
    (hmatch : t.RecvsMatch) (hlen : sizeofMsgType ≤ frame.length)
    (hstep : dataStep t (.recvComplete frame .success o) = some t') :
    t'.mrsReceived = t.mrsReceived + (if receivedType frame.byte = .mr then 1 else 0) ∧
      t'.remoteWrites = t.remoteWrites ∧
      (receivedType frame.byte ≠ .mr → t'.peerInfo = t.peerInfo) ∧
      (receivedType frame.byte = .mr → t'.peerInfo.usedNormalSize = 0) := by
  obtain ⟨addr, pool, u, -, hbody, hrepost⟩ := dataStep_received hmatch hlen hstep
  refine ⟨hrepost.mrsReceived.trans hbody.mrsReceived, ?_,
    fun hne => hrepost.peerInfo.trans (hbody.peerInfo hne), fun hmr => ?_⟩
  · rw [HmrRdmaTransport.remoteWrites, hrepost.sends.2.2.2]
    exact hbody.remoteWrites
  · rw [hrepost.peerInfo]
    rw [hmr] at hbody
    exact hbody.cursor

/-- Taking the first of the frames takes its MR. -/
theorem mrCount_head {frames : List Frame} {frame : Frame} (hframe : frames.head? = some frame) :
    mrCount frames = mrCount frames.tail + (if receivedType frame.byte = .mr then 1 else 0) := by
  obtain ⟨rest, rfl⟩ := List.head?_eq_some_iff.mp hframe
  simp only [mrCount, List.tail_cons, List.countP_cons, decide_eq_true_eq]

/-- A message that arrives keeps the WRITE ranges apart: the cursor is reset when no WRITE has been
posted. -/
theorem MrOnceInv.received_writes (h : MrOnceInv c) {frame : Frame} {t : HmrRdmaTransport}
    (hframe : (c.trans s.peer).qp.wire.head? = some frame)
    (hremote : t.remoteWrites = (c.trans s).remoteWrites)
    (hsame : receivedType frame.byte ≠ .mr → t.peerInfo = (c.trans s).peerInfo)
    (hreset : receivedType frame.byte = .mr → t.peerInfo.usedNormalSize = 0) : WritesBehind t := by
  by_cases hmr : receivedType frame.byte = .mr
  · have hnil : t.writeTargets = [] := by
      rw [writeTargets_eq, hremote, ← writeTargets_eq]
      exact h.once.reset s frame hframe hmr
    exact .of_nil hnil (by rw [hreset hmr]) (by rw [hreset hmr]; decide)
  · exact (h.writes s).of_same (hsame hmr) hremote

/-- A message that arrives keeps the invariant, if an MR is not answered a second time. -/
theorem MrOnceInv.received (h : MrOnceInv c) {o : Outcomes} {frame : Frame} {t : HmrRdmaTransport}
    (hframe : (c.trans s.peer).qp.wire.head? = some frame)
    (hanswer : mrAnswers o (c.trans s) (receivedType frame.byte) = 0 ∨ (c.trans s).mrPosts = 0)
    (hdata : dataStep (c.trans s) (.recvComplete frame .success o) = some t)
    (hkeyed : KeyedConnection (c.handled s t)) : MrOnceInv (c.handled s t) := by
  have hmatch := h.keyed.recvs s
  have hlen := ((h.keyed.ends s.peer).wire frame (List.mem_of_mem_head? hframe)).1
  obtain ⟨hposts, hframes, -, hlist⟩ := recvComplete_postsMrs hmatch hlen hdata
  obtain ⟨hmrs, hremote, hsame, hreset⟩ := recvComplete_learns hmatch hlen hdata
  have htaken := mrCount_head hframe
  have hanswers := mrAnswers_le o (c.trans s) (receivedType frame.byte)
  have hwrites := h.received_writes hframe hremote hsame hreset
  have hself := h.counted s
  have hother := h.counted s.peer
  have hposted := h.posted s.peer
  rw [Side.peer_peer] at hother
  generalize mrAnswers o (c.trans s) (receivedType frame.byte) = n at *
  generalize (if receivedType frame.byte = .mr then 1 else 0) = k at *
  refine ⟨hkeyed, by cases s <;> exact h.waiting, ?_, fun r => ?_, fun hne => ?_, ?_,
    fun r => ?_, fun r => ?_, fun r => ?_⟩
  · cases s with
    | client => exact h.server
    | server => exact (dataStep_isClient hdata).trans h.server
  · rcases s.eq_or_peer r with rfl | rfl
    · rw [handled_self]
      exact hlist (h.plain r)
    · rw [handled_peer]
      exact h.plain s.peer
  · have hfresh := h.fresh (by cases s <;> exact hne)
    have hanswered := h.answered
    cases s with
    | client =>
      show t.mrPosts = 0
      simp only [Side.peer] at hself hother htaken
      omega
    | server => exact hfresh
  · have hanswered := h.answered
    cases s with
    | client => exact hanswered
    | server =>
      show t.mrPosts ≤ t.mrsReceived
      omega
  · rcases s.eq_or_peer r with rfl | rfl
    · rw [handled_peer, handled_self]
      show (c.trans r.peer).mrsReceived + mrCount t.qp.wire ≤ t.mrPosts
      omega
    · rw [Side.peer_peer, handled_peer, handled_self]
      show t.mrsReceived + mrCount (c.trans s.peer).qp.wire.tail ≤ (c.trans s.peer).mrPosts
      omega
  · rcases s.eq_or_peer r with rfl | rfl
    · rw [handled_self]
      have hposted := h.posted r
      omega
    · rw [handled_peer]
      exact hposted
  · rcases s.eq_or_peer r with rfl | rfl
    · rw [handled_self]
      exact hwrites
    · rw [handled_peer]
      exact (h.writes s.peer).of_same rfl rfl

/-- Every event that meets the condition keeps the invariant. -/
theorem MrOnceInv.step {e : SessionEvent} (h : MrOnceInv c) (happ : e.AppSends)
    (hticks : SessionTicksNoMr c e) (hfits : CursorFits c e) (honce : AnswersOnce c e)
    (hstep : sessionStep c e = some c') : MrOnceInv c' := by
  have hkeyed : KeyedConnection c' := h.keyed.session happ hticks hstep
  cases sessionStep_cases hstep with
  | disconnected s t hhandler =>
    obtain rfl := onCmDisconnected_eq hhandler
    exact h.quietEnd hkeyed rfl (.of_same rfl rfl rfl ⟨rfl, rfl, rfl⟩)
  | conn e _ hstep =>
    cases connectionStep_cases hstep with
    | established s o t hpending hhandler =>
      cases s with
      | client => exact h.clientEstablished hpending hhandler hkeyed
      | server => exact h.serverEstablished hhandler hkeyed
    | sendComplete s i status o t hdata => exact h.quietEnd hkeyed rfl (.sendComplete hdata)
    | recvComplete s o frame t hframe hdata =>
      refine h.received hframe ?_ hdata hkeyed
      by_cases hanswer : receivedType frame.byte = .mr ∧ (c.trans s).transState = .connected ∧
          o.sendPost
      · exact .inr (honce frame hframe hanswer.1 hanswer.2.1 hanswer.2.2)
      · exact .inl (if_neg hanswer)
    | recvFail s status o t hstatus hdata => exact h.quietEnd hkeyed rfl (.recvFail hstatus hdata)
    | tick s a t hdata => exact h.quietEnd hkeyed rfl (.tick hticks hfits hdata)
    | check s msg hready => exact h.quietEnd hkeyed rfl (.of_same rfl rfl rfl ⟨rfl, rfl, rfl⟩)
    | submit s i o msg t hmsg hsubmit =>
      have htype := (h.keyed.checked s msg (List.mem_of_getElem? hmsg)).1
      exact h.quietEnd hkeyed rfl (.submit htype hsubmit)
    | accept hphase =>
      have habsent := h.waiting hphase
      exact h.quiet hkeyed nofun (fun _ => by simp [habsent])
        fun r => .of_same rfl rfl rfl ⟨rfl, rfl, rfl⟩
    | acceptConnecting hphase =>
      refine h.quiet hkeyed nofun id fun r => ?_
      cases r <;> exact .of_same rfl rfl rfl ⟨rfl, rfl, rfl⟩
    | acceptMempool m hphase =>
      refine h.quiet hkeyed nofun id fun r => ?_
      cases r <;> exact .of_same rfl rfl rfl ⟨rfl, rfl, rfl⟩
    | acceptPost o left t hphase hpost =>
      refine h.quiet hkeyed nofun id fun r => ?_
      obtain ⟨hlist, -, hway, hlog⟩ := hpost.sends
      cases r with
      | client => exact .of_same rfl rfl rfl ⟨rfl, rfl, rfl⟩
      | server => exact .of_same hpost.isClient hpost.mrsReceived hpost.peerInfo ⟨hlist, hway, hlog⟩

/-- An event after which no side has posted a second MR has met the condition. -/
theorem MrOnceInv.answersOnce {e : SessionEvent} (h : MrOnceInv c)
    (hstep : sessionStep c e = some c') (hafter : MrOnce c') : AnswersOnce c e := by
  cases sessionStep_cases hstep with
  | disconnected => trivial
  | conn e _ hstep =>
    cases connectionStep_cases hstep with
    | recvComplete s o frame t hframe hdata =>
      intro frame' hframe' hmr hstate hpost
      obtain rfl := Option.some.inj (hframe.symm.trans hframe')
      have hlen := ((h.keyed.ends s.peer).wire frame (List.mem_of_mem_head? hframe)).1
      have hposts := (recvComplete_postsMrs (h.keyed.recvs s) hlen hdata).posts
      rw [mrAnswers, if_pos ⟨hmr, hstate, hpost⟩] at hposts
      have hafter : ((c.handled s t).trans s).mrPosts ≤ 1 := hafter.posted s
      rw [handled_self] at hafter
      omega
    | _ => trivial

/-- A connection that starts has the invariant. -/
theorem Connection.Starts.mrOnce (h : c.Starts) : MrOnceInv c where
  keyed := h.keyed
  waiting _ := h.established .client
  server := h.server.1
  plain s := by simp [(h.unused s).list]
  fresh _ := by simp [HmrRdmaTransport.mrPosts, (h.unused .client).log]
  answered := by simp [HmrRdmaTransport.mrPosts, (h.unused .server).log]
  counted s := by
    rw [(h.unused s.peer).mrs, (h.unused s).wire]
    exact Nat.zero_le _
  posted s := by simp [HmrRdmaTransport.mrPosts, (h.unused s).log]
  writes s := by
    refine .of_nil ?_ (by rw [(h.unused s).cursor]) (by rw [(h.unused s).cursor]; decide)
    rw [HmrRdmaTransport.writeTargets, (h.unused s).log, List.filterMap_nil]

/-- In the runs whose ticks leave the cursors `int`s and post no overwritten message as an MR, each
side announces its MR once and learns its peer's once, before any WRITE, and no WRITE overlays
another, if and only if every MR that is answered finds that its receiver has posted none. -/
theorem mrOnce_iff {events : List SessionEvent} (hstart : c.Starts)
    (happ : ∀ e ∈ events, e.AppSends)
    (hticks : Guarded sessionStep SessionTicksNoMr c events)
    (hfits : Guarded sessionStep CursorFits c events) :
    Always sessionStep MrOnce c events ↔ Guarded sessionStep AnswersOnce c events :=
  always_iff_guarded_within (fun _ h => h.once)
    (fun _ _ _ happ h hwithin honce hstep => h.step happ hwithin.1 hwithin.2 honce hstep)
    (fun _ _ _ _ h _ hstep hafter => h.answersOnce hstep hafter) happ hstart.mrOnce
    (hticks.and hfits)

end Session

/-- Behind the exchange of the sample parties the client posts two WRITEs at one tick and a third at
the next, and the server a message that the client receives between them. -/
def sampleWrites : List SessionEvent :=
  List.map SessionEvent.conn (sampleExchanged ++ sampleSend .client (sampleMsg .write 8) ++
    sampleSend .client (sampleMsg .write 24) ++ sampleSend .server (sampleMsg .normal 8) ++
    [.tick .client none, .tick .server none, .recvComplete .client .ok] ++
    sampleSend .client (sampleMsg .write 8) ++ [.tick .client none])

/-- No MR is answered twice there, so the WRITEs are apart. -/
theorem mrOnce_sample :
    ((runEvents sessionStep sampleConnection sampleWrites).map fun c =>
      (c.trans .client).writeTargets) = some [(2048, 16), (2064, 32), (2096, 16)] ∧
    Always sessionStep MrOnce sampleConnection sampleWrites :=
  ⟨by decide +kernel, (mrOnce_iff sampleConnection_starts (by decide +kernel) (by decide +kernel)
    (by decide +kernel)).mpr (by decide +kernel)⟩

/-- The sample exchange, in which the client polls the server's MR before its own completion. -/
def answeredMr : List SessionEvent :=
  [.conn .accept, .conn .acceptConnecting, .conn (.acceptMempool sampleMempoolOutcomes),
    .conn (.acceptPost .ok), .conn (.established .server .ok), .conn (.established .client .ok),
    .conn (.recvComplete .server .ok), .conn (.recvComplete .client .ok)]

/-- In it the client answers the server's MR with its own a second time. -/
theorem mr_posted_twice :
    ¬∀ (c : Connection) (events : List SessionEvent), c.Starts → (∀ e ∈ events, e.AppSends) →
      Guarded sessionStep ClientFirst c events → Guarded sessionStep SessionTicksNoMr c events →
      Guarded sessionStep CursorFits c events → Always sessionStep MrOnce c events := by
  intro h
  have hrun : (runEvents sessionStep sampleConnection answeredMr).map
      (fun c => (c.trans .client).mrPosts) = some 2 := by decide +kernel
  obtain ⟨c, hc, hposts⟩ := Option.map_eq_some_iff.mp hrun
  have hposted := ((h sampleConnection answeredMr sampleConnection_starts (by decide +kernel)
    (by decide +kernel) (by decide +kernel) (by decide +kernel)).of_run hc).posted .client
  rw [hposts] at hposted
  exact absurd hposted (by decide)

end HmrRpc
