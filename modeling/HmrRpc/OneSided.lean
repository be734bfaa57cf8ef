import HmrRpc.FlushChain

/-!
# Addressing one-sided requests

`hmr_rdma_send` and `hmr_send_task_handler` both build work requests. The first sets the
remote address and key of a READ or WRITE, but only ever posts the MR of the exchange;
the second, which posts all others, sets them for a WRITE alone.
-/

namespace HmrRpc

open Common

/-- A READ or a WRITE. -/
def IbvSendWr.OneSided (wr : IbvSendWr) : Prop := wr.opcode = .rdmaRead ∨ wr.opcode = .rdmaWrite

/-- The address lies in the region; addresses are numbers modulo `2 ^ 64`. -/
def IbvMr.HoldsAddr (mr : IbvMr) (a : ℤ) : Prop := (a - mr.addr.toNat) % 2 ^ 64 < mr.length.toNat

/-- The request carries the region's key and an address in it. -/
structure Addressed (mr : IbvMr) (wr : IbvSendWr) : Prop where
  rkey : wr.rkey = mr.rkey
  addr : mr.HoldsAddr wr.remoteAddr

/-- A request that reaches `ibv_post_send` from a state: one that is posted, if the post accepts all,
by the next tick or by a call of `hmr_rdma_send`. -/
inductive ReachesPost (t : HmrRdmaTransport) : IbvSendWr → Prop
  | flush (t' : HmrRdmaTransport) (wrs : List IbvSendWr) (wr : IbvSendWr)
      (htick : hmrSendTaskHandler none t = .ok t') (hlog : t'.qp.sendLog = t.qp.sendLog ++ wrs)
      (hmem : wr ∈ wrs) : ReachesPost t wr
  | direct (o : Outcomes) (msg : HmrMsg) (r : ℤ) (t' : HmrRdmaTransport) (wrs : List IbvSendWr)
      (wr : IbvSendWr) (hsend : hmrRdmaSend o t msg = .ok (r, t'))
      (hlog : t'.qp.sendLog = t.qp.sendLog ++ wrs) (hmem : wr ∈ wrs) : ReachesPost t wr

/-- Every one-sided request that reaches `ibv_post_send` is addressed. -/
def OneSidedAddressed (t : HmrRdmaTransport) : Prop :=
  ∀ wr, ReachesPost t wr → wr.OneSided → Addressed t.peerInfo.normalMr wr

/-- A task whose request the flush addresses, if the cursor stands at the given place: a WRITE
starts inside the region, and a READ needs a region with the key and the address zero. -/
def HmrTask.Addressable (mr : IbvMr) (cursor : ℤ) (task : HmrTask) : Prop :=
  match task.taskType with
  | .write => cInt cursor % 2 ^ 64 < mr.length.toNat
  | .read => mr.rkey = 0 ∧ mr.HoldsAddr 0
  | _ => True

/-- A list that the flush can post has addressable tasks only. -/
def AddressableQueue (t : HmrRdmaTransport) : Prop :=
  t.sendTaskList.length ≤ maxSendWr + 1 → ∀ (i : ℕ) (task : HmrTask), t.sendTaskList[i]? = some task →
    task.Addressable t.peerInfo.normalMr (t.cursorAt i)

section Posts

variable {t : HmrRdmaTransport} {wr : IbvSendWr}

/-- An offset leads into the region exactly if it is below its length. -/
theorem holdsAddr_offset (mr : IbvMr) (offset : ℤ) :
    mr.HoldsAddr ((mr.addr.toNat + offset) % 2 ^ 64) ↔ offset % 2 ^ 64 < mr.length.toNat := by
  have hdistance : ((mr.addr.toNat + offset) % 2 ^ 64 - mr.addr.toNat) % 2 ^ 64 =
      offset % 2 ^ 64 := by omega
  rw [IbvMr.HoldsAddr, hdistance]

/-- What `hmr_rdma_send` posts itself is never one-sided. -/
theorem SendResult.posts_twoSided {o : Outcomes} {msg : HmrMsg} {r : ℤ} {t' : HmrRdmaTransport}
    {wrs : List IbvSendWr} (h : SendResult o t msg r t')
    (hlog : t'.qp.sendLog = t.qp.sendLog ++ wrs) (hmem : wr ∈ wrs) : ¬wr.OneSided := by
  have hnone (hsame : t'.qp.sendLog = t.qp.sendLog) : wrs = [] :=
    List.append_right_eq_self.mp (hlog.symm.trans hsame)
  cases h with
  | refused => simp [hnone rfl] at hmem
  | submitted _ _ hsubmit =>
    cases hsubmit with
    | queued | dropped => simp [hnone rfl] at hmem
    | posted pool _ htype =>
      obtain rfl := List.append_cancel_left hlog
      obtain rfl := List.mem_singleton.mp hmem
      have htask : (acceptedTask pool msg t.nextTask).taskType = .mr :=
        HmrTaskType.ofMsgType_eq_mr.mpr htype
      simp [IbvSendWr.OneSided, directSendWr, hmrGetOpcodeFromTask, htask]

/-- The one-sided requests that reach `ibv_post_send` are those of the flush. -/
theorem reachesPost_iff (hside : wr.OneSided) :
    ReachesPost t wr ↔ t.sendTaskList.length ≤ maxSendWr + 1 ∧ wr ∈ t.sendWrs := by
  have hchain : sendChain t.peerInfo t.sendTaskList = t.sendWrs := sendChain_eq _ _
  constructor
  · intro h
    cases h with
    | flush t' wrs _ htick hlog hmem =>
      cases hmrSendTaskHandler_cases htick with
      | idle => simp [List.append_right_eq_self.mp hlog.symm] at hmem
      | flushed _ hfit =>
        obtain rfl := List.append_cancel_left (hlog : _ = t.qp.sendLog ++ wrs)
        exact ⟨hfit, hchain ▸ hmem⟩
    | direct o msg r t' wrs _ hsend hlog hmem =>
      exact absurd hside ((hmrRdmaSend_cases hsend).posts_twoSided hlog hmem)
  · rintro ⟨hfit, hmem⟩
    have hne : t.sendTaskList ≠ [] := by
      intro hnil
      simp [HmrRdmaTransport.sendWrs, hnil, fillSendWrs, endChain] at hmem
    have htick : hmrSendTaskHandler none t = .ok t.flushed := by
      simp [hmrSendTaskHandler, HmrRdmaTransport.flushed, hne, Nat.not_lt.mpr hfit]
    exact .flush t.flushed _ wr htick (congrArg (t.qp.sendLog ++ ·) hchain) hmem

/-- Such a request is addressed exactly if its task is addressable. -/
theorem sendWrs_addressed_iff (hint : cInt t.peerInfo.usedNormalSize = t.peerInfo.usedNormalSize)
    {i : ℕ} {task : HmrTask} (htask : t.sendTaskList[i]? = some task)
    (hwr : t.sendWrs[i]? = some wr) :
    (wr.OneSided → Addressed t.peerInfo.normalMr wr) ↔
      task.Addressable t.peerInfo.normalMr (t.cursorAt i) := by
  rw [sendWrs_getElem?, htask] at hwr
  obtain rfl := Option.some.inj hwr
  have hcursor : (fillSendWrs t.peerInfo 0 (t.sendTaskList.take i)).2.usedNormalSize =
      cInt (t.cursorAt i) := fillSendWrs_usedNormalSize _ _ _ hint
  have hmr := fillSendWrs_normalMr t.peerInfo 0 (t.sendTaskList.take i)
  cases htype : task.taskType with
  | write =>
    have hopcode : hmrGetOpcodeFromTask task = .rdmaWrite := hmrGetOpcodeFromTask_eq_write.mpr htype
    simp only [HmrTask.Addressable, htype, ← holdsAddr_offset]
    constructor
    · intro h
      have haddr := (h (.inr hopcode)).addr
      simpa [fillSendWr, hopcode, hcursor, hmr] using haddr
    · intro h _
      refine ⟨by simp [fillSendWr, hopcode, hmr], ?_⟩
      simpa [fillSendWr, hopcode, hcursor, hmr] using h
  | read =>
    have hopcode : hmrGetOpcodeFromTask task = .rdmaRead := by simp [hmrGetOpcodeFromTask, htype]
    simp only [HmrTask.Addressable, htype]
    constructor
    · intro h
      obtain ⟨hrkey, haddr⟩ := h (.inl hopcode)
      exact ⟨by simpa [fillSendWr, hopcode] using hrkey.symm,
        by simpa [fillSendWr, hopcode] using haddr⟩
    · rintro ⟨hrkey, haddr⟩ -
      exact ⟨by simp [fillSendWr, hopcode, hrkey], by simpa [fillSendWr, hopcode] using haddr⟩
  | mr | normal | finish | done | other =>
    have hopcode : hmrGetOpcodeFromTask task = .send := by simp [hmrGetOpcodeFromTask, htype]
    refine iff_of_true (fun hside => ?_) (by simp [HmrTask.Addressable, htype])
    simp [IbvSendWr.OneSided, fillSendWr, hopcode] at hside

end Posts

/-- From any state, all one-sided requests that reach `ibv_post_send` are addressed if and only if
the tasks of the list are addressable. -/
theorem oneSidedAddressed_iff {t : HmrRdmaTransport}
    (hint : cInt t.peerInfo.usedNormalSize = t.peerInfo.usedNormalSize) :
    OneSidedAddressed t ↔ AddressableQueue t := by
  constructor
  · intro h hfit i task htask
    obtain ⟨hi, -⟩ := List.getElem?_eq_some_iff.mp htask
    have hi' : i < t.sendWrs.length := by rwa [sendWrs_length]
    refine (sendWrs_addressed_iff hint htask (List.getElem?_eq_getElem hi')).mp fun hside => ?_
    exact h _ ((reachesPost_iff hside).mpr ⟨hfit, List.getElem_mem hi'⟩) hside
  · intro h wr hreach hside
    obtain ⟨hfit, hmem⟩ := (reachesPost_iff hside).mp hreach
    obtain ⟨i, hwr⟩ := List.mem_iff_getElem?.mp hmem
    obtain ⟨task, htask, -⟩ := Option.map_eq_some_iff.mp ((sendWrs_getElem? t i).symm.trans hwr)
    exact (sendWrs_addressed_iff hint htask hwr).mpr (h hfit i task htask) hside

/-- The sample queue has WRITE tasks between others. -/
theorem oneSidedAddressed_sample : OneSidedAddressed sampleQueue ↔ AddressableQueue sampleQueue :=
  oneSidedAddressed_iff (by decide)

/-- A READ accepted behind the exchange is posted with the key and the address zero. -/
theorem read_unaddressed :
    ¬∀ (o : Outcomes) (t t' : HmrRdmaTransport) (msg : HmrMsg), t.transState = .rconnected →
      t.sendTaskList = [] → hmrRdmaSend o t msg = .ok (0, t') → OneSidedAddressed t' := by
  intro h
  have haddressed := h .ok sampleTransport _ (sampleMsg .read 8) rfl rfl rfl
  let task : HmrTask := acceptedTask samplePool (sampleMsg .read 8) 0
  let wr : IbvSendWr := ⟨task, none, task.ibvSge, 1, .rdmaRead, true, 0, 0⟩
  have hreach : ReachesPost (sampleTransport.queued samplePool (sampleMsg .read 8)) wr :=
    .flush _ [wr] wr rfl rfl (.head _)
  exact absurd (haddressed wr hreach (.inl rfl)).rkey (by decide)

end HmrRpc
