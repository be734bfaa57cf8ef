import HmrRpc.TransportRun

/-!
# What `hmr_rdma_send` reports

The value returned should tell the caller what became of the message. The task is used
without a test of its allocation, and the result of the direct post is only logged, so
the call keeps this promise exactly when neither of these fails.
-/

namespace HmrRpc

open Common

/-- The call has handed the task on: to the list, or to the queue pair with an accepted request. -/
inductive Submitted (t t' : HmrRdmaTransport) (task : HmrTask) : Prop
  | queued (hlist : t'.sendTaskList = t.sendTaskList ++ [task])
  | posted (wr : IbvSendWr) (hlog : t'.qp.sendLog = t.qp.sendLog ++ [wr]) (htask : wr.wrId = task)

/-- The tasks allocated and not yet freed. -/
def HmrRdmaTransport.liveTasks (t : HmrRdmaTransport) : List ℕ :=
  (List.range t.nextTask).filter fun id => id ∉ t.freedTasks

/-- Neither the list nor the cursor of the send ring nor the live tasks have changed. -/
structure SendUnchanged (t t' : HmrRdmaTransport) : Prop where
  list : t'.sendTaskList = t.sendTaskList
  cursor : t'.normalMempool.map HmrMempool.usedSendRegion =
    t.normalMempool.map HmrMempool.usedSendRegion
  tasks : t'.liveTasks = t.liveTasks

/-- The call returns without following a null pointer, returns zero exactly if it has handed on a
task that carries the message, and otherwise leaves everything as it was. -/
def SendsTruthfully (o : Outcomes) (t : HmrRdmaTransport) (msg : HmrMsg) : Prop :=
  ∃ r t', hmrRdmaSend o t msg = .ok (r, t') ∧
    (r = 0 ↔ ∃ task, Submitted t t' task ∧ task.taskType = .ofMsgType msg.msgType ∧
      task.frame = msg.frame) ∧
    (r ≠ 0 → SendUnchanged t t')

/-- A message that passes the check finds a pool and memory for its task, and an MR message is
accepted by the queue pair. -/
def SendSucceeds (o : Outcomes) (t : HmrRdmaTransport) (msg : HmrMsg) : Prop :=
  hmrMsgReady t msg → t.normalMempool.isSome ∧ o.sendCalloc ∧ (msg.msgType = .mr → o.sendPost)

section Submitted

variable {o : Outcomes} {t t' : HmrRdmaTransport} {msg : HmrMsg}

/-- Nothing is handed on while the list and the accepted requests stay as they are. -/
theorem not_submitted {task : HmrTask} (hlist : t'.sendTaskList = t.sendTaskList)
    (hlog : t'.qp.sendLog = t.qp.sendLog) : ¬Submitted t t' task := by
  rintro (hlist' | ⟨wr, hlog', -⟩)
  · exact absurd (hlist.symm.trans hlist') (by simp)
  · exact absurd (hlog.symm.trans hlog') (by simp)

/-- The task a returning call hands on is the accepted one. -/
theorem SubmitResult.submitted (h : SubmitResult o t msg t') {task : HmrTask}
    (hsubmitted : Submitted t t' task) : ∃ pool, t.normalMempool = some pool ∧
      task = acceptedTask pool msg t.nextTask ∧ t'.normalMempool = some (pool.afterSendTask msg) := by
  cases h with
  | queued pool hpool =>
    refine ⟨pool, hpool, ?_, rfl⟩
    cases hsubmitted with
    | queued hlist => exact (List.singleton_inj.mp (List.append_cancel_left hlist)).symm
    | posted _ hlog => exact absurd hlog (by simp [HmrRdmaTransport.queued, HmrRdmaTransport.created])
  | posted pool hpool =>
    refine ⟨pool, hpool, ?_, rfl⟩
    cases hsubmitted with
    | queued hlist =>
      exact absurd hlist
        (by simp [HmrRdmaTransport.postedDirect, HmrRdmaTransport.ibvPostSend,
          HmrRdmaTransport.created])
    | posted wr hlog htask =>
      obtain rfl := List.singleton_inj.mp (List.append_cancel_left hlog)
      exact htask.symm
  | dropped pool _ => exact absurd hsubmitted (not_submitted rfl rfl)

/-- Behind the check a task is handed on unless the direct post fails. -/
theorem SubmitResult.submitted_iff (h : SubmitResult o t msg t') :
    (∃ task, Submitted t t' task ∧ task.taskType = .ofMsgType msg.msgType ∧
      task.frame = msg.frame) ↔ (msg.msgType = .mr → o.sendPost) := by
  cases h with
  | queued pool _ htype =>
    exact iff_of_true ⟨_, .queued rfl, rfl, rfl⟩ fun hmr => absurd hmr htype
  | posted pool _ _ hpost => exact iff_of_true ⟨_, .posted _ rfl rfl, rfl, rfl⟩ fun _ => hpost
  | dropped pool _ htype hpost =>
    refine iff_of_false ?_ fun h => ?_
    · rintro ⟨task, hsubmitted, -⟩
      exact absurd hsubmitted (not_submitted rfl rfl)
    · simpa [hpost] using h htype

/-- A call behind its check that returns had a pool and memory for the task. -/
theorem submitMsg_resources {r : ℤ} (h : submitMsg o t msg = .ok (r, t')) :
    t.normalMempool.isSome ∧ o.sendCalloc := by
  unfold submitMsg hmrSendTaskCreate at h
  cases hcalloc : o.sendCalloc with
  | false => simp [hcalloc] at h
  | true =>
    cases hpool : t.normalMempool with
    | none => simp [hcalloc, hpool] at h
    | some pool => exact ⟨rfl, rfl⟩

end Submitted

/-- In every state in which the check ends, the call reports truthfully if and only if it succeeds
behind the check. -/
theorem sendsTruthfully_iff {o : Outcomes} {t : HmrRdmaTransport} {msg : HmrMsg}
    (hends : hmrMsgCheck t msg ≠ .error .spins) :
    SendsTruthfully o t msg ↔ SendSucceeds o t msg := by
  cases hready : hmrMsgReady t msg with
  | false =>
    have hcheck : hmrMsgCheck t msg = .ok (-1) := by
      unfold hmrMsgCheck at hends ⊢
      simp only [hready, Bool.false_eq_true, if_false] at hends ⊢
      split at hends
      · rename_i hbeyond
        rw [if_pos hbeyond]
      · exact absurd rfl hends
    refine iff_of_true ⟨-1, t, by simp [hmrRdmaSend, hcheck], ?_, fun _ => ⟨rfl, rfl, rfl⟩⟩ ?_
    · refine iff_of_false (by decide) ?_
      rintro ⟨task, hsubmitted, -⟩
      exact absurd hsubmitted (not_submitted rfl rfl)
    · exact fun h => absurd h (by simp [hready])
  | true =>
    have hcall : hmrRdmaSend o t msg = submitMsg o t msg := by
      simp [hmrRdmaSend, hmrMsgCheck_eq_zero.mpr hready]
    constructor
    · rintro ⟨r, t', hsend, hzero, -⟩ -
      rw [hcall] at hsend
      obtain ⟨rfl, hsubmit⟩ := submitMsg_cases hsend
      obtain ⟨hpool, hcalloc⟩ := submitMsg_resources hsend
      exact ⟨hpool, hcalloc, hsubmit.submitted_iff.mp (hzero.mp rfl)⟩
    · intro h
      obtain ⟨hpool, hcalloc, hpost⟩ := h hready
      obtain ⟨pool, hpool⟩ := Option.isSome_iff_exists.mp hpool
      obtain ⟨t', hsend⟩ := hmrRdmaSend_of_ready hready hpool hcalloc
      have hsubmit := (submitMsg_cases (hcall ▸ hsend)).2
      refine ⟨0, t', hsend, iff_of_true rfl (hsubmit.submitted_iff.mpr hpost), ?_⟩
      exact fun hne => absurd rfl hne

/-- A message the sample transport queues. -/
theorem sendsTruthfully_sample :
    SendsTruthfully .ok sampleTransport (sampleMsg .normal 8) ↔
      SendSucceeds .ok sampleTransport (sampleMsg .normal 8) :=
  sendsTruthfully_iff (by decide)

/-- When the post of an MR message fails, the call returns zero all the same. -/
theorem failedPost_reportsSuccess :
    ¬∀ (o : Outcomes) (t : HmrRdmaTransport) (msg : HmrMsg), hmrMsgCheck t msg ≠ .error .spins →
      SendsTruthfully o t msg := by
  intro h
  obtain ⟨r, t', hsend, hzero, -⟩ :=
    h ⟨true, false, true, true, true⟩ sampleTransport (sampleMsg .mr 8) (by decide)
  have hcall : hmrRdmaSend ⟨true, false, true, true, true⟩ sampleTransport (sampleMsg .mr 8) =
      .ok (0, sampleTransport.created samplePool (sampleMsg .mr 8)) := rfl
  obtain ⟨rfl, rfl⟩ := Prod.mk.inj (Except.ok.inj (hcall.symm.trans hsend))
  obtain ⟨task, hsubmitted, -⟩ := hzero.mp rfl
  exact absurd hsubmitted (not_submitted rfl rfl)

end HmrRpc
