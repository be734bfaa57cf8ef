import HmrRpc.Lifecycle

/-!
# The send side of a transport

The list of tasks, the requests accepted, the tasks freed and what is known of the peer:
all of it changes only when the program sends, flushes, handles a completion or learns an
MR. Every send, whichever handler makes it, queues one task, posts one request directly,
or leaves the send side alone.
-/

namespace HmrRpc

open Common

/-- The data of the send side. -/
def HmrRdmaTransport.sendSide (t : HmrRdmaTransport) :
    List HmrTask × List IbvSendWr × List ℕ × HmrPeerInfo × ℕ :=
  (t.sendTaskList, t.qp.sendLog, t.freedTasks, t.peerInfo, t.mrsReceived)

/-- The second transport has no other requests outstanding, and tasks may have been allocated. -/
structure SameOutstanding (t t' : HmrRdmaTransport) : Prop where
  sq : t'.qp.sq ⊆ t.qp.sq
  nextTask : t.nextTask ≤ t'.nextTask

/-- What the program does to the send side with one message, or without any: it queues a task, posts
a request itself, or nothing. -/
inductive Emits (t t' : HmrRdmaTransport) : Prop
  | nothing (hlist : t'.sendTaskList = t.sendTaskList) (hlog : t'.qp.sendLog = t.qp.sendLog)
      (hout : SameOutstanding t t')
  | queued (task : HmrTask) (hid : task.id = t.nextTask)
      (hlist : t'.sendTaskList = t.sendTaskList ++ [task]) (hlog : t'.qp.sendLog = t.qp.sendLog)
      (hsq : t'.qp.sq ⊆ t.qp.sq) (hnext : t.nextTask < t'.nextTask)
  | posted (wr : IbvSendWr) (hid : wr.wrId.id = t.nextTask) (hopcode : wr.opcode = .send)
      (hlist : t'.sendTaskList = t.sendTaskList) (hlog : t'.qp.sendLog = t.qp.sendLog ++ [wr])
      (hsq : t'.qp.sq ⊆ t.qp.sq ++ [wr]) (hnext : t.nextTask < t'.nextTask)

/-- What an event did to the send side. -/
inductive SideResult (t : HmrRdmaTransport) : LifecycleEvent → HmrRdmaTransport → Prop
  | emits (e : LifecycleEvent) (t' : HmrRdmaTransport) (htick : ∀ a, e ≠ .data (.tick a))
      (h : Emits t t') (hfreed : t'.freedTasks = t.freedTasks) (hpeer : t'.peerInfo = t.peerInfo)
      (hmrs : t'.mrsReceived = t.mrsReceived) : SideResult t e t'
  | learned (e : LifecycleEvent) (t' : HmrRdmaTransport) (htick : ∀ a, e ≠ .data (.tick a))
      (h : Emits t t') (hfreed : t'.freedTasks = t.freedTasks)
      (hcursor : t'.peerInfo.usedNormalSize = 0) (hmrs : t'.mrsReceived = t.mrsReceived + 1) :
      SideResult t e t'
  | completed (e : LifecycleEvent) (t' : HmrRdmaTransport) (htick : ∀ a, e ≠ .data (.tick a))
      (hlist : t'.sendTaskList = t.sendTaskList) (hlog : t'.qp.sendLog = t.qp.sendLog)
      (hout : SameOutstanding t t')
      (hfreed : t'.freedTasks = t.freedTasks ∨
        ∃ wr ∈ t.qp.sq, t'.freedTasks = t.freedTasks ++ [wr.wrId.id])
      (hpeer : t'.peerInfo = t.peerInfo) (hmrs : t'.mrsReceived = t.mrsReceived) :
      SideResult t e t'
  | flushed (a : Option ℕ) (t' : HmrRdmaTransport) (h : TickResult t a t') :
      SideResult t (.data (.tick a)) t'

/-- The events in which the program neither sends nor flushes nor handles a completion. -/
def LifecycleEvent.Quiet : LifecycleEvent → Prop
  | .established _ | .data _ => False
  | _ => True

section Quiet

variable {t t' : HmrRdmaTransport}

/-- A transport compared with itself. -/
theorem SameOutstanding.refl (t : HmrRdmaTransport) : SameOutstanding t t :=
  ⟨fun _ h => h, le_rfl⟩

/-- One step after another. -/
theorem SameOutstanding.trans {u : HmrRdmaTransport} (h : SameOutstanding t t')
    (h' : SameOutstanding t' u) : SameOutstanding t u :=
  ⟨fun _ hwr => h.sq (h'.sq hwr), h.nextTask.trans h'.nextTask⟩

/-- Posting a receive leaves the send side alone. -/
theorem PostRecvResult.sendSide {o : Outcomes} {size : ℤ} (h : PostRecvResult o t size t') :
    t'.sendSide = t.sendSide := by
  cases h <;> rfl

/-- It allocates a task at most. -/
theorem PostRecvResult.sameOutstanding {o : Outcomes} {size : ℤ} (h : PostRecvResult o t size t') :
    SameOutstanding t t' := by
  cases h with
  | noMemory => exact .refl t
  | posted | dropped => exact ⟨fun _ hwr => hwr, Nat.le_succ _⟩

/-- So do the receives posted up front. -/
theorem postRecvs_sendSide {o : ℕ → Outcomes} {n : ℕ} (h : postRecvs o n t = .ok t') :
    t'.sendSide = t.sendSide ∧ SameOutstanding t t' := by
  refine ⟨postRecvs_preserves PostRecvResult.sendSide h, ?_⟩
  induction n generalizing t' with
  | zero =>
    obtain rfl := Except.ok.inj h
    exact .refl t
  | succ n ih =>
    obtain ⟨u, hbefore, hlast⟩ := bind_eq_ok h
    exact (ih hbefore).trans (hmrPostRecv_cases hlast).sameOutstanding

/-- A fresh queue pair has nothing outstanding. -/
theorem qpCreated_sendSide (t : HmrRdmaTransport) :
    t.qpCreated.sendSide = t.sendSide ∧ SameOutstanding t t.qpCreated :=
  ⟨rfl, List.nil_subset _, le_rfl⟩

/-- The quiet events leave the send side alone. -/
theorem lifecycleStep_quiet {e : LifecycleEvent} (hquiet : e.Quiet)
    (hstep : lifecycleStep t e = some t') : t'.sendSide = t.sendSide ∧ SameOutstanding t t' := by
  have hsame : t.sendSide = t.sendSide ∧ SameOutstanding t t := ⟨rfl, .refl t⟩
  cases e with
  | connect ok | listen ok =>
    obtain rfl := Option.some.inj hstep
    cases ok <;> exact ⟨rfl, fun _ hwr => hwr, le_rfl⟩
  | addrResolved deviceFound m =>
    obtain rfl := Option.some.inj hstep
    cases deviceFound <;> exact ⟨rfl, fun _ hwr => hwr, le_rfl⟩
  | routeResolved qpOk connectOk o =>
    obtain ⟨hside, hout⟩ := qpCreated_sendSide t
    rcases onCmRouteResolved_cases (ok_of_toOption hstep) with
      ⟨-, rfl⟩ | ⟨-, -, rfl⟩ | ⟨-, -, hposts⟩
    · exact hsame
    · exact ⟨rfl, hout.sq, hout.nextTask⟩
    · obtain ⟨hside', hout'⟩ := postRecvs_sendSide hposts
      exact ⟨hside'.trans hside, hout.trans hout'⟩
  | connectRequest deviceFound qpOk =>
    obtain rfl := Option.some.inj hstep
    unfold onCmConnectRequest
    split
    · exact qpCreated_sendSide t
    · exact hsame
  | acceptConnecting | acceptMempool | connectError =>
    obtain rfl := Option.some.inj hstep
    exact ⟨rfl, fun _ hwr => hwr, le_rfl⟩
  | acceptPosts o => exact postRecvs_sendSide (ok_of_toOption hstep)
  | disconnected =>
    obtain rfl := onCmDisconnected_eq (ok_of_toOption hstep)
    exact ⟨rfl, fun _ hwr => hwr, le_rfl⟩
  | established | data => exact hquiet.elim

end Quiet

section Emits

variable {o : Outcomes} {t t' u u' : HmrRdmaTransport} {msg : HmrMsg} {r : ℤ}

/-- Every send emits its message or nothing. -/
theorem SendResult.emits (h : SendResult o t msg r t') : Emits t t' := by
  cases h with
  | refused => exact .nothing rfl rfl (.refl t)
  | submitted _ _ hsubmit =>
    cases hsubmit with
    | queued pool =>
      exact .queued (acceptedTask pool msg t.nextTask) rfl rfl rfl (fun _ hwr => hwr)
        (Nat.lt_succ_self _)
    | posted pool _ htype =>
      have htask : (acceptedTask pool msg t.nextTask).taskType = .mr :=
        HmrTaskType.ofMsgType_eq_mr.mpr htype
      exact .posted (directSendWr t.peerInfo (acceptedTask pool msg t.nextTask)) rfl
        (by simp [directSendWr, hmrGetOpcodeFromTask, htask]) rfl rfl (fun _ hwr => hwr)
        (Nat.lt_succ_self _)
    | dropped => exact .nothing rfl rfl ⟨fun _ hwr => hwr, Nat.le_succ _⟩

/-- It frees no task and receives nothing. -/
theorem SendResult.freedTasks (h : SendResult o t msg r t') : t'.freedTasks = t.freedTasks :=
  h.preserves fun hsubmit => by cases hsubmit <;> rfl

/-- What follows an emission and leaves list and requests alone belongs to it. -/
theorem Emits.trans_same (h : Emits t u) (hlist : u'.sendTaskList = u.sendTaskList)
    (hlog : u'.qp.sendLog = u.qp.sendLog) (hout : SameOutstanding u u') : Emits t u' := by
  cases h with
  | nothing hlist' hlog' hout' =>
    exact .nothing (hlist.trans hlist') (hlog.trans hlog') (hout'.trans hout)
  | queued task hid hlist' hlog' hsq hnext =>
    exact .queued task hid (hlist.trans hlist') (hlog.trans hlog') (fun _ hwr => hsq (hout.sq hwr))
      (hnext.trans_le hout.nextTask)
  | posted wr hid hopcode hlist' hlog' hsq hnext =>
    exact .posted wr hid hopcode (hlist.trans hlist') (hlog.trans hlog')
      (fun _ hwr => hsq (hout.sq hwr)) (hnext.trans_le hout.nextTask)

/-- A transport with the same list, requests and tasks emits the same. -/
theorem Emits.of_same (h : Emits u t') (hlist : u.sendTaskList = t.sendTaskList)
    (hqp : u.qp.sq = t.qp.sq) (hlog : u.qp.sendLog = t.qp.sendLog)
    (hnext : u.nextTask = t.nextTask) : Emits t t' := by
  cases h with
  | nothing hlist' hlog' hout =>
    exact .nothing (hlist'.trans hlist) (hlog'.trans hlog) ⟨hqp ▸ hout.sq, hnext ▸ hout.nextTask⟩
  | queued task hid hlist' hlog' hsq hnext' =>
    exact .queued task (hid.trans hnext) (by rw [hlist', hlist]) (hlog'.trans hlog) (hqp ▸ hsq)
      (hnext ▸ hnext')
  | posted wr hid hopcode hlist' hlog' hsq hnext' =>
    exact .posted wr (hid.trans hnext) hopcode (hlist'.trans hlist) (by rw [hlog', hlog])
      (hqp ▸ hsq) (hnext ▸ hnext')

@[simp] theorem respond_nextTask (t : HmrRdmaTransport) (taskType : HmrTaskType) (msg : HmrMsg) :
    (t.respond taskType msg).nextTask = t.nextTask :=
  respond_preserves t taskType msg fun _ _ => rfl

/-- Handling a frame emits an MR, a DONE or nothing. -/
theorem RecvBody.emits {bytes : ℕ → UInt8} {taskType : HmrTaskType}
    (h : RecvBody o t bytes taskType u) : Emits t u := by
  cases h with
  | firstMr pool r v _ _ hsend =>
    have hlearned : Emits t v := hsend.emits.of_same rfl rfl rfl rfl
    exact hlearned.trans_same rfl rfl ⟨fun _ hwr => hwr, le_rfl⟩
  | laterMr => exact .nothing rfl rfl ⟨fun _ hwr => hwr, le_rfl⟩
  | finish r _ hsend => exact hsend.emits.of_same (by simp) (by simp) (by simp) (by simp)
  | done =>
    refine .nothing (by simp) (by simp) ⟨?_, ?_⟩
    · simp
    · simp
  | plain => exact .nothing (by simp) (by simp) ⟨by simp, by simp⟩

/-- It frees no task. -/
theorem RecvBody.freedTasks {bytes : ℕ → UInt8} {taskType : HmrTaskType}
    (h : RecvBody o t bytes taskType u) : u.freedTasks = t.freedTasks :=
  h.preserves (fun _ _ => rfl) (fun _ => rfl) (fun _ => rfl) (fun _ _ => rfl) SendResult.freedTasks

end Emits

section Step

variable {t t' : HmrRdmaTransport}

/-- A completed send leaves the list and the requests accepted, and frees at most its own task. -/
theorem sendComplete_side {i : ℕ} {status : IbvWcStatus} {o : Outcomes}
    (hstep : dataStep t (.sendComplete i status o) = some t') :
    SideResult t (.data (.sendComplete i status o)) t' := by
  obtain ⟨-, hlist, hpeer, hqp⟩ := dataStep_sendComplete_frame hstep
  obtain ⟨-, hmrs, -⟩ := dataStep_sendComplete_state hstep
  obtain ⟨wr, hwr, rfl⟩ := dataStep_sendComplete hstep
  have hmem : wr ∈ t.qp.sq := List.mem_of_getElem? hwr
  have hdone (u : HmrRdmaTransport) (task : HmrTask) :
      (u.sendDone task).freedTasks = u.freedTasks ∧ (u.sendDone task).nextTask = u.nextTask := by
    unfold HmrRdmaTransport.sendDone
    split_ifs <;> exact ⟨rfl, rfl⟩
  refine .completed _ _ (by simp) hlist (by rw [hqp]; rfl) ⟨?_, ?_⟩ ?_ hpeer hmrs
  · rw [hqp]
    exact fun _ hwr => List.mem_of_mem_eraseIdx hwr
  · split
    · cases wr.opcode with
      | send => exact (hdone (t.pollSend i) wr.wrId).2.ge
      | rdmaWrite | rdmaRead => exact le_rfl
    · exact le_rfl
  · split
    · cases wr.opcode with
      | send =>
        refine .inr ⟨wr, hmem, ?_⟩
        exact congrArg (· ++ [wr.wrId.id]) (hdone (t.pollSend i) wr.wrId).1
      | rdmaWrite => exact .inr ⟨wr, hmem, rfl⟩
      | rdmaRead => exact .inl rfl
    · exact .inl rfl

/-- A completed receive learns an MR, or emits an answer or nothing. -/
theorem recvComplete_side {frame : Frame} {status : IbvWcStatus} {o : Outcomes}
    (hstep : dataStep t (.recvComplete frame status o) = some t') :
    SideResult t (.data (.recvComplete frame status o)) t' := by
  cases dataStep_recvComplete hstep with
  | flushed =>
    exact .emits _ _ (by simp) (.nothing rfl rfl ⟨fun _ hwr => hwr, le_rfl⟩) rfl rfl rfl
  | received wr pool u _ _ _ hbody hrepost =>
    obtain ⟨hlist, -, -, hlog⟩ := hrepost.sends
    have hemits : Emits t t' :=
      (hbody.emits.of_same (t := t) rfl rfl rfl rfl).trans_same hlist hlog hrepost.sameOutstanding
    have hfreed : t'.freedTasks = t.freedTasks := by
      have hside := hrepost.sendSide
      simp only [HmrRdmaTransport.sendSide, Prod.mk.injEq] at hside
      exact hside.2.2.1.trans hbody.freedTasks
    have hmrs : t'.mrsReceived = _ := hrepost.mrsReceived.trans hbody.mrsReceived
    by_cases htype : receivedType (pool.memory.bytesAt wr.wrId.sgeList.addr) = .mr
    · rw [if_pos htype] at hmrs
      rw [htype] at hbody
      exact .learned _ _ (by simp) hemits hfreed (by rw [hrepost.peerInfo, hbody.cursor]) hmrs
    · rw [if_neg htype] at hmrs
      exact .emits _ _ (by simp) hemits hfreed (hrepost.peerInfo.trans (hbody.peerInfo htype)) hmrs

/-- Every event of a transport's life is one of the listed results for its send side. -/
theorem lifecycleStep_side {e : LifecycleEvent} (hstep : lifecycleStep t e = some t') :
    SideResult t e t' := by
  by_cases hquiet : e.Quiet
  · obtain ⟨hside, hout⟩ := lifecycleStep_quiet hquiet hstep
    simp only [HmrRdmaTransport.sendSide, Prod.mk.injEq] at hside
    obtain ⟨hlist, hlog, hfreed, hpeer, hmrs⟩ := hside
    refine .emits e t' ?_ (.nothing hlist hlog hout) hfreed hpeer hmrs
    rintro a rfl
    exact hquiet
  cases e with
  | established o =>
    rcases onCmEstablished_cases (ok_of_toOption hstep) with ⟨-, rfl⟩ | ⟨-, pool, r, -, hsend⟩
    · exact .emits _ _ (by simp) (.nothing rfl rfl ⟨fun _ hwr => hwr, le_rfl⟩) rfl rfl rfl
    · exact .emits _ _ (by simp) (hsend.emits.of_same rfl rfl rfl rfl) hsend.freedTasks hsend.peerInfo
        hsend.mrsReceived
  | data e =>
    cases e with
    | send msg o =>
      obtain ⟨r, hsend⟩ := dataStep_send hstep
      exact .emits _ _ (by simp) hsend.emits hsend.freedTasks hsend.peerInfo hsend.mrsReceived
    | tick a => exact .flushed a t' (dataStep_tick hstep)
    | sendComplete i status o => exact sendComplete_side hstep
    | recvComplete frame status o => exact recvComplete_side hstep
  | _ => exact absurd trivial hquiet

end Step

end HmrRpc
