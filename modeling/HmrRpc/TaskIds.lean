import HmrRpc.SendSide

/-!
# The tasks in use

A task is in use while it is queued, while its request is outstanding, and, as far as its id
goes, once it is freed. An event allocates tasks with new ids, hands them on from one place to
the next, or lets go of them, so the task of a posted receive is never one that has been sent.
-/

namespace HmrRpc

section Ids

variable {o : Outcomes} {t t' : HmrRdmaTransport}

/-- The tasks to be sent, outstanding, or freed. -/
def HmrRdmaTransport.sendIds (t : HmrRdmaTransport) : List ℕ :=
  t.sendTaskList.map HmrTask.id ++ t.qp.sq.map (fun wr => wr.wrId.id) ++ t.freedTasks

/-- The tasks of the posted receives. -/
def HmrRdmaTransport.recvIds (t : HmrRdmaTransport) : List ℕ := t.qp.rq.map fun wr => wr.wrId.id

/-- A task is allocated once, and a receive has a task of its own. -/
structure TaskIds (t : HmrRdmaTransport) : Prop where
  sends : ∀ id ∈ t.sendIds, id < t.nextTask
  recvs : ∀ id ∈ t.recvIds, id < t.nextTask
  apart : t.recvIds.Disjoint t.sendIds

/-- The tasks of a transport by the places they are in. -/
theorem sendIds_subset {ids : List ℕ} (hlist : t.sendTaskList.map HmrTask.id ⊆ ids)
    (hsq : (t.qp.sq.map fun wr => wr.wrId.id) ⊆ ids) (hfreed : t.freedTasks ⊆ ids) :
    t.sendIds ⊆ ids :=
  List.append_subset.mpr ⟨List.append_subset.mpr ⟨hlist, hsq⟩, hfreed⟩

theorem list_subset_sendIds (t : HmrRdmaTransport) : t.sendTaskList.map HmrTask.id ⊆ t.sendIds :=
  fun _ hid => List.mem_append_left _ (List.mem_append_left _ hid)

theorem sq_subset_sendIds (t : HmrRdmaTransport) : (t.qp.sq.map fun wr => wr.wrId.id) ⊆ t.sendIds :=
  fun _ hid => List.mem_append_left _ (List.mem_append_right _ hid)

theorem freed_subset_sendIds (t : HmrRdmaTransport) : t.freedTasks ⊆ t.sendIds :=
  fun _ hid => List.mem_append_right _ hid

/-- No other tasks in use. -/
theorem TaskIds.of_subset (h : TaskIds t) (hsends : t'.sendIds ⊆ t.sendIds)
    (hrecvs : t'.recvIds ⊆ t.recvIds) (hnext : t.nextTask ≤ t'.nextTask) : TaskIds t' where
  sends id hid := (h.sends id (hsends hid)).trans_le hnext
  recvs id hid := (h.recvs id (hrecvs hid)).trans_le hnext
  apart := fun _ hrecv hsend => h.apart (hrecvs hrecv) (hsends hsend)

/-- A new task to be sent. -/
theorem TaskIds.send (h : TaskIds t) (hsends : t'.sendIds ⊆ t.nextTask :: t.sendIds)
    (hrecvs : t'.recvIds ⊆ t.recvIds) (hnext : t.nextTask < t'.nextTask) : TaskIds t' where
  sends id hid := by
    rcases List.mem_cons.mp (hsends hid) with rfl | hold
    · exact hnext
    · exact (h.sends id hold).trans hnext
  recvs id hid := (h.recvs id (hrecvs hid)).trans hnext
  apart id hrecv hsend := by
    rcases List.mem_cons.mp (hsends hsend) with rfl | hold
    · exact lt_irrefl _ (h.recvs _ (hrecvs hrecv))
    · exact h.apart (hrecvs hrecv) hold

/-- An emission keeps the tasks apart. -/
theorem TaskIds.emit (h : TaskIds t) (hemits : Emits t t') (hfreed : t'.freedTasks = t.freedTasks)
    (hrq : t'.qp.rq = t.qp.rq) : TaskIds t' := by
  have hrecvs : t'.recvIds ⊆ t.recvIds := by
    rw [HmrRdmaTransport.recvIds, hrq]
    exact List.Subset.refl _
  have hlists := list_subset_sendIds t
  have hsqs := sq_subset_sendIds t
  have hfrees : t'.freedTasks ⊆ t.sendIds := hfreed ▸ freed_subset_sendIds t
  have hnew : t.sendIds ⊆ t.nextTask :: t.sendIds := List.subset_cons_self _ _
  cases hemits with
  | nothing hlist _ hout =>
    exact h.of_subset
      (sendIds_subset (hlist ▸ hlists) (List.Subset.trans (List.map_subset _ hout.sq) hsqs) hfrees)
      hrecvs hout.nextTask
  | queued task hid hlist _ hsq hnext =>
    refine h.send (sendIds_subset ?_ ?_ (List.Subset.trans hfrees hnew)) hrecvs hnext
    · rw [hlist, List.map_append, List.map_singleton, hid]
      exact List.append_subset.mpr ⟨List.Subset.trans hlists hnew, by simp⟩
    · exact List.Subset.trans (List.Subset.trans (List.map_subset _ hsq) hsqs) hnew
  | posted wr hid _ hlist _ hsq hnext =>
    refine h.send (sendIds_subset (hlist ▸ List.Subset.trans hlists hnew) ?_
      (List.Subset.trans hfrees hnew)) hrecvs hnext
    refine List.Subset.trans (List.map_subset _ hsq) ?_
    rw [List.map_append, List.map_singleton, hid]
    exact List.append_subset.mpr ⟨List.Subset.trans hsqs hnew, by simp⟩

/-- So does posting a receive. -/
theorem TaskIds.postRecv {size : ℤ} (h : TaskIds t) (hpost : PostRecvResult o t size t') :
    TaskIds t' := by
  cases hpost with
  | noMemory => exact h
  | dropped => exact h.of_subset (List.Subset.refl _) (List.Subset.refl _) (Nat.le_succ _)
  | posted pool =>
    have hrecv {id : ℕ} (hid : id ∈ (t.recvPosted pool size).recvIds) :
        id ∈ t.recvIds ∨ id = t.nextTask := by
      simpa [HmrRdmaTransport.recvIds, HmrRdmaTransport.recvPosted, HmrRdmaTransport.ibvPostRecv,
        recvTask] using hid
    refine ⟨fun id hid => Nat.lt_succ_of_lt (h.sends id hid), fun id hid => ?_, fun id hid hsend => ?_⟩
    · rcases hrecv hid with hold | rfl
      · exact Nat.lt_succ_of_lt (h.recvs id hold)
      · exact Nat.lt_succ_self _
    · rcases hrecv hid with hold | rfl
      · exact h.apart hold hsend
      · exact lt_irrefl _ (h.sends _ hsend)

/-- And posting them up front. -/
theorem TaskIds.postRecvs {o : ℕ → Outcomes} {n : ℕ} (h : TaskIds t) (hposts : postRecvs o n t = .ok t') :
    TaskIds t' := by
  induction n generalizing t' with
  | zero =>
    obtain rfl := Except.ok.inj hposts
    exact h
  | succ n ih =>
    obtain ⟨u, hbefore, hlast⟩ := bind_eq_ok hposts
    exact (ih hbefore).postRecv (hmrPostRecv_cases hlast)

/-- A new queue pair has nothing outstanding. -/
theorem TaskIds.qpCreated (h : TaskIds t) : TaskIds t.qpCreated := by
  refine h.of_subset (sendIds_subset (list_subset_sendIds t) (List.nil_subset _)
    (freed_subset_sendIds t)) (List.nil_subset _) le_rfl

/-- A tick posts the tasks of the list, or some of them. -/
theorem TaskIds.tick {a : Option ℕ} (h : TaskIds t) (htick : TickResult t a t') : TaskIds t' := by
  have hchain : ((sendChain t.peerInfo t.sendTaskList).map fun wr => wr.wrId.id) =
      t.sendTaskList.map HmrTask.id := by
    rw [← sendChain_wrId t.peerInfo t.sendTaskList, List.map_map, sendChain_wrId]
    rfl
  have hlists := hchain ▸ list_subset_sendIds t
  cases htick with
  | idle => exact h
  | flushed =>
    refine h.of_subset (sendIds_subset (List.nil_subset _) ?_ (freed_subset_sendIds t))
      (List.Subset.refl _) le_rfl
    simp only [HmrRdmaTransport.flushed, HmrRdmaTransport.ibvPostSend, List.map_append]
    exact List.append_subset.mpr ⟨sq_subset_sendIds t, hlists⟩
  | failed k =>
    refine h.of_subset (sendIds_subset (list_subset_sendIds t) ?_ (freed_subset_sendIds t))
      (List.Subset.refl _) le_rfl
    simp only [HmrRdmaTransport.flushFailed, HmrRdmaTransport.ibvPostSend, List.map_append]
    exact List.append_subset.mpr ⟨sq_subset_sendIds t,
      List.Subset.trans (List.map_subset _ (List.take_subset _ _)) hlists⟩

/-- A completed send frees its task unless it is a READ, and allocates none. -/
theorem sendCompleted_tasks (t : HmrRdmaTransport) (task : HmrTask) (opcode : IbvWrOpcode) :
    (t.sendCompleted task opcode.wcOpcode).freedTasks =
        t.freedTasks ++ (if opcode = .rdmaRead then [] else [task.id]) ∧
      (t.sendCompleted task opcode.wcOpcode).nextTask = t.nextTask := by
  have hdone : (t.sendDone task).freedTasks = t.freedTasks ∧
      (t.sendDone task).nextTask = t.nextTask := by
    unfold HmrRdmaTransport.sendDone
    split_ifs <;> exact ⟨rfl, rfl⟩
  cases opcode with
  | send => exact ⟨congrArg (· ++ [task.id]) hdone.1, hdone.2⟩
  | rdmaWrite => exact ⟨rfl, rfl⟩
  | rdmaRead => exact ⟨(List.append_nil _).symm, rfl⟩

/-- A completed send keeps the tasks apart. -/
theorem TaskIds.sendComplete {i : ℕ} {status : IbvWcStatus} (h : TaskIds t)
    (hstep : dataStep t (.sendComplete i status o) = some t') : TaskIds t' := by
  obtain ⟨-, hlist, -, hqp⟩ := dataStep_sendComplete_frame hstep
  obtain ⟨wr, hwr, rfl⟩ := dataStep_sendComplete hstep
  have hsq : ((t.pollSend i).qp.sq.map fun wr => wr.wrId.id) ⊆ t.sendIds :=
    List.Subset.trans (List.map_subset _ List.eraseIdx_subset) (sq_subset_sendIds t)
  have hwrId : wr.wrId.id ∈ t.sendIds :=
    sq_subset_sendIds t (List.mem_map_of_mem (List.mem_of_getElem? hwr))
  by_cases hstatus : status = .success
  · rw [if_pos hstatus] at hlist hqp ⊢
    obtain ⟨hfreed, hnext⟩ := sendCompleted_tasks (t.pollSend i) wr.wrId wr.opcode
    refine h.of_subset (sendIds_subset ?_ (by rw [hqp]; exact hsq) ?_) ?_ hnext.ge
    · rw [hlist]
      exact list_subset_sendIds t
    · rw [hfreed]
      refine List.append_subset.mpr ⟨freed_subset_sendIds t, ?_⟩
      split
      · exact List.nil_subset _
      · simpa using hwrId
    · rw [HmrRdmaTransport.recvIds, hqp]
      exact List.Subset.refl _
  · rw [if_neg hstatus]
    exact h.of_subset (sendIds_subset (list_subset_sendIds t) hsq (freed_subset_sendIds t))
      (List.Subset.refl _) le_rfl

/-- Every event keeps the tasks of the receives apart from the others. -/
theorem TaskIds.step {e : LifecycleEvent} (h : TaskIds t) (hstep : lifecycleStep t e = some t') :
    TaskIds t' := by
  cases e with
  | connect ok | listen ok =>
    obtain rfl := Option.some.inj hstep
    cases ok <;> exact ⟨h.sends, h.recvs, h.apart⟩
  | addrResolved deviceFound m =>
    obtain rfl := Option.some.inj hstep
    cases deviceFound <;> exact ⟨h.sends, h.recvs, h.apart⟩
  | routeResolved qpOk connectOk o =>
    rcases onCmRouteResolved_cases (ok_of_toOption hstep) with
      ⟨-, rfl⟩ | ⟨-, -, rfl⟩ | ⟨-, -, hposts⟩
    · exact h
    · exact ⟨h.qpCreated.sends, h.qpCreated.recvs, h.qpCreated.apart⟩
    · exact h.qpCreated.postRecvs hposts
  | connectRequest deviceFound qpOk =>
    obtain rfl := Option.some.inj hstep
    unfold onCmConnectRequest
    split
    · exact h.qpCreated
    · exact h
  | acceptConnecting | acceptMempool | connectError =>
    obtain rfl := Option.some.inj hstep
    exact ⟨h.sends, h.recvs, h.apart⟩
  | acceptPosts o => exact h.postRecvs (ok_of_toOption hstep)
  | established o =>
    rcases onCmEstablished_cases (ok_of_toOption hstep) with ⟨-, rfl⟩ | ⟨-, pool, r, -, hsend⟩
    · exact ⟨h.sends, h.recvs, h.apart⟩
    · have hconnected : TaskIds { t with transState := .connected } := ⟨h.sends, h.recvs, h.apart⟩
      exact hconnected.emit hsend.emits hsend.freedTasks hsend.rq
  | disconnected =>
    obtain rfl := onCmDisconnected_eq (ok_of_toOption hstep)
    exact ⟨h.sends, h.recvs, h.apart⟩
  | data e =>
    cases e with
    | send msg o =>
      obtain ⟨r, hsend⟩ := dataStep_send hstep
      exact h.emit hsend.emits hsend.freedTasks hsend.rq
    | tick a => exact h.tick (dataStep_tick hstep)
    | sendComplete i status o => exact h.sendComplete hstep
    | recvComplete frame status o =>
      have hpolled : TaskIds t.pollRecv :=
        h.of_subset (List.Subset.refl _) (List.map_subset _ (List.tail_subset _)) le_rfl
      cases dataStep_recvComplete hstep with
      | flushed => exact hpolled
      | received wr pool u _ _ _ hbody hrepost =>
        have hwritten : TaskIds (t.pollRecv.hcaWrite wr.sgList.addr frame) :=
          ⟨hpolled.sends, hpolled.recvs, hpolled.apart⟩
        exact (hwritten.emit hbody.emits hbody.freedTasks hbody.rq).postRecv hrepost

/-- An event other than a tick or a send completion emits one message or none. -/
theorem lifecycleStep_emits {e : LifecycleEvent} (htick : ∀ a, e ≠ .data (.tick a))
    (hsend : ∀ i status o, e ≠ .data (.sendComplete i status o)) (hstep : lifecycleStep t e = some t') :
    Emits t t' ∧ t'.freedTasks = t.freedTasks := by
  by_cases hquiet : e.Quiet
  · obtain ⟨hside, hout⟩ := lifecycleStep_quiet hquiet hstep
    simp only [HmrRdmaTransport.sendSide, Prod.mk.injEq] at hside
    exact ⟨.nothing hside.1 hside.2.1 hout, hside.2.2.1⟩
  cases e with
  | established o =>
    rcases onCmEstablished_cases (ok_of_toOption hstep) with ⟨-, rfl⟩ | ⟨-, pool, r, -, hsend⟩
    · exact ⟨.nothing rfl rfl ⟨fun _ hwr => hwr, le_rfl⟩, rfl⟩
    · exact ⟨hsend.emits.of_same rfl rfl rfl rfl, hsend.freedTasks⟩
  | data e =>
    cases e with
    | send msg o =>
      obtain ⟨r, hsend⟩ := dataStep_send hstep
      exact ⟨hsend.emits, hsend.freedTasks⟩
    | tick a => exact absurd rfl (htick a)
    | sendComplete i status o => exact absurd rfl (hsend i status o)
    | recvComplete frame status o =>
      cases dataStep_recvComplete hstep with
      | flushed => exact ⟨.nothing rfl rfl ⟨fun _ hwr => hwr, le_rfl⟩, rfl⟩
      | received wr pool v _ _ _ hbody hrepost =>
        obtain ⟨hlist, -, -, hlog⟩ := hrepost.sends
        have hside := hrepost.sendSide
        simp only [HmrRdmaTransport.sendSide, Prod.mk.injEq] at hside
        exact ⟨(hbody.emits.of_same (t := t) rfl rfl rfl rfl).trans_same hlist hlog
          hrepost.sameOutstanding, hside.2.2.1.trans hbody.freedTasks⟩
  | _ => exact absurd trivial hquiet

end Ids

end HmrRpc
