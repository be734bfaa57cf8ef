import HmrRpc.Common.Ledger
import HmrRpc.TransportRun

/-!
# Who frees a task

A task belongs to its creator, then to `send_task_list`, then to the HCA, and is freed by
the handler of its completion. The handlers free on a successful SEND or WRITE only, and
a task whose direct post fails belongs to nobody, so the ledger of all tasks created
stays balanced exactly in the runs without such events.
-/

namespace HmrRpc

open Common

/-- The tasks queued, and those posted and not yet completed. -/
def HmrRdmaTransport.pendingTasks (t : HmrRdmaTransport) : List HmrTask :=
  t.sendTaskList ++ t.qp.sq.map IbvSendWr.wrId ++ t.qp.rq.map IbvRecvWr.wrId

/-- The ledger of the pending and the freed tasks. -/
def HmrRdmaTransport.ledger (t : HmrRdmaTransport) : Ledger where
  account := (t.pendingTasks.map HmrTask.id : Multiset ℕ) + (t.freedTasks : Multiset ℕ)
  next := t.nextTask

/-- Ticks post their whole chain. -/
def WholeChain : RunEvent → Prop
  | .data (.tick accepted) => accepted = none
  | _ => True

/-- The event gives every task it creates or completes to its next owner. -/
def PassesTaskOn (t : HmrRdmaTransport) : RunEvent → Prop
  | .prePost o => ∀ i < prePostCount t.defaultRecvSize, (o i).recvCalloc → (o i).recvPost
  | .data (.send msg o) => hmrMsgReady t msg → msg.msgType = .mr → o.sendPost
  | .data (.tick _) => True
  | .data (.sendComplete i status _) =>
    ∀ wr, t.qp.sq[i]? = some wr → status = .success ∧ wr.opcode ≠ .rdmaRead
  -- the task of a receive is never freed
  | .data (.recvComplete _ _ _) => False

section Moves

variable {o : Outcomes} {t t' : HmrRdmaTransport}

/-- The account by the place of each task. -/
theorem ledger_account (t : HmrRdmaTransport) :
    t.ledger.account = (t.sendTaskList.map HmrTask.id : Multiset ℕ) +
      (t.qp.sq.map fun wr => wr.wrId.id : Multiset ℕ) +
      (t.qp.rq.map fun wr => wr.wrId.id : Multiset ℕ) + (t.freedTasks : Multiset ℕ) := by
  simp [HmrRdmaTransport.ledger, HmrRdmaTransport.pendingTasks, Function.comp_def,
    ← Multiset.coe_add, add_assoc]

/-- A send loses its task when the direct post fails. -/
theorem SendResult.loses {msg : HmrMsg} {r : ℤ} (h : SendResult o t msg r t') :
    ∃ lost, t.ledger.Loses t'.ledger lost ∧
      (lost = 0 ↔ (hmrMsgReady t msg → msg.msgType = .mr → o.sendPost)) := by
  cases h with
  | refused hcheck =>
    exact ⟨0, .same rfl rfl, iff_of_true rfl fun hready => absurd hready (not_ready_of_refused hcheck)⟩
  | submitted _ hready hsubmit =>
    cases hsubmit with
    | queued pool _ htype =>
      refine ⟨0, .create ?_ rfl, iff_of_true rfl fun _ hmr => absurd hmr htype⟩
      simp only [ledger_account, HmrRdmaTransport.queued, HmrRdmaTransport.created, List.map_append,
        List.map_cons, List.map_nil, ← Multiset.coe_add, Multiset.coe_singleton]
      change _ + {t.nextTask} + _ + _ + _ = _ + {t.nextTask}
      abel
    | posted pool _ _ hpost =>
      refine ⟨0, .create ?_ rfl, iff_of_true rfl fun _ _ => hpost⟩
      simp only [ledger_account, HmrRdmaTransport.postedDirect, HmrRdmaTransport.ibvPostSend,
        HmrRdmaTransport.created, List.map_append, List.map_cons, List.map_nil, ← Multiset.coe_add,
        Multiset.coe_singleton]
      change _ + (_ + {t.nextTask}) + _ + _ = _ + {t.nextTask}
      abel
    | dropped pool _ htype hpost =>
      refine ⟨{t.nextTask}, .createLost rfl rfl, iff_of_false (Multiset.singleton_ne_zero _) ?_⟩
      intro h
      simpa [hpost] using h hready htype

/-- Posting a receive loses its task when the post fails. -/
theorem PostRecvResult.loses {size : ℤ} (h : PostRecvResult o t size t') :
    ∃ lost, t.ledger.Loses t'.ledger lost ∧ (lost = 0 ↔ (o.recvCalloc → o.recvPost)) := by
  cases h with
  | noMemory hcalloc =>
    exact ⟨0, .same rfl rfl, iff_of_true rfl fun h => by simp [hcalloc] at h⟩
  | posted pool _ _ hpost =>
    refine ⟨0, .create ?_ rfl, iff_of_true rfl fun _ => hpost⟩
    simp only [ledger_account, HmrRdmaTransport.recvPosted, HmrRdmaTransport.ibvPostRecv,
      List.map_append, List.map_cons, List.map_nil, ← Multiset.coe_add, Multiset.coe_singleton]
    change _ + (_ + {t.nextTask}) + _ = _ + {t.nextTask}
    abel
  | dropped pool _ hcalloc hpost =>
    refine ⟨{t.nextTask}, .createLost rfl rfl, iff_of_false (Multiset.singleton_ne_zero _) ?_⟩
    intro h
    simpa [hpost] using h hcalloc

/-- So do the receives posted up front. -/
theorem postRecvs_loses {o : ℕ → Outcomes} {n : ℕ} (h : postRecvs o n t = .ok t') :
    ∃ lost, t.ledger.Loses t'.ledger lost ∧
      (lost = 0 ↔ ∀ i < n, (o i).recvCalloc → (o i).recvPost) := by
  induction n generalizing t' with
  | zero =>
    obtain rfl := Except.ok.inj h
    exact ⟨0, .same rfl rfl, iff_of_true rfl fun i hi => absurd hi (Nat.not_lt_zero i)⟩
  | succ n ih =>
    obtain ⟨u, hbefore, hlast⟩ := bind_eq_ok h
    obtain ⟨lost, hloses, hzero⟩ := ih hbefore
    obtain ⟨lost', hloses', hzero'⟩ := (hmrPostRecv_cases hlast).loses
    refine ⟨lost + lost', hloses.trans hloses', ?_⟩
    rw [add_eq_zero, hzero, hzero', Nat.forall_lt_succ_right]

/-- A tick that posts its whole chain loses nothing. -/
theorem TickResult.loses (h : TickResult t none t') : t.ledger.Loses t'.ledger 0 := by
  cases h with
  | idle => exact .same rfl rfl
  | flushed =>
    refine .same ?_ rfl
    have hchain : (sendChain t.peerInfo t.sendTaskList).map (fun wr => wr.wrId.id) =
        t.sendTaskList.map HmrTask.id := by
      rw [← sendChain_wrId t.peerInfo t.sendTaskList, List.map_map, sendChain_wrId]
      rfl
    simp only [ledger_account, HmrRdmaTransport.flushed, HmrRdmaTransport.ibvPostSend,
      List.map_append, hchain, List.map_nil, ← Multiset.coe_add, Multiset.coe_nil]
    abel

@[simp] theorem respond_ledger (t : HmrRdmaTransport) (taskType : HmrTaskType) (msg : HmrMsg) :
    (t.respond taskType msg).ledger = t.ledger :=
  respond_preserves t taskType msg fun _ _ => rfl

/-- Handling a frame loses at most the task of a failed answer. -/
theorem RecvBody.loses {bytes : ℕ → UInt8} {taskType : HmrTaskType}
    (h : RecvBody o t bytes taskType t') : ∃ lost, t.ledger.Loses t'.ledger lost := by
  cases h with
  | firstMr pool r u _ _ hsend =>
    obtain ⟨lost, hloses, -⟩ := hsend.loses
    exact ⟨lost, hloses⟩
  | laterMr => exact ⟨0, .same rfl rfl⟩
  | finish r _ hsend =>
    obtain ⟨lost, hloses, -⟩ := hsend.loses
    rw [respond_ledger] at hloses
    exact ⟨lost, hloses⟩
  | done =>
    refine ⟨0, .same ?_ ?_⟩
    · exact congrArg Ledger.account (respond_ledger t _ _)
    · exact congrArg Ledger.next (respond_ledger t _ _)
  | plain =>
    rw [respond_ledger]
    exact ⟨0, .same rfl rfl⟩

/-- A polled send leaves the account. -/
theorem pollSend_account {i : ℕ} {wr : IbvSendWr} (hwr : t.qp.sq[i]? = some wr) :
    t.ledger.account = (t.pollSend i).ledger.account + {wr.wrId.id} := by
  obtain ⟨hi, rfl⟩ := List.getElem?_eq_some_iff.mp hwr
  have hperm := (List.getElem_cons_eraseIdx_perm hi).map fun wr => wr.wrId.id
  have hsq := Multiset.coe_eq_coe.mpr hperm
  rw [List.map_cons, ← Multiset.cons_coe, ← Multiset.singleton_add] at hsq
  simp only [ledger_account, HmrRdmaTransport.pollSend, ← hsq]
  abel

/-- A completed send loses its task unless the handler frees it. -/
theorem sendComplete_loses {i : ℕ} {status : IbvWcStatus}
    (hstep : dataStep t (.sendComplete i status o) = some t') :
    ∃ lost, t.ledger.Loses t'.ledger lost ∧
      (lost = 0 ↔ ∀ wr, t.qp.sq[i]? = some wr → status = .success ∧ wr.opcode ≠ .rdmaRead) := by
  obtain ⟨wr, hwr, rfl⟩ := dataStep_sendComplete hstep
  have haccount := pollSend_account hwr
  have hfreed : ((t.pollSend i).freeTask wr.wrId).ledger.account = t.ledger.account := by
    rw [haccount]
    simp only [ledger_account, HmrRdmaTransport.freeTask, ← Multiset.coe_add,
      Multiset.coe_singleton]
    abel
  by_cases hsuccess : status = .success
  · rw [if_pos hsuccess]
    cases hopcode : wr.opcode with
    | rdmaRead =>
      refine ⟨{wr.wrId.id}, .drop haccount rfl, iff_of_false (Multiset.singleton_ne_zero _) ?_⟩
      exact fun h => (h wr hwr).2 hopcode
    | rdmaWrite =>
      refine ⟨0, .same hfreed rfl, iff_of_true rfl fun wr' hwr' => ⟨hsuccess, ?_⟩⟩
      obtain rfl := Option.some.inj (hwr.symm.trans hwr')
      simp [hopcode]
    | send =>
      have hdone (u : HmrRdmaTransport) (task : HmrTask) : ((u.sendDone task).freeTask task).ledger =
          (u.freeTask task).ledger := by
        unfold HmrRdmaTransport.sendDone
        split_ifs <;> rfl
      refine ⟨0, .same ?_ ?_, iff_of_true rfl fun wr' hwr' => ⟨hsuccess, ?_⟩⟩
      · exact (congrArg Ledger.account (hdone _ _)).trans hfreed
      · exact (congrArg Ledger.next (hdone (t.pollSend i) wr.wrId) :)
      · obtain rfl := Option.some.inj (hwr.symm.trans hwr')
        simp [hopcode]
  · rw [if_neg hsuccess]
    refine ⟨{wr.wrId.id}, .drop haccount rfl, iff_of_false (Multiset.singleton_ne_zero _) ?_⟩
    exact fun h => hsuccess (h wr hwr).1

/-- A completed receive loses its task. -/
theorem recvComplete_loses {frame : Frame} {status : IbvWcStatus}
    (hstep : dataStep t (.recvComplete frame status o) = some t') :
    ∃ lost, t.ledger.Loses t'.ledger lost ∧ lost ≠ 0 := by
  have hpoll {wr : IbvRecvWr} (hhead : t.qp.rq.head? = some wr) :
      t.ledger.Loses t.pollRecv.ledger {wr.wrId.id} := by
    obtain ⟨rest, hrq⟩ := List.head?_eq_some_iff.mp hhead
    refine .drop ?_ rfl
    simp only [ledger_account, HmrRdmaTransport.pollRecv, hrq, List.tail_cons, List.map_cons,
      ← Multiset.cons_coe, ← Multiset.singleton_add]
    abel
  cases dataStep_recvComplete hstep with
  | flushed wr _ hhead => exact ⟨_, hpoll hhead, Multiset.singleton_ne_zero _⟩
  | received wr pool u _ hhead _ hbody hrepost =>
    obtain ⟨lost, hloses⟩ := hbody.loses
    obtain ⟨lost', hloses', -⟩ := hrepost.loses
    refine ⟨_, ((hpoll hhead).trans hloses).trans hloses', ?_⟩
    simp

/-- An event on a balanced ledger leaves it balanced exactly if it passes every task on. -/
theorem balanced_step {e : RunEvent} (he : WholeChain e) (h : t.ledger.Balanced)
    (hstep : runStep t e = some t') : t'.ledger.Balanced ↔ PassesTaskOn t e := by
  suffices ∃ lost, t.ledger.Loses t'.ledger lost ∧ (lost = 0 ↔ PassesTaskOn t e) by
    obtain ⟨lost, hloses, hzero⟩ := this
    exact (hloses.balanced_iff h).trans hzero
  cases e with
  | prePost o => exact postRecvs_loses (ok_of_toOption hstep)
  | data e =>
    cases e with
    | send msg o =>
      obtain ⟨r, hsend⟩ := dataStep_send hstep
      exact hsend.loses
    | tick a =>
      obtain rfl : a = none := he
      exact ⟨0, (dataStep_tick hstep).loses, iff_of_true rfl trivial⟩
    | sendComplete i status o => exact sendComplete_loses hstep
    | recvComplete frame status o =>
      obtain ⟨lost, hloses, hne⟩ := recvComplete_loses hstep
      exact ⟨lost, hloses, iff_of_false hne fun h => h⟩

end Moves

/-- From a fresh transport, a run keeps every task pending or freed once if and only if each of
its events passes the tasks it handles on. -/
theorem tasks_balanced_iff {t : HmrRdmaTransport} {events : List RunEvent}
    (hpending : t.pendingTasks = []) (hfreed : t.freedTasks = []) (hnext : t.nextTask = 0)
    (hevents : ∀ e ∈ events, WholeChain e) :
    Always runStep (fun t => t.ledger.Balanced) t events ↔ Guarded runStep PassesTaskOn t events := by
  have hstart : t.ledger.Balanced := by
    simp [Ledger.Balanced, HmrRdmaTransport.ledger, hpending, hfreed, hnext]
  exact always_iff_guarded (fun _ h => h)
    (fun _ _ _ he h hpass hstep => (balanced_step he h hstep).mpr hpass)
    (fun _ _ _ he h hstep hafter => (balanced_step he h hstep).mp hafter) hevents hstart

/-- A message sent, flushed and completed. -/
theorem tasks_balanced_sample :
    Always runStep (fun t => t.ledger.Balanced) sampleTransport
        [.data (.send (sampleMsg .normal 8) .ok), .data (.tick none),
          .data (.sendComplete 0 .success .ok)] ↔
      Guarded runStep PassesTaskOn sampleTransport
        [.data (.send (sampleMsg .normal 8) .ok), .data (.tick none),
          .data (.sendComplete 0 .success .ok)] := by
  apply tasks_balanced_iff rfl rfl rfl
  simp only [List.mem_cons, List.not_mem_nil, or_false]
  rintro e (rfl | rfl | rfl)
  · trivial
  · rfl
  · trivial

/-- The task of a READ is never freed. -/
theorem readTask_leaks :
    ¬∀ (t : HmrRdmaTransport) (events : List RunEvent), t.pendingTasks = [] → t.freedTasks = [] →
      t.nextTask = 0 → (∀ e ∈ events, WholeChain e) →
      Always runStep (fun t => t.ledger.Balanced) t events := by
  intro h
  let events : List RunEvent :=
    [.data (.send (sampleMsg .read 8) .ok), .data (.tick none), .data (.sendComplete 0 .success .ok)]
  have hevents : ∀ e ∈ events, WholeChain e := by
    simp only [events, List.mem_cons, List.not_mem_nil, or_false]
    rintro e (rfl | rfl | rfl)
    · trivial
    · rfl
    · trivial
  have hrun : (runEvents runStep sampleTransport events).map
      (fun t => (t.pendingTasks.map HmrTask.id, t.freedTasks, t.nextTask)) = some ([], [], 1) := by
    decide
  obtain ⟨t, ht, hobs⟩ := Option.map_eq_some_iff.mp hrun
  simp only [Prod.mk.injEq] at hobs
  have hbalanced := (h sampleTransport events rfl rfl rfl hevents).of_run ht
  simp [Ledger.Balanced, HmrRdmaTransport.ledger, hobs] at hbalanced

end HmrRpc
