import HmrRpc.TaskList
import HmrRpc.TaskOwnership

/-!
# No task is followed once it is freed

The tasks of a transport are in one place each, as long as no failing post hands on a task that
stays on the list as well: what an event creates is new, and what it moves it takes away. Then a
completed task is neither freed already nor listed, so the list in memory holds, and no handler
follows a pointer to a freed task.
-/

namespace HmrRpc

open Common

/-- A post that fails has accepted nothing. -/
def FailsWhole (t : HmrRdmaTransport) : LifecycleEvent → Prop
  | .data (.tick (some k)) => t.sendTaskList = [] ∨ k = 0
  | _ => True

instance (t : HmrRdmaTransport) : (e : LifecycleEvent) → Decidable (FailsWhole t e)
  | .data (.tick (some k)) =>
    decidable_of_iff (t.sendTaskList.isEmpty ∨ k = 0) (by rw [List.isEmpty_iff]; rfl)
  | .data (.tick none) | .data (.send ..) | .data (.sendComplete ..) | .data (.recvComplete ..)
  | .connect _ | .listen _ | .addrResolved .. | .routeResolved .. | .connectRequest ..
  | .acceptConnecting | .acceptMempool _ | .acceptPosts _ | .established _ | .disconnected
  | .connectError => isTrue trivial

/-- Every task accounted for has been created, and is so in one place. -/
def HmrRdmaTransport.TasksOnce (t : HmrRdmaTransport) : Prop :=
  t.ledger.account ≤ Multiset.range t.ledger.next

section Step

variable {t t' : HmrRdmaTransport} {e : LifecycleEvent}

/-- A new queue pair has lost what was outstanding. -/
theorem qpCreated_loses (t : HmrRdmaTransport) : ∃ lost, t.ledger.Loses t.qpCreated.ledger lost := by
  refine ⟨(t.qp.sq.map fun wr => wr.wrId.id : Multiset ℕ) +
    (t.qp.rq.map fun wr => wr.wrId.id : Multiset ℕ), ?_⟩
  have hcreated : t.qpCreated.ledger.account =
      (t.sendTaskList.map HmrTask.id : Multiset ℕ) + (t.freedTasks : Multiset ℕ) := by
    rw [ledger_account]
    simp [HmrRdmaTransport.qpCreated]
  rw [Ledger.Loses, ledger_account t, hcreated]
  change _ + Multiset.range t.nextTask = _ + Multiset.range t.nextTask
  abel

/-- An event that meets the condition only loses tasks. -/
theorem lifecycleStep_loses (hwhole : FailsWhole t e) (hstep : lifecycleStep t e = some t') :
    ∃ lost, t.ledger.Loses t'.ledger lost := by
  have hsame {u : HmrRdmaTransport} (haccount : u.ledger = t.ledger) :
      ∃ lost, t.ledger.Loses u.ledger lost :=
    ⟨0, .same (congrArg Ledger.account haccount) (congrArg Ledger.next haccount)⟩
  have hposts {o : ℕ → Outcomes} {n : ℕ} {u v : HmrRdmaTransport} (hposts : postRecvs o n u = .ok v) :
      ∃ lost, u.ledger.Loses v.ledger lost := by
    obtain ⟨lost, hloses, -⟩ := postRecvs_loses hposts
    exact ⟨lost, hloses⟩
  have hsends {o : Outcomes} {u v : HmrRdmaTransport} {msg : HmrMsg} {r : ℤ}
      (hsend : SendResult o u msg r v) : ∃ lost, u.ledger.Loses v.ledger lost := by
    obtain ⟨lost, hloses, -⟩ := hsend.loses
    exact ⟨lost, hloses⟩
  cases e with
  | connect ok | listen ok =>
    obtain rfl := Option.some.inj hstep
    cases ok <;> exact hsame rfl
  | addrResolved deviceFound m =>
    obtain rfl := Option.some.inj hstep
    cases deviceFound <;> exact hsame rfl
  | routeResolved qpOk connectOk o =>
    obtain ⟨lost, hloses⟩ := qpCreated_loses t
    rcases onCmRouteResolved_cases (ok_of_toOption hstep) with
      ⟨-, rfl⟩ | ⟨-, -, rfl⟩ | ⟨-, -, hall⟩
    · exact hsame rfl
    · exact ⟨lost, hloses⟩
    · obtain ⟨lost', hloses'⟩ := hposts hall
      exact ⟨lost + lost', hloses.trans hloses'⟩
  | connectRequest deviceFound qpOk =>
    obtain rfl := Option.some.inj hstep
    unfold onCmConnectRequest
    split
    · exact qpCreated_loses t
    · exact hsame rfl
  | acceptConnecting | acceptMempool | connectError =>
    obtain rfl := Option.some.inj hstep
    exact hsame rfl
  | acceptPosts o => exact hposts (ok_of_toOption hstep)
  | established o =>
    rcases onCmEstablished_cases (ok_of_toOption hstep) with ⟨-, rfl⟩ | ⟨-, pool, r, -, hsend⟩
    · exact hsame rfl
    · exact hsends (u := { t with transState := .connected }) hsend
  | disconnected =>
    obtain rfl := onCmDisconnected_eq (ok_of_toOption hstep)
    exact hsame rfl
  | data e =>
    cases e with
    | send msg o =>
      obtain ⟨r, hsend⟩ := dataStep_send hstep
      exact hsends hsend
    | tick a =>
      have htick := dataStep_tick hstep
      cases a with
      | none => exact ⟨0, htick.loses⟩
      | some k =>
        cases htick with
        | idle => exact hsame rfl
        | failed _ hne =>
          obtain rfl := hwhole.resolve_left hne
          refine hsame ?_
          simp [HmrRdmaTransport.ledger, HmrRdmaTransport.pendingTasks, HmrRdmaTransport.flushFailed,
            HmrRdmaTransport.ibvPostSend]
    | sendComplete i status o =>
      obtain ⟨lost, hloses, -⟩ := sendComplete_loses hstep
      exact ⟨lost, hloses⟩
    | recvComplete frame status o =>
      obtain ⟨lost, hloses, -⟩ := recvComplete_loses hstep
      exact ⟨lost, hloses⟩

/-- A task in one place is not freed while its request is outstanding, nor queued. -/
theorem freesUnlisted_of_once (h : t.TasksOnce) (e : LifecycleEvent) : FreesUnlisted t e := by
  by_cases hsend : ∃ i o, e = .data (.sendComplete i .success o)
  · obtain ⟨i, o, rfl⟩ := hsend
    intro wr hwr
    have hmem : wr.wrId.id ∈ t.qp.sq.map fun wr => wr.wrId.id :=
      List.mem_map_of_mem (List.mem_of_getElem? hwr)
    have hnodup : t.ledger.account.Nodup := Multiset.nodup_of_le h (Multiset.nodup_range _)
    simp only [ledger_account, Multiset.nodup_add] at hnodup
    obtain ⟨⟨⟨-, -, hlist⟩, -, -⟩, -, hfreed⟩ := hnodup
    have hpending : wr.wrId.id ∈ (t.sendTaskList.map HmrTask.id : Multiset ℕ) +
        (t.qp.sq.map fun wr => wr.wrId.id : Multiset ℕ) +
        (t.qp.rq.map fun wr => wr.wrId.id : Multiset ℕ) := by
      simp only [Multiset.mem_add, Multiset.mem_coe, hmem, or_true, true_or]
    exact ⟨fun hid => Multiset.disjoint_left.mp hfreed hpending hid,
      fun _ hid => Multiset.disjoint_left.mp hlist hid hmem⟩
  · exact freesUnlisted_of_ne fun i o heq => hsend ⟨i, o, heq⟩

end Step

/-- Through every life of a transport in which a failing post accepts nothing, the list in memory
follows the list of tasks. -/
theorem taskList_tracks {events : List LifecycleEvent}
    (h : Guarded lifecycleStep FailsWhole hmrRdmaCreate events) :
    Tracks linkedStep lifecycleStep Holds (some linkedCreate) hmrRdmaCreate events := by
  have hstart : hmrRdmaCreate.TasksOnce := by
    simp [HmrRdmaTransport.TasksOnce, HmrRdmaTransport.ledger, HmrRdmaTransport.pendingTasks,
      hmrRdmaCreate]
  rw [linkedStep_tracks taskIds_create holds_create]
  refine h.of_invariant (I := HmrRdmaTransport.TasksOnce) (fun t e t' honce hwhole hstep => ?_) hstart
  obtain ⟨lost, hloses⟩ := lifecycleStep_loses hwhole hstep
  exact ⟨hloses.within honce, freesUnlisted_of_once honce e⟩

/-- A client with two messages to send. -/
def sampleSends : List LifecycleEvent :=
  [.connect true, .addrResolved true sampleMempoolOutcomes, .routeResolved true true fun _ => .ok,
    .established .ok, .data (.send (sampleMsg .normal 8) .ok), .data (.send (sampleMsg .normal 8) .ok)]

/-- The first post fails and has accepted nothing. -/
theorem taskList_tracks_sample :
    Tracks linkedStep lifecycleStep Holds (some linkedCreate) hmrRdmaCreate
      (sampleSends ++ [.data (.tick (some 0)), .data (.tick none),
        .data (.sendComplete 1 .success .ok), .data (.tick none)]) :=
  taskList_tracks (by decide)

/-- If it has accepted one message, the task is freed on the list, and the next tick follows it. -/
example : (runEvents linkedStep (some linkedCreate) (sampleSends ++ [.data (.tick (some 1)),
    .data (.sendComplete 1 .success .ok), .data (.tick none)])).map Option.isSome = some false := by
  decide +kernel

end HmrRpc
