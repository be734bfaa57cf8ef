import HmrRpc.TransportRun

/-!
# The flush and concurrent sends

The application appends to `send_task_list` while the event thread runs
`hmr_send_task_handler`. Here the handler advances one access of the list at a time: the
emptiness test, each element of the first walk, the post, and each removal of the second
walk, which looks one element ahead. A run of the handler alone is a tick of the timer.
-/

namespace HmrRpc

open Common

/-- Where the event thread stands in `hmr_send_task_handler`. -/
inductive FlushPhase
  /-- Outside the handler. -/
  | idle
  /-- In the first walk, with the requests filled so far. -/
  | walk (wrs : List IbvSendWr)
  /-- Behind the first walk. -/
  | built (wrs : List IbvSendWr)
  /-- Behind the post. -/
  | posted
  /-- Before a removal; `last` if the element looked up ahead was the list head. -/
  | unlink (last : Bool)

/-- A transport, its event thread, and the non-MR messages `hmr_rdma_send` has accepted with
the task each was given. -/
structure FlushState where
  trans : HmrRdmaTransport
  phase : FlushPhase
  accepted : List (ℕ × HmrMsg)

/-- A call of `hmr_rdma_send`, or a step of the event thread. -/
inductive FlushEvent
  | send (msg : HmrMsg) (o : Outcomes)
  | handler

/-- The next access of the list by the event thread; every post accepts its whole chain. -/
def handlerStep (t : HmrRdmaTransport) : FlushPhase → Option (HmrRdmaTransport × FlushPhase)
  | .idle => some (t, if t.sendTaskList.isEmpty then .idle else .walk [])
  | .walk wrs =>
    match t.sendTaskList[wrs.length]? with
    | none => some (t, .built wrs)
    | some task =>
      -- the arrays are full
      if maxSendWr + 1 ≤ wrs.length then none
      else
        let filled := fillSendWr t.peerInfo wrs.length task
        some ({ t with peerInfo := filled.2 }, .walk (wrs ++ [filled.1]))
  | .built wrs => some (t.ibvPostSend (postedChain wrs), .posted)
  | .posted =>
    some (t, if t.sendTaskList.isEmpty then .idle else .unlink t.sendTaskList.tail.isEmpty)
  | .unlink last =>
    let rest := t.sendTaskList.tail
    some ({ t with sendTaskList := rest }, if last then .idle else .unlink rest.tail.isEmpty)

/-- One step of either thread. -/
def flushStep (s : FlushState) : FlushEvent → Option FlushState
  | .send msg o =>
    match hmrRdmaSend o s.trans msg with
    | .error _ => none
    | .ok (r, t) =>
      some ⟨t, s.phase,
        if r = 0 ∧ msg.msgType ≠ .mr then s.accepted ++ [(s.trans.nextTask, msg)] else s.accepted⟩
  | .handler => (handlerStep s.trans s.phase).map fun (t, phase) => ⟨t, phase, s.accepted⟩

/-- The tasks of non-MR messages posted so far. -/
def FlushState.posted (s : FlushState) : List HmrTask :=
  (s.trans.qp.sendLog.map IbvSendWr.wrId).filter fun task => task.taskType ≠ .mr

/-- The tasks on the list that are still to be posted. -/
def FlushState.toPost (s : FlushState) : List HmrTask :=
  s.trans.sendTaskList.filter fun task => task.id ∉ s.posted.map HmrTask.id

section Alone

variable (t : HmrRdmaTransport) (accepted : List (ℕ × HmrMsg))

/-- The event thread alone, for `n` steps. -/
private abbrev alone (n : ℕ) (s : FlushState) : Option FlushState :=
  runEvents flushStep s (List.replicate n .handler)

private theorem alone_then {s u v : FlushState} {m n : ℕ} (hfirst : alone m s = some u)
    (hrest : alone n u = some v) : alone (m + n) s = some v := by
  rw [alone, List.replicate_add, runEvents_append]
  exact (congrArg (Option.bind · _) hfirst).trans hrest

/-- The rest of the first walk. -/
private theorem alone_walk (wrs : List IbvSendWr) (done rest : List HmrTask)
    (hlist : t.sendTaskList = done ++ rest) (hdone : wrs.length = done.length)
    (hfit : t.sendTaskList.length ≤ maxSendWr + 1) :
    alone (rest.length + 1) ⟨t, .walk wrs, accepted⟩ =
      some ⟨{ t with peerInfo := (fillSendWrs t.peerInfo wrs.length rest).2 },
        .built (wrs ++ (fillSendWrs t.peerInfo wrs.length rest).1), accepted⟩ := by
  induction rest generalizing t wrs done with
  | nil =>
    have hend : t.sendTaskList[wrs.length]? = none := by simp [hlist, hdone]
    simp [alone, List.replicate, runEvents, flushStep, handlerStep, hend, fillSendWrs]
  | cons task rest ih =>
    have htask : t.sendTaskList[wrs.length]? = some task := by simp [hlist, hdone]
    have hroom : ¬maxSendWr + 1 ≤ wrs.length := by
      rw [hlist, List.length_append, List.length_cons] at hfit
      omega
    have hstep : flushStep ⟨t, .walk wrs, accepted⟩ .handler =
        some ⟨{ t with peerInfo := (fillSendWr t.peerInfo wrs.length task).2 },
          .walk (wrs ++ [(fillSendWr t.peerInfo wrs.length task).1]), accepted⟩ := by
      simp [flushStep, handlerStep, htask, hroom]
    have hrest := ih { t with peerInfo := (fillSendWr t.peerInfo wrs.length task).2 }
      (wrs ++ [(fillSendWr t.peerInfo wrs.length task).1]) (done ++ [task])
      (by simp [hlist]) (by simp [hdone]) hfit
    rw [alone, List.length_cons, List.replicate_succ, runEvents, hstep, Option.bind_some]
    rw [alone] at hrest
    simp [hrest, fillSendWrs]

/-- The second walk empties the list. -/
private theorem alone_unlink (task : HmrTask) (rest : List HmrTask)
    (hlist : t.sendTaskList = task :: rest) :
    alone (rest.length + 1) ⟨t, .unlink rest.isEmpty, accepted⟩ =
      some ⟨{ t with sendTaskList := [] }, .idle, accepted⟩ := by
  induction rest generalizing t task with
  | nil => simp [alone, List.replicate, runEvents, flushStep, handlerStep, hlist]
  | cons next rest ih =>
    have hstep : flushStep ⟨t, .unlink false, accepted⟩ .handler =
        some ⟨{ t with sendTaskList := next :: rest }, .unlink rest.isEmpty, accepted⟩ := by
      simp [flushStep, handlerStep, hlist]
    rw [alone, List.length_cons, List.replicate_succ, runEvents, List.isEmpty_cons, hstep,
      Option.bind_some]
    exact ih { t with sendTaskList := next :: rest } next rfl

/-- Without interference the steps of the event thread add up to one tick of the timer. -/
theorem handler_alone {t' : HmrRdmaTransport} (h : hmrSendTaskHandler none t = .ok t') :
    ∃ n, runEvents flushStep ⟨t, .idle, accepted⟩ (List.replicate n .handler) =
      some ⟨t', .idle, accepted⟩ := by
  cases hmrSendTaskHandler_cases h with
  | idle _ hempty =>
    exact ⟨1, by simp [List.replicate, runEvents, flushStep, handlerStep, hempty]⟩
  | flushed hne hfit =>
    obtain ⟨task, rest, hlist⟩ := List.exists_cons_of_ne_nil hne
    have htest : alone 1 ⟨t, .idle, accepted⟩ = some ⟨t, .walk [], accepted⟩ := by
      simp [alone, runEvents, flushStep, handlerStep, hlist]
    have hwalk := alone_walk t accepted [] [] t.sendTaskList rfl rfl hfit
    let filled := { t with peerInfo := (fillSendWrs t.peerInfo 0 t.sendTaskList).2 }
    let chain := sendChain t.peerInfo t.sendTaskList
    have hpost : alone 2 ⟨filled, .built (fillSendWrs t.peerInfo 0 t.sendTaskList).1, accepted⟩ =
        some ⟨filled.ibvPostSend chain, .unlink rest.isEmpty, accepted⟩ := by
      simp [alone, List.replicate, runEvents, flushStep, handlerStep, filled, chain, sendChain,
        HmrRdmaTransport.ibvPostSend, hlist]
    have hunlink := alone_unlink (filled.ibvPostSend chain) accepted task rest hlist
    exact ⟨_, alone_then htest (alone_then hwalk (alone_then hpost hunlink))⟩

end Alone

/-- What identifies a task and its message. -/
def HmrTask.label (task : HmrTask) : ℕ × HmrTaskType × Frame := (task.id, task.taskType, task.frame)

/-- What identifies an accepted message and its task. -/
def acceptedLabel (entry : ℕ × HmrMsg) : ℕ × HmrTaskType × Frame :=
  (entry.1, .ofMsgType entry.2.msgType, entry.2.frame)

/-- The accepted messages are the tasks posted so far followed by those still to be posted. -/
def FlushConserves (s : FlushState) : Prop :=
  s.accepted.map acceptedLabel = (s.posted ++ s.toPost).map HmrTask.label

/-- Whether a task appended now is still met by the first walk or left by the second. -/
def FlushPhase.SeesAppend : FlushPhase → Prop
  | .idle | .walk _ | .unlink true => True
  | _ => False

/-- No message joins the list between the end of the first walk and the last look ahead of
the second. -/
def AppendsSeen (s : FlushState) : FlushEvent → Prop
  | .send msg _ => hmrMsgReady s.trans msg → msg.msgType ≠ .mr → s.phase.SeesAppend
  | .handler => True

/-- The list as `old` tasks, posted and waiting to be removed, before `new` ones. -/
structure FlushInv (s : FlushState) (old new : List HmrTask) : Prop where
  list : s.trans.sendTaskList = old ++ new
  accepted : s.accepted.map acceptedLabel = (s.posted ++ new).map HmrTask.label
  old_posted : ∀ task ∈ old, task ∈ s.posted
  new_unposted : ∀ task ∈ new, task.id ∉ s.posted.map HmrTask.id
  new_type : ∀ task ∈ new, task.taskType ≠ .mr
  fresh : ∀ task ∈ s.posted ++ new, task.id < s.trans.nextTask
  phase : match s.phase with
    | .idle => old = []
    | .walk wrs => old = [] ∧ new ≠ [] ∧ wrs.map IbvSendWr.wrId <+: new ∧
        ∀ j (hj : j < wrs.length), (wrs[j]).next = some (j + 1)
    | .built wrs => old = [] ∧ new ≠ [] ∧ wrs.map IbvSendWr.wrId = new ∧
        ∀ j (hj : j < wrs.length), (wrs[j]).next = some (j + 1)
    | .posted => new = [] ∧ old ≠ []
    | .unlink false => new = [] ∧ 2 ≤ old.length
    | .unlink true => old.length = 1

section Step

variable {s s' : FlushState} {old new : List HmrTask}

/-- The invariant gives conservation. -/
theorem FlushInv.conserves (h : FlushInv s old new) : FlushConserves s := by
  have hold : old.filter (fun task => task.id ∉ s.posted.map HmrTask.id) = [] := by
    simp only [List.filter_eq_nil_iff, decide_eq_true_eq, not_not]
    intro task htask
    exact List.mem_map_of_mem (h.old_posted task htask)
  have hnew : new.filter (fun task => task.id ∉ s.posted.map HmrTask.id) = new := by
    simp only [List.filter_eq_self, decide_eq_true_eq]
    exact h.new_unposted
  rw [FlushConserves, FlushState.toPost, h.list, List.filter_append, hold, hnew, List.nil_append,
    h.accepted]

/-- What neither moves the event thread nor touches the list or the posted tasks keeps the
invariant. -/
theorem FlushInv.of_same (h : FlushInv s old new) (hphase : s'.phase = s.phase)
    (hlist : s'.trans.sendTaskList = s.trans.sendTaskList) (hposted : s'.posted = s.posted)
    (haccepted : s'.accepted = s.accepted) (hnext : s.trans.nextTask ≤ s'.trans.nextTask) :
    FlushInv s' old new where
  list := hlist.trans h.list
  accepted := by rw [haccepted, hposted, h.accepted]
  old_posted := hposted ▸ h.old_posted
  new_unposted := hposted ▸ h.new_unposted
  new_type := h.new_type
  fresh task htask := by
    rw [hposted] at htask
    exact (h.fresh task htask).trans_le hnext
  phase := hphase ▸ h.phase

/-- A message that joins the list where it is seen keeps the invariant. -/
theorem FlushInv.append (h : FlushInv s old new) {msg : HmrMsg} (pool : HmrMempool)
    (htype : msg.msgType ≠ .mr) (hseen : s.phase.SeesAppend)
    (hs' : s' = ⟨s.trans.queued pool msg, s.phase, s.accepted ++ [(s.trans.nextTask, msg)]⟩) :
    FlushInv s' old (new ++ [acceptedTask pool msg s.trans.nextTask]) := by
  subst hs'
  have hposted : FlushState.posted ⟨s.trans.queued pool msg, s.phase,
      s.accepted ++ [(s.trans.nextTask, msg)]⟩ = s.posted := rfl
  have htask : (acceptedTask pool msg s.trans.nextTask).taskType ≠ .mr := by
    simpa [acceptedTask, HmrTaskType.ofMsgType_eq_mr] using htype
  refine ⟨?_, ?_, h.old_posted, ?_, ?_, ?_, ?_⟩
  · simp [HmrRdmaTransport.queued, h.list]
  · rw [hposted, ← List.append_assoc, List.map_append, List.map_append, h.accepted]
    rfl
  · rw [hposted]
    intro task hmem
    rcases List.mem_append.mp hmem with hold | hnew
    · exact h.new_unposted task hold
    · obtain rfl := List.mem_singleton.mp hnew
      -- ids of posted tasks are below the new one's
      intro hmem
      obtain ⟨other, hother, hid⟩ := List.mem_map.mp hmem
      have hlt := h.fresh other (List.mem_append_left _ hother)
      rw [hid] at hlt
      exact lt_irrefl _ hlt
  · intro task hmem
    rcases List.mem_append.mp hmem with hold | hnew
    · exact h.new_type task hold
    · obtain rfl := List.mem_singleton.mp hnew
      exact htask
  · rw [hposted, ← List.append_assoc]
    intro task hmem
    rcases List.mem_append.mp hmem with hold | hnew
    · exact Nat.lt_succ_of_lt (h.fresh task hold)
    · obtain rfl := List.mem_singleton.mp hnew
      exact Nat.lt_succ_self _
  · have hphase := h.phase
    revert hphase hseen
    cases s.phase with
    | idle => exact fun _ hold => hold
    | walk wrs =>
      rintro - ⟨hold, -, hwalked, hnext⟩
      exact ⟨hold, by simp, hwalked.trans (List.prefix_append _ _), hnext⟩
    | built | posted => exact fun hseen => hseen.elim
    | unlink last =>
      cases last with
      | false => exact fun hseen => hseen.elim
      | true => exact fun _ hold => hold

/-- A call of `hmr_rdma_send` whose message is seen keeps the invariant. -/
theorem FlushInv.send (h : FlushInv s old new) {msg : HmrMsg} {o : Outcomes}
    (hseen : AppendsSeen s (.send msg o)) (hstep : flushStep s (.send msg o) = some s') :
    ∃ new', FlushInv s' old new' := by
  simp only [flushStep] at hstep
  split at hstep
  · contradiction
  · rename_i r t hsend
    obtain rfl := Option.some.inj hstep
    cases hmrRdmaSend_cases hsend with
    | refused => exact ⟨new, h.of_same rfl rfl rfl (by simp) le_rfl⟩
    | submitted _ hready hsubmit =>
      cases hsubmit with
      | queued pool _ htype =>
        exact ⟨_, h.append pool htype (hseen hready htype) (by simp [htype])⟩
      | posted pool _ htype _ =>
        -- a task posted at once carries an MR and is not counted
        have htask : (acceptedTask pool msg s.trans.nextTask).taskType = .mr := by
          simp [acceptedTask, HmrTaskType.ofMsgType_eq_mr, htype]
        refine ⟨new, h.of_same rfl rfl ?_ (by simp [htype]) (Nat.le_succ _)⟩
        simp [FlushState.posted, HmrRdmaTransport.postedDirect, HmrRdmaTransport.ibvPostSend,
          HmrRdmaTransport.created, directSendWr, htask]
      | dropped pool _ htype _ =>
        exact ⟨new, h.of_same rfl rfl rfl (by simp [htype]) (Nat.le_succ _)⟩

/-- Posting the finished array turns the new tasks into old ones. -/
theorem FlushInv.post (h : FlushInv s [] new) {wrs : List IbvSendWr} (hnew : new ≠ [])
    (htasks : wrs.map IbvSendWr.wrId = new)
    (hnext : ∀ j (hj : j < wrs.length), (wrs[j]).next = some (j + 1)) :
    FlushInv ⟨s.trans.ibvPostSend (postedChain wrs), .posted, s.accepted⟩ new [] := by
  have hposted : FlushState.posted ⟨s.trans.ibvPostSend (postedChain wrs), .posted, s.accepted⟩ =
      s.posted ++ new := by
    have hall : new.filter (fun task => task.taskType ≠ .mr) = new := by
      simpa [List.filter_eq_self] using h.new_type
    simp only [FlushState.posted, HmrRdmaTransport.ibvPostSend, List.map_append,
      postedChain_wrId hnext, htasks, List.filter_append, hall]
  refine ⟨?_, ?_, ?_, by simp, by simp, ?_, ⟨rfl, hnew⟩⟩
  · simpa [HmrRdmaTransport.ibvPostSend] using h.list
  · rw [hposted, List.append_nil, h.accepted]
  · rw [hposted]
    exact fun task htask => List.mem_append_right _ htask
  · rw [hposted, List.append_nil]
    exact h.fresh

/-- Filling the next element of the array keeps the invariant. -/
theorem FlushInv.fill (h : FlushInv s [] new) {wrs : List IbvSendWr} {task : HmrTask}
    (hwalked : wrs.map IbvSendWr.wrId <+: new)
    (hnext : ∀ j (hj : j < wrs.length), (wrs[j]).next = some (j + 1))
    (htask : new[wrs.length]? = some task) :
    FlushInv ⟨{ s.trans with peerInfo := (fillSendWr s.trans.peerInfo wrs.length task).2 },
      .walk (wrs ++ [(fillSendWr s.trans.peerInfo wrs.length task).1]), s.accepted⟩ [] new := by
  refine ⟨h.list, h.accepted, h.old_posted, h.new_unposted, h.new_type, h.fresh, rfl, ?_, ?_, ?_⟩
  · rintro rfl
    simp at htask
  · obtain ⟨rest, rfl⟩ := hwalked
    rw [List.getElem?_append_right (by simp), List.length_map, Nat.sub_self] at htask
    obtain ⟨rest, rfl⟩ : ∃ tail, rest = task :: tail := by
      cases rest with
      | nil => contradiction
      | cons head tail => exact ⟨tail, by rw [Option.some.inj htask]⟩
    exact ⟨rest, by simp [fillSendWr]⟩
  · intro j hj
    rw [List.length_append, List.length_singleton] at hj
    by_cases hlast : j = wrs.length
    · subst hlast
      simp [fillSendWr]
    · rw [List.getElem_append_left (by omega)]
      exact hnext j (by omega)

/-- Removing the first old task keeps the rest of the invariant. -/
theorem FlushInv.remove {task : HmrTask} (h : FlushInv s (task :: old) new) {phase : FlushPhase}
    (hs' : s' = ⟨{ s.trans with sendTaskList := old ++ new }, phase, s.accepted⟩)
    (hphase : match phase with
      | .idle => old = []
      | .unlink false => new = [] ∧ 2 ≤ old.length
      | .unlink true => old.length = 1
      | _ => False) : FlushInv s' old new := by
  subst hs'
  refine ⟨rfl, h.accepted, fun other hother => h.old_posted other (.tail _ hother), h.new_unposted,
    h.new_type, h.fresh, ?_⟩
  cases phase with
  | idle => exact hphase
  | unlink last => cases last <;> exact hphase
  | _ => exact hphase.elim

/-- A step of the event thread keeps the invariant. -/
theorem FlushInv.handler (h : FlushInv s old new) (hstep : flushStep s .handler = some s') :
    ∃ old' new', FlushInv s' old' new' := by
  obtain ⟨⟨t, phase⟩, hhandler, rfl⟩ := Option.map_eq_some_iff.mp hstep
  obtain ⟨trans, sphase, accepted⟩ := s
  have hlist : trans.sendTaskList = old ++ new := h.list
  have hphase := h.phase
  cases sphase with
  | idle =>
    obtain ⟨rfl, rfl⟩ := Prod.mk.inj (Option.some.inj hhandler)
    obtain rfl : old = [] := hphase
    refine ⟨[], new, h.list, h.accepted, h.old_posted, h.new_unposted, h.new_type, h.fresh, ?_⟩
    cases new with
    | nil => simp [hlist]
    | cons task rest => simp [hlist]
  | walk wrs =>
    obtain ⟨rfl, hnew, hwalked, hnext⟩ := hphase
    simp only [handlerStep] at hhandler
    split at hhandler
    · rename_i hend
      rw [hlist, List.nil_append] at hend
      obtain ⟨rfl, rfl⟩ := Prod.mk.inj (Option.some.inj hhandler)
      have htasks : wrs.map IbvSendWr.wrId = new :=
        hwalked.eq_of_length_le (by simpa using hend)
      exact ⟨[], new, h.list, h.accepted, h.old_posted, h.new_unposted, h.new_type, h.fresh, rfl,
        hnew, htasks, hnext⟩
    · rename_i task htask
      rw [hlist, List.nil_append] at htask
      split at hhandler
      · contradiction
      · obtain ⟨rfl, rfl⟩ := Prod.mk.inj (Option.some.inj hhandler)
        exact ⟨[], new, h.fill hwalked hnext htask⟩
  | built wrs =>
    obtain ⟨rfl, rfl⟩ := Prod.mk.inj (Option.some.inj hhandler)
    obtain ⟨rfl, hnew, htasks, hnext⟩ := hphase
    exact ⟨new, [], h.post hnew htasks hnext⟩
  | posted =>
    obtain ⟨rfl, rfl⟩ := Prod.mk.inj (Option.some.inj hhandler)
    obtain ⟨rfl, hold⟩ := hphase
    refine ⟨old, [], h.list, h.accepted, h.old_posted, h.new_unposted, h.new_type, h.fresh, ?_⟩
    match old, hold with
    | [_], _ => simp [hlist]
    | _ :: _ :: _, _ => simp [hlist]
  | unlink last =>
    obtain ⟨rfl, rfl⟩ := Prod.mk.inj (Option.some.inj hhandler)
    cases last with
    | false =>
      obtain ⟨rfl, hlen⟩ := hphase
      match old, hlen with
      | task :: rest, hlen =>
        refine ⟨rest, [], h.remove (by simp only [hlist]; rfl) ?_⟩
        match rest, hlen with
        | [_], _ => simp
        | _ :: _ :: _, _ => simp
    | true =>
      obtain ⟨task, rfl⟩ := List.length_eq_one_iff.mp hphase
      exact ⟨[], new, h.remove (by simp only [hlist]; rfl) rfl⟩

/-- A step of either thread that loses sight of no message keeps the invariant. -/
theorem FlushInv.step (h : FlushInv s old new) {e : FlushEvent} (hseen : AppendsSeen s e)
    (hstep : flushStep s e = some s') : ∃ old' new', FlushInv s' old' new' := by
  cases e with
  | send msg o => exact ⟨old, h.send hseen hstep⟩
  | handler => exact h.handler hstep

end Step

/-- Nothing is lost, duplicated or reordered in a run whose messages all join the list where they
are seen. -/
theorem flush_conserves {s : FlushState} {events : List FlushEvent} (hphase : s.phase = .idle)
    (hlist : s.trans.sendTaskList = []) (hlog : s.trans.qp.sendLog = []) (haccepted : s.accepted = [])
    (hseen : Guarded flushStep AppendsSeen s events) : Always flushStep FlushConserves s events := by
  have hstart : FlushInv s [] [] := by
    have hposted : s.posted = [] := by simp [FlushState.posted, hlog]
    refine ⟨hlist, ?_, by simp, by simp, by simp, by simp [hposted], ?_⟩
    · simp [haccepted, hposted]
    · rw [hphase]
  apply always_of_guarded (D := fun _ => True) (I := fun s => ∃ old new, FlushInv s old new) ?_ ?_
    (fun _ _ => trivial) ⟨[], [], hstart⟩ hseen
  · intro s hinv
    obtain ⟨old, new, h⟩ := hinv
    exact h.conserves
  · intro s e s' _ hinv hseen hstep
    obtain ⟨old, new, h⟩ := hinv
    exact h.step hseen hstep

/-- A transport with an idle event thread. -/
def sampleFlush : FlushState := ⟨sampleTransport, .idle, []⟩

/-- A message sent and flushed, with a second one sent during the first walk. -/
theorem flush_conserves_sample :
    Always flushStep FlushConserves sampleFlush
      [.send (sampleMsg .normal 8) .ok, .handler, .send (sampleMsg .write 8) .ok, .handler,
        .handler, .handler, .handler, .handler, .handler, .handler] := by
  refine flush_conserves rfl rfl rfl rfl (.cons rfl (fun _ _ => trivial) (.cons rfl trivial
    (.cons rfl (fun _ _ => trivial) ?_)))
  exact .cons rfl trivial (.cons rfl trivial (.cons rfl trivial (.cons rfl trivial
    (.cons rfl trivial (.cons rfl trivial (.cons rfl trivial trivial))))))

/-- A message sent between the first walk and the post is removed without having been posted. -/
theorem flush_loses :
    ¬∀ (s : FlushState) (events : List FlushEvent), s.phase = .idle → s.trans.sendTaskList = [] →
      s.trans.qp.sendLog = [] → s.accepted = [] → Always flushStep FlushConserves s events := by
  intro h
  let events : List FlushEvent :=
    [.send (sampleMsg .normal 8) .ok, .handler, .handler, .handler,
      .send (sampleMsg .normal 8) .ok, .handler, .handler, .handler, .handler]
  have hrun : (runEvents flushStep sampleFlush events).map
      (fun s => (s.accepted.length, (s.posted ++ s.toPost).length)) = some (2, 1) := by decide
  obtain ⟨s, hs, hcounts⟩ := Option.map_eq_some_iff.mp hrun
  have hconserves := (h sampleFlush events rfl rfl rfl rfl).of_run hs
  have hlength := congrArg List.length hconserves
  obtain ⟨haccepted, hposted⟩ := Prod.mk.inj hcounts
  rw [List.length_map, List.length_map, haccepted, hposted] at hlength
  contradiction

end HmrRpc
