import HmrRpc.Common.Lockstep
import HmrRpc.LinuxList
import HmrRpc.ListFrame
import HmrRpc.TaskIds

/-!
# `send_task_list` in memory

The list is the head in the transport and the entry in each task, linked to one another. Here
it is kept that way: a send takes a task into memory and links it behind the last one, a tick
walks along the links and takes the tasks out if the post succeeds, and the handler of a
completion follows its task and frees it. Following a pointer to a freed task is no step of the
list any more: the memory is lost from then on.

The events are those of a transport's life, whose model keeps the list as a list.
-/

namespace HmrRpc

open Common

/-- The list heads in memory: the one of the transport, and the entry of each task. -/
inductive TaskNode
  | sendTaskList
  | taskListEntry (id : ℕ)
  deriving DecidableEq

/-- A transport with its list in memory. `trans` is all but the list, and `task` the tasks that
have been put on it. -/
structure LinkedTransport where
  trans : HmrRdmaTransport
  task : ℕ → Option HmrTask
  heads : NodeHeap TaskNode

/-- The task that the handler of a completion follows. -/
def completedTask (t : HmrRdmaTransport) : LifecycleEvent → Option ℕ
  | .data (.sendComplete i .success _) => (t.qp.sq[i]?).map fun wr => wr.wrId.id
  | .data (.recvComplete _ .success _) => t.qp.rq.head?.map fun wr => wr.wrId.id
  | _ => none

/-- Follow the task. -/
def followTask (h : NodeHeap TaskNode) : Option ℕ → Option (NodeHeap TaskNode)
  | none => some h
  | some id => (h.deref (some (.taskListEntry id))).map fun _ => h

/-- A task from `calloc` with `INIT_LIST_HEAD` of its entry, put on the list if it is to be sent. -/
def enterTask (queued : List ℕ) (h : NodeHeap TaskNode) (id : ℕ) : Option (NodeHeap TaskNode) := do
  let h ← initListHead (h.alloc (.taskListEntry id)) (some (.taskListEntry id))
  if id ∈ queued then listAddTail h (some (.taskListEntry id)) (some .sendTaskList) else some h

/-- `free` of a task. -/
def freeEntry (h : NodeHeap TaskNode) (id : ℕ) : Option (NodeHeap TaskNode) :=
  (h.deref (some (.taskListEntry id))).map h.free

/-- The tasks in memory once some more are filled in. -/
def storeTasks (m : ℕ → Option HmrTask) (tasks : List HmrTask) : ℕ → Option HmrTask :=
  tasks.foldl (fun m task => Function.update m task.id (some task)) m

/-- What an event other than a tick does to the memory, if `u` is the transport it leaves. -/
def LinkedTransport.touch (c : LinkedTransport) (e : LifecycleEvent) (u : HmrRdmaTransport) :
    Option LinkedTransport := do
  let heads ← followTask c.heads (completedTask c.trans e)
  let created := List.range' c.trans.nextTask (u.nextTask - c.trans.nextTask)
  let heads ← created.foldlM (enterTask (u.sendTaskList.map HmrTask.id)) heads
  let heads ← (u.freedTasks.drop c.trans.freedTasks.length).foldlM freeEntry heads
  some ⟨{ u with sendTaskList := [] }, storeTasks c.task u.sendTaskList, heads⟩

/-- The tasks that `list_for_each_entry` visits. A pass more than the arrays of
`hmr_send_task_handler` have room for overruns them. -/
def LinkedTransport.walk (c : LinkedTransport) : Option (List HmrTask) := do
  let first ← c.heads.readNext (some .sendTaskList)
  let nodes ← listForEachEntry c.heads (some .sendTaskList) (maxSendWr + 2) first
  nodes.mapM fun
    | .sendTaskList => none
    | .taskListEntry id => c.task id

/-- The loop that takes the tasks off the list. -/
def LinkedTransport.unlinkAll (c : LinkedTransport) : Option (NodeHeap TaskNode) := do
  let first ← c.heads.readNext (some .sendTaskList)
  listDelInitEach (some .sendTaskList) (maxSendWr + 2) first (← c.heads.readNext first) c.heads

/-- `hmr_send_task_handler`. -/
def LinkedTransport.tick (c : LinkedTransport) (accepted : Option ℕ) :
    Option (Option LinkedTransport) :=
  match listEmpty c.heads (some .sendTaskList) with
  | none => some none
  | some true => some (some c)
  | some false =>
    match c.walk with
    | none => some none
    | some tasks =>
      (hmrSendTaskHandler accepted { c.trans with sendTaskList := tasks }).toOption.map fun t =>
        -- the list is kept behind a failed post
        (if accepted.isNone then c.unlinkAll else some c.heads).map fun heads =>
          { c with trans := { t with sendTaskList := [] }, heads := heads }

/-- One event with the list in memory; `none` in place of a state is lost memory. -/
def linkedStep : Option LinkedTransport → LifecycleEvent → Option (Option LinkedTransport)
  | none, _ => some none
  | some c, .data (.tick accepted) => c.tick accepted
  | some c, e => (lifecycleStep c.trans e).map (c.touch e)

/-- `hmr_rdma_create`: the list of the transport is empty. -/
def linkedCreate : LinkedTransport where
  trans := hmrRdmaCreate
  task := fun _ => none
  heads := NodeHeap.link ⟨fun _ => none, fun _ => none, fun node => node = .sendTaskList⟩
    .sendTaskList .sendTaskList

/-- The memory holds the list of the transport: its tasks, linked in their order, and every task
that has been allocated and not freed. -/
structure HoldsList (c : LinkedTransport) (t : HmrRdmaTransport) : Prop where
  trans : c.trans = { t with sendTaskList := [] }
  list : c.heads.Circular .sendTaskList ((t.sendTaskList.map HmrTask.id).map .taskListEntry)
  task : ∀ task ∈ t.sendTaskList, c.task task.id = some task
  live : ∀ id, c.heads.live (.taskListEntry id) ↔ id < t.nextTask ∧ id ∉ t.freedTasks

/-- The memory is not lost and holds the list. -/
def Holds (m : Option LinkedTransport) (t : HmrRdmaTransport) : Prop :=
  ∃ c, m = some c ∧ HoldsList c t

/-- A handled send completion is the first of its task, and frees it only if it is off the list. -/
def FreesUnlisted (t : HmrRdmaTransport) : LifecycleEvent → Prop
  | .data (.sendComplete i .success _) => ∀ wr, t.qp.sq[i]? = some wr →
      wr.wrId.id ∉ t.freedTasks ∧
        (wr.opcode ≠ .rdmaRead → wr.wrId.id ∉ t.sendTaskList.map HmrTask.id)
  | _ => True

section Memory

variable {h : NodeHeap TaskNode} (queued : List ℕ) {ids ids' : List ℕ} {id : ℕ}

/-- A task entered is in memory, and on the list behind the others if it is to be sent. -/
theorem enterTask_circular (hc : h.Circular .sendTaskList (ids.map .taskListEntry)) (hid : id ∉ ids) :
    ∃ h', enterTask queued h id = some h' ∧
      h'.Circular .sendTaskList ((ids ++ [id].filter (· ∈ queued)).map .taskListEntry) ∧
      h'.live = (h.alloc (.taskListEntry id)).live := by
  have hout : TaskNode.taskListEntry id ∉ .sendTaskList :: ids.map .taskListEntry := by
    simpa using hid
  have hlive : (h.alloc (.taskListEntry id)).live (.taskListEntry id) := Function.update_self ..
  have hinit : ((h.alloc (.taskListEntry id)).link (.taskListEntry id) (.taskListEntry id)).Circular
      .sendTaskList (ids.map .taskListEntry) := (hc.alloc hout).link hout hout
  simp only [enterTask, initListHead_eq hlive, Option.bind_eq_bind, Option.bind_some]
  by_cases hqueued : id ∈ queued
  · obtain ⟨h', hadd, hlist, hlive'⟩ := listAddTail_circular hinit hlive hout
    refine ⟨h', by rw [if_pos hqueued, hadd], ?_, hlive'⟩
    simpa [hqueued] using hlist
  · refine ⟨_, if_neg hqueued, ?_, rfl⟩
    simpa [hqueued] using hinit

/-- So are any number of them. -/
theorem foldlM_enterTask (hc : h.Circular .sendTaskList (ids.map .taskListEntry))
    (hnodup : ids'.Nodup) (hout : ∀ id ∈ ids', id ∉ ids) :
    ∃ h', ids'.foldlM (enterTask queued) h = some h' ∧
      h'.Circular .sendTaskList ((ids ++ ids'.filter (· ∈ queued)).map .taskListEntry) ∧
      ∀ id, h'.live (.taskListEntry id) ↔ h.live (.taskListEntry id) ∨ id ∈ ids' := by
  induction ids' generalizing h ids with
  | nil => exact ⟨h, rfl, by simpa using hc, by simp⟩
  | cons id rest ih =>
    obtain ⟨hid, hrest⟩ := List.nodup_cons.mp hnodup
    obtain ⟨u, henter, hlist, hlive⟩ := enterTask_circular queued hc (hout id (.head _))
    obtain ⟨h', hfold, hlist', hlive'⟩ := ih hlist hrest fun id' hmem => by
      have hne : id' ≠ id := fun heq => hid (heq ▸ hmem)
      have hold := hout id' (.tail _ hmem)
      simp only [List.mem_append, List.mem_filter, List.mem_singleton, hne, hold, false_and, or_self,
        not_false_eq_true]
    refine ⟨h', by rw [List.foldlM_cons, henter]; exact hfold, ?_, fun id' => ?_⟩
    · rwa [List.append_assoc, ← List.filter_append, List.singleton_append] at hlist'
    · rw [hlive', hlive, NodeHeap.alloc]
      by_cases heq : id' = id <;> simp [heq]

end Memory

section Tick

variable {c : LinkedTransport} {t t' : HmrRdmaTransport} {a : Option ℕ}

/-- The tasks behind the entries of the list are read. -/
theorem mapM_task {tasks : List HmrTask} (h : ∀ task ∈ tasks, c.task task.id = some task) :
    ((tasks.map HmrTask.id).map TaskNode.taskListEntry).mapM (fun
      | .sendTaskList => none
      | .taskListEntry id => c.task id) = some tasks := by
  induction tasks with
  | nil => rfl
  | cons task rest ih =>
    rw [List.map_cons, List.map_cons, List.mapM_cons]
    simp only [h task (.head _)]
    rw [ih fun task' hmem => h task' (.tail _ hmem)]
    rfl

/-- So the loop of a tick meets the list, as far as it goes. -/
theorem HoldsList.walk (h : HoldsList c t) : c.walk = some (t.sendTaskList.take (maxSendWr + 2)) := by
  have hall : c.heads.Circular .sendTaskList
    ([] ++ (t.sendTaskList.map HmrTask.id).map .taskListEntry) := h.list
  simp only [LinkedTransport.walk, h.list.readNext_head, Option.bind_eq_bind, Option.bind_some,
    listForEachEntry_circular hall, ← List.map_take]
  exact mapM_task fun task hmem => h.task task (List.mem_of_mem_take hmem)

/-- And the loop behind the post empties it. -/
theorem HoldsList.unlinkAll (h : HoldsList c t) (hfit : t.sendTaskList.length ≤ maxSendWr + 1) :
    ∃ heads, c.unlinkAll = some heads ∧ heads.Circular .sendTaskList [] ∧
      heads.live = c.heads.live := by
  obtain ⟨heads, hempty, hlive, hloop⟩ := listDelInitEach_circular h.list
  refine ⟨heads, ?_, hempty, hlive⟩
  simp only [LinkedTransport.unlinkAll, h.list.readNext_head, h.list.readNext_first,
    Option.bind_eq_bind, Option.bind_some]
  exact hloop _ (by simp only [List.length_map]; omega)

/-- A tick with tasks to send works on the list read back. -/
theorem HoldsList.tick_eq (h : HoldsList c t) (hne : t.sendTaskList ≠ []) :
    c.tick a = (hmrSendTaskHandler a
        { t with sendTaskList := t.sendTaskList.take (maxSendWr + 2) }).toOption.map fun u =>
      (if a.isNone then c.unlinkAll else some c.heads).map fun heads =>
        { c with trans := { u with sendTaskList := [] }, heads := heads } := by
  have hread : { c.trans with sendTaskList := t.sendTaskList.take (maxSendWr + 2) } =
      { t with sendTaskList := t.sendTaskList.take (maxSendWr + 2) } := by rw [h.trans]
  simp only [LinkedTransport.tick, listEmpty_circular h.list, List.isEmpty_map,
    List.isEmpty_eq_false_iff.mpr hne, h.walk, hread]

/-- If it overruns the arrays, it does so along the links too. -/
theorem HoldsList.tick_stuck (h : HoldsList c t) (hover : maxSendWr + 1 < t.sendTaskList.length) :
    c.tick a = none := by
  have hlong : maxSendWr + 1 < (t.sendTaskList.take (maxSendWr + 2)).length := by
    rw [List.length_take]
    omega
  have hne : t.sendTaskList ≠ [] := List.ne_nil_of_length_pos (by omega)
  have hne' : ¬(t.sendTaskList.take (maxSendWr + 2)).isEmpty :=
    fun hnil => List.ne_nil_of_length_pos (by omega) (List.isEmpty_iff.mp hnil)
  rw [h.tick_eq hne, hmrSendTaskHandler, if_neg hne', if_pos hlong]
  rfl

/-- A tick that returns does along the links what it does to the list. -/
theorem HoldsList.tick (h : HoldsList c t) (htick : hmrSendTaskHandler a t = .ok t') :
    ∃ c', c.tick a = some (some c') ∧ HoldsList c' t' := by
  have hfits (hfit : t.sendTaskList.length ≤ maxSendWr + 1) :
      { t with sendTaskList := t.sendTaskList.take (maxSendWr + 2) } = t := by
    rw [List.take_of_length_le (by omega)]
  cases hmrSendTaskHandler_cases htick with
  | idle _ hempty =>
    refine ⟨c, ?_, h⟩
    simp [LinkedTransport.tick, listEmpty_circular h.list, hempty]
  | flushed hne hfit =>
    obtain ⟨heads, hunlink, hempty, hlive⟩ := h.unlinkAll hfit
    refine ⟨_, by simp only [h.tick_eq hne, hfits hfit, htick, hunlink]; rfl, rfl, hempty, ?_, ?_⟩
    · simp [HmrRdmaTransport.flushed]
    · intro id
      rw [hlive]
      exact h.live id
  | failed k hne hfit =>
    exact ⟨{ c with trans := { t.flushFailed k with sendTaskList := [] } },
      by simp only [h.tick_eq hne, hfits hfit, htick]; rfl, rfl, h.list, h.task, h.live⟩

end Tick

section Touch

variable {c c' : LinkedTransport} {t t' u : HmrRdmaTransport} {e : LifecycleEvent}

/-- The tasks to be sent are among those created. -/
theorem created_queued {c u : HmrRdmaTransport} (hlist : c.sendTaskList = []) (h : Emits c u) :
    (List.range' c.nextTask (u.nextTask - c.nextTask)).filter
      (· ∈ u.sendTaskList.map HmrTask.id) = u.sendTaskList.map HmrTask.id := by
  cases h with
  | nothing hlist' | posted _ _ _ hlist' => simp [hlist', hlist]
  | queued task hid hlist' _ _ hnext =>
    obtain ⟨k, hk⟩ : ∃ k, u.nextTask - c.nextTask = k + 1 := ⟨u.nextTask - c.nextTask - 1, by omega⟩
    rw [hlist', hlist, hk, List.range'_succ]
    have hrest : (List.range' (c.nextTask + 1) k).filter (fun id => decide (id = c.nextTask)) = [] := by
      rw [List.filter_eq_nil_iff]
      intro id hmem
      have hle := (List.mem_range'_1.mp hmem).1
      simp only [decide_eq_true_eq]
      omega
    simp only [List.nil_append, List.map_singleton, hid, List.mem_singleton, List.filter_cons,
      decide_true, if_true, hrest]

/-- Filling tasks in leaves the others. -/
theorem storeTasks_of_notMem {m : ℕ → Option HmrTask} {tasks : List HmrTask} {id : ℕ}
    (hid : id ∉ tasks.map HmrTask.id) : storeTasks m tasks id = m id := by
  induction tasks generalizing m with
  | nil => rfl
  | cons task rest ih =>
    simp only [List.map_cons, List.mem_cons, not_or] at hid
    exact (ih hid.2).trans (Function.update_of_ne hid.1 ..)

/-- And they are there, if no two have one id. -/
theorem storeTasks_of_mem {m : ℕ → Option HmrTask} {tasks : List HmrTask}
    (hnodup : (tasks.map HmrTask.id).Nodup) {task : HmrTask} (htask : task ∈ tasks) :
    storeTasks m tasks task.id = some task := by
  induction tasks generalizing m with
  | nil => contradiction
  | cons first rest ih =>
    obtain ⟨hfirst, hrest⟩ := List.nodup_cons.mp hnodup
    rcases List.mem_cons.mp htask with rfl | hmem
    · exact (storeTasks_of_notMem hfirst).trans (Function.update_self ..)
    · exact ih hrest hmem

/-- An event that sends one message or none does so in memory, if it can follow its task. -/
theorem HoldsList.emit (h : HoldsList c t) (hids : TaskIds t) (hemits : Emits c.trans u)
    (hfreed : u.freedTasks = c.trans.freedTasks)
    (hfollow : followTask c.heads (completedTask c.trans e) = some c.heads) :
    ∃ c', c.touch e u = some c' ∧ HoldsList c' (u.behind t.sendTaskList) := by
  have hlist : c.trans.sendTaskList = [] := by rw [h.trans]
  have hnext : c.trans.nextTask = t.nextTask := by rw [h.trans]
  have hfreed' : c.trans.freedTasks = t.freedTasks := by rw [h.trans]
  have hout : ∀ id ∈ List.range' c.trans.nextTask (u.nextTask - c.trans.nextTask),
      id ∉ t.sendTaskList.map HmrTask.id := fun id hid hmem => by
    have hlt := hids.sends id (list_subset_sendIds t hmem)
    have hle := (List.mem_range'_1.mp hid).1
    omega
  obtain ⟨heads, hfold, hcirc, hlive⟩ := foldlM_enterTask (u.sendTaskList.map HmrTask.id)
    h.list List.nodup_range' hout
  have hqueued := created_queued hlist hemits
  rw [hqueued] at hcirc
  refine ⟨⟨{ u with sendTaskList := [] }, storeTasks c.task u.sendTaskList, heads⟩, ?_, rfl, ?_,
    fun task htask => ?_, fun id => ?_⟩
  · simp only [LinkedTransport.touch, hfollow, hfold, hfreed, List.drop_length, List.foldlM_nil,
      Option.bind_eq_bind, Option.bind_some]
    rfl
  · simpa [HmrRdmaTransport.behind] using hcirc
  · rcases List.mem_append.mp htask with hold | hnew
    · have hid : task.id ∉ u.sendTaskList.map HmrTask.id := fun hmem =>
        hout _ (List.mem_of_mem_filter (hqueued ▸ hmem)) (List.mem_map_of_mem hold)
      exact (storeTasks_of_notMem hid).trans (h.task task hold)
    · refine storeTasks_of_mem ?_ hnew
      rw [← hqueued]
      exact List.Nodup.filter _ List.nodup_range'
  · have hmono : t.nextTask ≤ u.nextTask := by
      cases hemits with
      | nothing _ _ hsame => exact hnext ▸ hsame.nextTask
      | queued _ _ _ _ _ hlt | posted _ _ _ _ _ _ hlt => exact hnext ▸ hlt.le
    simp only [HmrRdmaTransport.behind, hlive, h.live, hfreed, hfreed', hnext, List.mem_range'_1]
    by_cases hmem : id ∈ t.freedTasks
    · have hold := hids.sends id (freed_subset_sendIds t hmem)
      simp only [hmem, not_true_eq_false, and_false, false_or, iff_false]
      omega
    · simp only [hmem, not_false_eq_true, and_true]
      omega

/-- A task in memory can be followed. -/
theorem HoldsList.follow (h : HoldsList c t) {id : Option ℕ}
    (hid : ∀ i ∈ id, i < t.nextTask ∧ i ∉ t.freedTasks) : followTask c.heads id = some c.heads := by
  cases id with
  | none => rfl
  | some i => simp [followTask, (h.live i).mpr (hid i rfl)]

/-- The rest of the transport does not depend on where the list is. -/
theorem HoldsList.step_eq (h : HoldsList c t) (htick : ∀ a, e ≠ .data (.tick a)) :
    lifecycleStep t e = (lifecycleStep c.trans e).map (HmrRdmaTransport.behind t.sendTaskList) := by
  have hbehind : c.trans.behind t.sendTaskList = t := by
    rw [h.trans]
    simp [HmrRdmaTransport.behind]
  rw [← lifecycleStep_behind _ _ htick, hbehind]

/-- A completed send leaves the list and allocates nothing. -/
theorem HoldsList.sent (h : HoldsList c t) {i : ℕ} {wr : IbvSendWr}
    (hu : u = (c.trans.pollSend i).sendCompleted wr.wrId wr.opcode.wcOpcode) :
    u.sendTaskList = [] ∧ u.nextTask = t.nextTask ∧
      u.freedTasks = t.freedTasks ++ if wr.opcode = .rdmaRead then [] else [wr.wrId.id] := by
  obtain ⟨hfreed, hnext⟩ := sendCompleted_tasks (c.trans.pollSend i) wr.wrId wr.opcode
  subst hu
  refine ⟨?_, hnext.trans ?_, hfreed.trans ?_⟩
  · rw [sendCompleted_sendTaskList, HmrRdmaTransport.pollSend, h.trans]
  · rw [HmrRdmaTransport.pollSend, h.trans]
  · rw [HmrRdmaTransport.pollSend, h.trans]

/-- In memory it follows its task, and frees it unless it is a READ. -/
theorem HoldsList.touch_sent (h : HoldsList c t) {i : ℕ} {o : Outcomes} {wr : IbvSendWr}
    (hwr : c.trans.qp.sq[i]? = some wr)
    (hu : u = (c.trans.pollSend i).sendCompleted wr.wrId wr.opcode.wcOpcode) :
    c.touch (.data (.sendComplete i .success o)) u =
      (followTask c.heads (some wr.wrId.id)).bind fun heads =>
        ((if wr.opcode = .rdmaRead then [] else [wr.wrId.id]).foldlM freeEntry heads).map fun heads =>
          ⟨u, c.task, heads⟩ := by
  obtain ⟨hlist, hnext, hfreed⟩ := h.sent hu
  have hcreated : u.nextTask - c.trans.nextTask = 0 := by
    rw [hnext, h.trans]
    exact Nat.sub_self _
  have hdrop : u.freedTasks.drop c.trans.freedTasks.length =
      if wr.opcode = .rdmaRead then [] else [wr.wrId.id] := by
    rw [hfreed, h.trans]
    exact List.drop_left
  have hu' : { u with sendTaskList := [] } = u := by rw [← hlist]
  simp only [LinkedTransport.touch, completedTask, hwr, hcreated, List.range'_zero, List.foldlM_nil,
    hdrop, hlist, hu', storeTasks, List.foldl_nil, Option.bind_eq_bind, Option.map_eq_bind]
  rfl

/-- A send completion does in memory what it does to the tasks exactly if it frees a task once, and
off the list. -/
theorem HoldsList.sendComplete (h : HoldsList c t) (hids : TaskIds t) {i : ℕ} {o : Outcomes}
    (hu : lifecycleStep c.trans (.data (.sendComplete i .success o)) = some u) :
    (∃ c', c.touch (.data (.sendComplete i .success o)) u = some c' ∧
        HoldsList c' (u.behind t.sendTaskList)) ↔
      FreesUnlisted t (.data (.sendComplete i .success o)) := by
  obtain ⟨wr, hwr, hsent⟩ := dataStep_sendComplete hu
  rw [if_pos rfl] at hsent
  obtain ⟨hlist, hnext, hfreed⟩ := h.sent hsent
  have hbehind : (u.behind t.sendTaskList).sendTaskList = t.sendTaskList := by
    rw [HmrRdmaTransport.behind, hlist, List.append_nil]
  have hwr' : t.qp.sq[i]? = some wr := by
    rw [← hwr, h.trans]
  have hlt : wr.wrId.id < t.nextTask :=
    hids.sends _ (sq_subset_sendIds t (List.mem_map_of_mem (List.mem_of_getElem? hwr')))
  have hlive : c.heads.live (.taskListEntry wr.wrId.id) ↔ wr.wrId.id ∉ t.freedTasks :=
    (h.live _).trans (and_iff_right hlt)
  rw [h.touch_sent hwr hsent]
  constructor
  · rintro ⟨c', hc', hafter⟩ wr' hwr''
    obtain rfl := Option.some.inj (hwr'.symm.trans hwr'')
    obtain ⟨heads, hfollow, -⟩ := Option.bind_eq_some_iff.mp hc'
    refine ⟨fun hmem => ?_, fun hopcode hmem => ?_⟩
    · have hdead : c.heads.live (.taskListEntry wr.wrId.id) = false :=
        Bool.eq_false_iff.mpr fun hentry => hlive.mp hentry hmem
      simp [followTask, NodeHeap.deref, hdead] at hfollow
    · -- the freed task would still be on the list
      have hentry := hafter.list.live (.taskListEntry wr.wrId.id) (by simpa [hbehind] using hmem)
      refine ((hafter.live _).mp hentry).2 (hfreed.symm ▸ List.mem_append_right _ ?_)
      rw [if_neg hopcode]
      exact .head _
  · intro hfrees
    obtain ⟨honce, hoff⟩ := hfrees wr hwr'
    have hfollow : followTask c.heads (some wr.wrId.id) = some c.heads :=
      h.follow fun j hj => Option.some.inj hj ▸ ⟨hlt, honce⟩
    have htrans : u = { u.behind t.sendTaskList with sendTaskList := [] } := by
      rw [HmrRdmaTransport.behind, ← hlist]
    rw [hfollow, Option.bind_some]
    by_cases hopcode : wr.opcode = .rdmaRead
    · rw [if_pos hopcode, List.append_nil] at hfreed
      refine ⟨⟨u, c.task, c.heads⟩, by simp [hopcode], htrans, by rw [hbehind]; exact h.list,
        by rw [hbehind]; exact h.task, fun id => ?_⟩
      rw [h.live, HmrRdmaTransport.behind, hnext, hfreed]
    · have hout : TaskNode.taskListEntry wr.wrId.id ∉
          .sendTaskList :: (t.sendTaskList.map HmrTask.id).map .taskListEntry := by
        simpa using hoff hopcode
      rw [if_neg hopcode] at hfreed
      refine ⟨⟨u, c.task, c.heads.free (.taskListEntry wr.wrId.id)⟩, ?_, htrans,
        by rw [hbehind]; exact h.list.free hout, by rw [hbehind]; exact h.task, fun id => ?_⟩
      · simp [hopcode, freeEntry, hlive.mpr honce]
      · rw [HmrRdmaTransport.behind, hnext, hfreed, NodeHeap.free]
        by_cases heq : id = wr.wrId.id
        · simp [heq]
        · simp [heq, h.live]

/-- The events that complete no send meet the condition. -/
theorem freesUnlisted_of_ne (hsend : ∀ i o, e ≠ .data (.sendComplete i .success o)) :
    FreesUnlisted t e := by
  cases e with
  | data e =>
    cases e with
    | sendComplete i status o =>
      cases status with
      | success => exact absurd rfl (hsend i o)
      | _ => trivial
    | _ => trivial
  | _ => trivial

/-- A task followed otherwise is that of a receive. -/
theorem completedTask_recv (hsend : ∀ i o, e ≠ .data (.sendComplete i .success o)) {id : ℕ}
    (hid : id ∈ completedTask t e) : id ∈ t.recvIds := by
  cases e with
  | data e =>
    cases e with
    | sendComplete i status o =>
      cases status with
      | success => exact absurd rfl (hsend i o)
      | _ => contradiction
    | recvComplete frame status o =>
      cases status with
      | success =>
        obtain ⟨wr, hwr, rfl⟩ := Option.map_eq_some_iff.mp hid
        exact List.mem_map_of_mem (List.mem_of_mem_head? hwr)
      | _ => contradiction
    | _ => contradiction
  | _ => contradiction

end Touch

section Step

variable {m : Option LinkedTransport} {c : LinkedTransport} {t t' : HmrRdmaTransport}
  {e : LifecycleEvent}

/-- Only a tick reads the list. -/
theorem linkedStep_eq (htick : ∀ a, e ≠ .data (.tick a)) :
    linkedStep (some c) e = (lifecycleStep c.trans e).map (c.touch e) := by
  cases e with
  | data e =>
    cases e with
    | tick a => exact absurd rfl (htick a)
    | _ => rfl
  | _ => rfl

/-- A tick that does not return has overrun the arrays. -/
theorem hmrSendTaskHandler_stuck {a : Option ℕ} (h : (hmrSendTaskHandler a t).toOption = none) :
    maxSendWr + 1 < t.sendTaskList.length := by
  by_contra hfit
  unfold hmrSendTaskHandler at h
  split at h
  · contradiction
  · cases a <;> contradiction

/-- An event that the transport cannot take is none for the memory either. -/
theorem linkedStep_stuck (h : Holds m t) (hstep : lifecycleStep t e = none) :
    linkedStep m e = none := by
  obtain ⟨c, rfl, h⟩ := h
  by_cases htick : ∃ a, e = .data (.tick a)
  · obtain ⟨a, rfl⟩ := htick
    exact h.tick_stuck (hmrSendTaskHandler_stuck hstep)
  · have htick : ∀ a, e ≠ .data (.tick a) := fun a heq => htick ⟨a, heq⟩
    rw [h.step_eq htick, Option.map_eq_none_iff] at hstep
    rw [linkedStep_eq htick, hstep]
    rfl

/-- Every event does to the memory what it does to the list exactly if it meets the condition. -/
theorem linkedStep_iff (hids : TaskIds t) (h : Holds m t) (hstep : lifecycleStep t e = some t') :
    (∃ m', linkedStep m e = some m' ∧ Holds m' t') ↔ FreesUnlisted t e := by
  obtain ⟨c, rfl, h⟩ := h
  by_cases htick : ∃ a, e = .data (.tick a)
  · obtain ⟨a, rfl⟩ := htick
    obtain ⟨c', hc', hafter⟩ := h.tick (ok_of_toOption hstep)
    exact iff_of_true ⟨some c', hc', c', rfl, hafter⟩ trivial
  have htick : ∀ a, e ≠ .data (.tick a) := fun a heq => htick ⟨a, heq⟩
  rw [h.step_eq htick] at hstep
  obtain ⟨u, hu, rfl⟩ := Option.map_eq_some_iff.mp hstep
  have hlinked : (∃ m', linkedStep (some c) e = some m' ∧ Holds m' (u.behind t.sendTaskList)) ↔
      ∃ c', c.touch e u = some c' ∧ HoldsList c' (u.behind t.sendTaskList) := by
    rw [linkedStep_eq htick, hu]
    simp [Holds]
  rw [hlinked]
  by_cases hsend : ∃ i o, e = .data (.sendComplete i .success o)
  · obtain ⟨i, o, rfl⟩ := hsend
    exact h.sendComplete hids hu
  have hsend : ∀ i o, e ≠ .data (.sendComplete i .success o) := fun i o heq => hsend ⟨i, o, heq⟩
  have hfollow : followTask c.heads (completedTask c.trans e) = some c.heads := by
    refine h.follow fun id hid => ?_
    have hrecv : id ∈ t.recvIds := completedTask_recv hsend (by rwa [h.trans] at hid)
    exact ⟨hids.recvs id hrecv, fun hmem => hids.apart hrecv (freed_subset_sendIds t hmem)⟩
  refine iff_of_true ?_ (freesUnlisted_of_ne hsend)
  by_cases hsent : ∃ i status o, e = .data (.sendComplete i status o)
  · obtain ⟨i, status, o, rfl⟩ := hsent
    obtain ⟨wr, -, hpolled⟩ := dataStep_sendComplete hu
    rw [if_neg fun heq : status = .success => hsend i o (by rw [heq])] at hpolled
    subst hpolled
    exact h.emit hids (.nothing rfl rfl ⟨List.eraseIdx_subset, le_rfl⟩) rfl hfollow
  · obtain ⟨hemits, hfreed⟩ := lifecycleStep_emits htick
      (fun i status o heq => hsent ⟨i, status, o, heq⟩) hu
    exact h.emit hids hemits hfreed hfollow

/-- So from related states on the memory follows the list exactly while the events meet it. -/
theorem linkedStep_tracks (hids : TaskIds t) (h : Holds m t) (events : List LifecycleEvent) :
    Tracks linkedStep lifecycleStep Holds m t events ↔ Guarded lifecycleStep FreesUnlisted t events :=
  tracks_iff_guarded (I := TaskIds) (fun _ _ _ h hstep => h.step hstep)
    (fun _ _ _ _ h hstep => linkedStep_stuck h hstep)
    (fun _ _ _ _ hids h hstep => linkedStep_iff hids h hstep) hids h

/-- A new transport has no task. -/
theorem taskIds_create : TaskIds hmrRdmaCreate := by
  constructor <;> simp [HmrRdmaTransport.sendIds, HmrRdmaTransport.recvIds, hmrRdmaCreate]

/-- And an empty list in memory. -/
theorem holds_create : Holds (some linkedCreate) hmrRdmaCreate := by
  refine ⟨linkedCreate, rfl, rfl, ⟨?_, List.isChain_pair.mpr NodeHeap.link_joined, ?_⟩, ?_, ?_⟩
  all_goals simp [hmrRdmaCreate, linkedCreate]

end Step

/-- Through the life of a transport the list in memory follows the list of tasks if and only if no
task is freed twice or while it is listed. -/
theorem taskList_tracks_iff (events : List LifecycleEvent) :
    Tracks linkedStep lifecycleStep Holds (some linkedCreate) hmrRdmaCreate events ↔
      Guarded lifecycleStep FreesUnlisted hmrRdmaCreate events :=
  linkedStep_tracks taskIds_create holds_create events

end HmrRpc
