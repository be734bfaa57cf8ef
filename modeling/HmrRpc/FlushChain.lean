import HmrRpc.Common.Chain
import HmrRpc.RemoteCursor

/-!
# The chain of a flush

Element by element, what the loop of `hmr_send_task_handler` writes into its array: the
request for a task is filled with the cursor that the tasks before it leave. The links,
corrected behind the loop, visit the elements in order, so the chain that is posted
stands for the list exactly.
-/

namespace HmrRpc

open Common

/-- The array of requests as it is posted. -/
def HmrRdmaTransport.sendWrs (t : HmrRdmaTransport) : List IbvSendWr :=
  endChain (fillSendWrs t.peerInfo 0 t.sendTaskList).1

/-- Where the cursor stands when the loop comes to a task: behind the WRITE tasks before it. -/
def HmrRdmaTransport.cursorAt (t : HmrRdmaTransport) (i : ℕ) : ℤ :=
  t.peerInfo.usedNormalSize + writeBytes (t.sendTaskList.take i)

/-- The request stands for the task; a WRITE goes to an offset of the peer's region. -/
structure Represents (mr : IbvMr) (offset : ℤ) (task : HmrTask) (wr : IbvSendWr) : Prop where
  wrId : wr.wrId = task
  numSge : wr.numSge = 1
  sge : wr.sgList = ⟨task.sgeList.addr, cUInt32 task.sgeList.length, task.sgeList.lkey⟩
  opcode : wr.opcode = hmrGetOpcodeFromTask task
  signaled : wr.signaled
  target : task.taskType = .write →
    wr.rkey = mr.rkey ∧ wr.remoteAddr = (mr.addr.toNat + offset) % 2 ^ 64

/-- The requests linked from the first element on are as many as the tasks and stand for them in
order, and the cursor ends behind all WRITE tasks. -/
structure ExactFlush (t t' : HmrRdmaTransport) : Prop where
  linked : Linked (fun i => t.sendWrs[i]?.bind IbvSendWr.next) (some 0)
    (List.range t.sendTaskList.length)
  represents : ∀ (i : ℕ) (hi : i < t.sendTaskList.length), ∃ wr, t.sendWrs[i]? = some wr ∧
    Represents t.peerInfo.normalMr (t.cursorAt i) t.sendTaskList[i] wr
  cursor : t'.peerInfo.usedNormalSize = t.peerInfo.usedNormalSize + writeBytes t.sendTaskList

section Fill

variable (peer : HmrPeerInfo) (i : ℕ) (tasks : List HmrTask)

/-- Each element is filled with the cursor that the tasks before it leave. -/
theorem fillSendWrs_getElem? (j : ℕ) :
    (fillSendWrs peer i tasks).1[j]? = tasks[j]?.map fun task =>
      (fillSendWr (fillSendWrs peer i (tasks.take j)).2 (i + j) task).1 := by
  induction tasks generalizing peer i j with
  | nil => simp [fillSendWrs]
  | cons task rest ih =>
    cases j with
    | zero => rfl
    | succ j =>
      simp only [fillSendWrs, List.getElem?_cons_succ, List.take_succ_cons]
      rw [ih, Nat.add_right_comm, Nat.add_assoc i j 1]

/-- The request that one pass fills in stands for its task. -/
theorem fillSendWr_represents (task : HmrTask) :
    Represents peer.normalMr peer.usedNormalSize task (fillSendWr peer i task).1 where
  wrId := rfl
  numSge := rfl
  sge := rfl
  opcode := rfl
  signaled := rfl
  target htype := by
    have hopcode : hmrGetOpcodeFromTask task = .rdmaWrite := hmrGetOpcodeFromTask_eq_write.mpr htype
    simp [fillSendWr, hopcode]

end Fill

section Flush

variable (t : HmrRdmaTransport)

/-- The array has an element for each task. -/
theorem sendWrs_length : t.sendWrs.length = t.sendTaskList.length := by
  rw [HmrRdmaTransport.sendWrs, ← sendChain_eq, sendChain_length]

/-- Element by element, the array as it is posted. -/
theorem sendWrs_getElem? (i : ℕ) :
    t.sendWrs[i]? = t.sendTaskList[i]?.map fun task =>
      { (fillSendWr (fillSendWrs t.peerInfo 0 (t.sendTaskList.take i)).2 i task).1 with
        next := if i + 1 = t.sendTaskList.length then none else some (i + 1) } := by
  have hlength := congrArg List.length (fillSendWrs_wrId t.peerInfo 0 t.sendTaskList)
  rw [List.length_map] at hlength
  rw [HmrRdmaTransport.sendWrs, endChain, List.getElem?_modify, hlength, fillSendWrs_getElem?,
    zero_add]
  cases htask : t.sendTaskList[i]? with
  | none => rfl
  | some task =>
    obtain ⟨hi, -⟩ := List.getElem?_eq_some_iff.mp htask
    by_cases hlast : i + 1 = t.sendTaskList.length
    · simp [hlast, show t.sendTaskList.length - 1 = i by omega]
    · simp [hlast, show ¬t.sendTaskList.length - 1 = i by omega, fillSendWr]

/-- The links visit the elements in order and end behind the last. -/
theorem sendWrs_linked (hne : t.sendTaskList ≠ []) :
    Linked (fun i => t.sendWrs[i]?.bind IbvSendWr.next) (some 0)
      (List.range t.sendTaskList.length) := by
  obtain ⟨n, hn⟩ := Nat.exists_eq_succ_of_ne_zero
    (fun hzero => hne (List.length_eq_zero_iff.mp hzero))
  rw [hn, List.range_eq_range']
  refine linked_range' fun j _ hj => ?_
  have hj' : j < t.sendWrs.length := by rw [sendWrs_length]; omega
  have hnext : (t.sendWrs[j]).next = if j + 1 = t.sendWrs.length then none else some (j + 1) :=
    endChain_next
      (fun j hj => by rw [fillSendWrs_next t.peerInfo 0 t.sendTaskList j hj, zero_add]) hj'
  rw [List.getElem?_eq_getElem hj', Option.bind_some, hnext, sendWrs_length, hn, zero_add]
  simp only [Nat.succ_eq_add_one, Nat.add_right_cancel_iff]

variable {t}

/-- While the cursor stays an `int`, each element stands for its task. -/
theorem sendWrs_represents (hlo : -2 ^ 31 ≤ t.peerInfo.usedNormalSize)
    (hhi : t.peerInfo.usedNormalSize + writeBytes t.sendTaskList ≤ intMax) {i : ℕ}
    (hi : i < t.sendTaskList.length) : ∃ wr, t.sendWrs[i]? = some wr ∧
      Represents t.peerInfo.normalMr (t.cursorAt i) t.sendTaskList[i] wr := by
  have hsplit : writeBytes t.sendTaskList =
      writeBytes (t.sendTaskList.take i) + writeBytes (t.sendTaskList.drop i) := by
    simp only [writeBytes]
    rw [← List.sum_append, ← List.map_append, List.take_append_drop]
  have hcursor : (fillSendWrs t.peerInfo 0 (t.sendTaskList.take i)).2.usedNormalSize =
      t.cursorAt i := fillSendWrs_cursor 0 _ hlo (by omega)
  rw [sendWrs_getElem?, List.getElem?_eq_getElem hi]
  refine ⟨_, rfl, ?_⟩
  have hrepresents := fillSendWr_represents
    (fillSendWrs t.peerInfo 0 (t.sendTaskList.take i)).2 i t.sendTaskList[i]
  rw [fillSendWrs_normalMr, hcursor] at hrepresents
  exact ⟨hrepresents.wrId, hrepresents.numSge, hrepresents.sge, hrepresents.opcode,
    hrepresents.signaled, hrepresents.target⟩

end Flush

/-- Whatever the post accepts, a tick that fits its arrays and the cursor posts a chain that stands
for the list exactly. -/
theorem flush_exact {t : HmrRdmaTransport} (hne : t.sendTaskList ≠ [])
    (hfit : t.sendTaskList.length ≤ maxSendWr + 1) (hlo : -2 ^ 31 ≤ t.peerInfo.usedNormalSize)
    (hhi : t.peerInfo.usedNormalSize + writeBytes t.sendTaskList ≤ intMax)
    (accepted : Option ℕ) :
    ∃ t', hmrSendTaskHandler accepted t = .ok t' ∧ ExactFlush t t' ∧
      t'.qp.sendLog = t.qp.sendLog ++ t.sendWrs.take (accepted.getD t.sendTaskList.length) := by
  have hcursor := fillSendWrs_cursor 0 t.sendTaskList hlo hhi
  have hempty : t.sendTaskList.isEmpty = false := by simpa using hne
  have hchain : sendChain t.peerInfo t.sendTaskList = t.sendWrs := sendChain_eq _ _
  have hexact (t' : HmrRdmaTransport)
      (ht' : t'.peerInfo = (fillSendWrs t.peerInfo 0 t.sendTaskList).2) : ExactFlush t t' :=
    ⟨sendWrs_linked t hne, fun _ hi => sendWrs_represents hlo hhi hi, by rw [ht', hcursor]⟩
  simp only [hmrSendTaskHandler, hempty, Bool.false_eq_true, if_false, Nat.not_lt.mpr hfit, hchain]
  cases accepted with
  | none =>
    refine ⟨_, rfl, hexact _ rfl, ?_⟩
    rw [Option.getD_none, ← sendWrs_length, List.take_length]
    rfl
  | some k => exact ⟨_, rfl, hexact _ rfl, rfl⟩

/-- Three tasks on the sample transport's list. -/
def sampleQueue : HmrRdmaTransport :=
  { sampleTransport with
    sendTaskList := [⟨0, .write, ⟨0, 100, 1⟩, ⟨100, fun _ => 0⟩⟩,
      ⟨1, .normal, ⟨100, 16, 1⟩, ⟨16, fun _ => 0⟩⟩, ⟨2, .write, ⟨116, 50, 1⟩, ⟨50, fun _ => 0⟩⟩] }

/-- They are flushed by a post that accepts them all. -/
theorem flush_exact_sample :
    ∃ t', hmrSendTaskHandler none sampleQueue = .ok t' ∧ ExactFlush sampleQueue t' ∧
      t'.qp.sendLog = sampleQueue.qp.sendLog ++
        sampleQueue.sendWrs.take (none.getD sampleQueue.sendTaskList.length) :=
  flush_exact (by simp [sampleQueue]) (by decide) (by decide) (by decide) none

end HmrRpc
