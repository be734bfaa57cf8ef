import HmrRpc.Transport

/-!
# Tasks (`hmr_task.c`, `hmr_utils.c`)

Creating a send task takes a range of the send ring and encodes the message there with
three copies; creating a receive task takes a range of the receive ring. The lengths go
from `int` to `size_t` and back exactly as the source writes them.
-/

namespace HmrRpc

open Common

/-- `hmr_get_opcode_from_task`. -/
def hmrGetOpcodeFromTask (task : HmrTask) : IbvWrOpcode :=
  match task.taskType with
  | .read => .rdmaRead
  | .write => .rdmaWrite
  | _ => .send

/-- A task is posted as a WRITE exactly when its type is WRITE. -/
theorem hmrGetOpcodeFromTask_eq_write {task : HmrTask} :
    hmrGetOpcodeFromTask task = .rdmaWrite ↔ task.taskType = .write := by
  unfold hmrGetOpcodeFromTask
  split <;> simp_all

/-- A `memcpy` into the pool's block: `n` bytes of `src` to `dst`. -/
structure MemCopy where
  dst : ℤ
  src : ℕ → UInt8
  n : ℕ

/-- Performing the copies in order. -/
def Memory.copyAll (m : Memory) (copies : List MemCopy) : Memory :=
  copies.foldl (fun m c => m.copy c.dst c.src c.n) m

/-- The three copies of `hmr_send_task_create`: type, size and data. -/
def sendTaskCopies (addr : ℤ) (msg : HmrMsg) : List MemCopy :=
  [⟨addr, leByte msg.msgType.toNat, sizeofMsgType⟩,
    ⟨addr + sizeofMsgType, leByte msg.dataSize.toUInt32.toNat, sizeofInt⟩,
    ⟨addr + sizeofMsgType + sizeofInt, msg.data, sizeT msg.dataSize.toInt⟩]

/-- `sge_list.length`: the sum is a `size_t`, stored back into an `int`. -/
def sendTaskLength (msg : HmrMsg) : ℤ :=
  cInt (sizeT (sizeofMsgType + sizeofInt + sizeT msg.dataSize.toInt))

/-- The pool after `hmr_send_task_create` took the message's range and filled it. -/
def HmrMempool.afterSendTask (pool : HmrMempool) (msg : HmrMsg) : HmrMempool :=
  let alloc := hmrMempoolAllocAddr pool (sendTaskLength msg) true
  { alloc.2 with memory := Memory.copyAll alloc.2.memory (sendTaskCopies alloc.1 msg) }

/-- The task `hmr_send_task_create` fills in; `calloc` leaves `task_type` zero, the MR type. -/
def sendTask (pool : HmrMempool) (msg : HmrMsg) (id : ℕ) : HmrTask where
  id := id
  taskType := .mr
  sgeList := ⟨(hmrMempoolAllocAddr pool (sendTaskLength msg) true).1, sendTaskLength msg,
    pool.sendMr.lkey⟩
  frame := msg.frame

/-- `hmr_send_task_create`, with `NULL` as `none`. -/
def hmrSendTaskCreate (o : Outcomes) (t : HmrRdmaTransport) (msg : HmrMsg) :
    Except Stop (Option HmrTask × HmrRdmaTransport) :=
  if o.sendCalloc then
    match t.normalMempool with
    | none => .error .nullDeref
    | some pool =>
      .ok (some (sendTask pool msg t.nextTask),
        { t with normalMempool := some (pool.afterSendTask msg), nextTask := t.nextTask + 1 })
  else .ok (none, t)

/-- The pool after `hmr_recv_task_create` took a receive range. -/
def HmrMempool.afterRecvTask (pool : HmrMempool) (size : ℤ) : HmrMempool :=
  (hmrMempoolAllocAddr pool size false).2

/-- The task `hmr_recv_task_create` fills in. -/
def recvTask (pool : HmrMempool) (size : ℤ) (id : ℕ) : HmrTask where
  id := id
  taskType := .mr
  sgeList := ⟨(hmrMempoolAllocAddr pool size false).1, size, pool.recvMr.lkey⟩
  frame := ⟨0, fun _ => 0⟩

/-- `hmr_recv_task_create`. -/
def hmrRecvTaskCreate (o : Outcomes) (t : HmrRdmaTransport) (size : ℤ) :
    Except Stop (Option HmrTask × HmrRdmaTransport) :=
  if o.recvCalloc then
    match t.normalMempool with
    | none => .error .nullDeref
    | some pool =>
      .ok (some (recvTask pool size t.nextTask),
        { t with normalMempool := some (pool.afterRecvTask size), nextTask := t.nextTask + 1 })
  else .ok (none, t)

@[simp] theorem afterSendTask_usedSendRegion (pool : HmrMempool) (msg : HmrMsg) :
    (pool.afterSendTask msg).usedSendRegion =
      (allocFrom pool.usedSendRegion (sendTaskLength msg)).2 := rfl

@[simp] theorem afterRecvTask_usedRecvRegion (pool : HmrMempool) (size : ℤ) :
    (pool.afterRecvTask size).usedRecvRegion = (allocFrom pool.usedRecvRegion size).2 := rfl

/-- A nonnegative size that keeps the frame an `int` gives the frame its exact length. -/
theorem sendTaskLength_eq {msg : HmrMsg} (hpos : 0 ≤ msg.dataSize.toInt)
    (hfit : 8 + msg.dataSize.toInt < 2 ^ 31) : sendTaskLength msg = 8 + msg.dataSize.toInt := by
  have hdata : (sizeT msg.dataSize.toInt : ℤ) = msg.dataSize.toInt :=
    sizeT_of_range hpos (by omega)
  have hsum : (sizeT (sizeofMsgType + sizeofInt + sizeT msg.dataSize.toInt) : ℤ) =
      8 + msg.dataSize.toInt := by
    rw [hdata]
    exact sizeT_of_range (by simp only [sizeofMsgType, sizeofInt]; omega)
      (by simp only [sizeofMsgType, sizeofInt]; omega)
  rw [sendTaskLength, hsum]
  exact cInt_of_range (by omega) hfit

/-- The encoded length of a message of nonnegative size. -/
theorem encodedLength_eq {msg : HmrMsg} (hpos : 0 ≤ msg.dataSize.toInt)
    (hfit : 8 + msg.dataSize.toInt < 2 ^ 31) :
    (msg.encodedLength : ℤ) = 8 + msg.dataSize.toInt := by
  have hdata : (sizeT msg.dataSize.toInt : ℤ) = msg.dataSize.toInt :=
    sizeT_of_range hpos (by omega)
  simp only [HmrMsg.encodedLength, sizeofMsgType, sizeofInt]
  push_cast
  omega

/-- The copies leave the whole encoded message at the task's address. -/
theorem copyAll_sendTask_inside (m : Memory) (addr : ℤ) (msg : HmrMsg) {i : ℕ}
    (hi : i < msg.encodedLength) :
    Memory.copyAll m (sendTaskCopies addr msg) (addr + i) = msg.byte i := by
  simp only [Memory.copyAll, sendTaskCopies, List.foldl_cons, List.foldl_nil]
  simp only [HmrMsg.encodedLength, sizeofMsgType, sizeofInt] at hi ⊢
  by_cases htype : i < 4
  · rw [Memory.copy_outside _ _ (by omega), Memory.copy_outside _ _ (by omega),
      Memory.copy_inside _ _ _ htype, msg.byte_type htype]
  · obtain ⟨j, rfl⟩ := Nat.exists_eq_add_of_le (Nat.le_of_not_lt htype)
    by_cases hsize : j < 4
    · have haddr : addr + ((4 + j : ℕ) : ℤ) = addr + (4 : ℕ) + (j : ℤ) := by omega
      rw [haddr, Memory.copy_outside _ _ (by omega), Memory.copy_inside _ _ _ hsize,
        msg.byte_size hsize]
    · obtain ⟨k, rfl⟩ := Nat.exists_eq_add_of_le (Nat.le_of_not_lt hsize)
      have haddr : addr + ((4 + (4 + k) : ℕ) : ℤ) = addr + (4 : ℕ) + (4 : ℕ) + (k : ℤ) := by omega
      have hindex : 4 + (4 + k) = 8 + k := by omega
      rw [haddr, Memory.copy_inside _ _ _ (by omega), hindex, msg.byte_data]

/-- The copies change nothing outside the encoded message. -/
theorem copyAll_sendTask_outside (m : Memory) {addr a : ℤ} (msg : HmrMsg)
    (ha : a < addr ∨ addr + msg.encodedLength ≤ a) :
    Memory.copyAll m (sendTaskCopies addr msg) a = m a := by
  simp only [Memory.copyAll, sendTaskCopies, List.foldl_cons, List.foldl_nil]
  simp only [HmrMsg.encodedLength, sizeofMsgType, sizeofInt] at ha
  push_cast at ha
  simp only [sizeofMsgType, sizeofInt]
  rw [Memory.copy_outside _ _ (by omega), Memory.copy_outside _ _ (by omega),
    Memory.copy_outside _ _ (by omega)]

end HmrRpc
