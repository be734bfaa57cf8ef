import HmrRpc.Common.Bytes

/-!
# Constants, enumerations and messages

The declarations of `hmr_base.h`, `hmr_mem.h`, `hmr_rdma_transport.h` and `hmr_task.h`
that the modelled functions read. Enumerations that travel on the wire keep the values
outside their enumerators, since a received word can be any 32-bit number.

C integers are integers with explicit conversions: `cInt` and `cUInt32` for 32 bits and
`sizeT` for 64.
-/

namespace HmrRpc

open Common

/-- `ALLOC_MEM_SIZE`, the bytes of each region of a mempool. -/
def allocMemSize : ℤ := 1024

/-- `CQE_ALLOC_SIZE`, the completion queue entries asked for. -/
def cqeAllocSize : ℤ := 20

/-- `MAX_SEND_WR`; the arrays of `hmr_send_task_handler` have one element more. -/
def maxSendWr : ℕ := 256

/-- `MAX_RECV_SIZE`, the length of every receive buffer. -/
def maxRecvSize : ℤ := 128

/-- `sizeof(enum hmr_msg_type)`. -/
def sizeofMsgType : ℕ := 4

/-- `sizeof(int)`. -/
def sizeofInt : ℕ := 4

/-- `sizeof(struct ibv_mr)` with its four bytes of tail padding. -/
def sizeofIbvMr : ℕ := 48

/-- `INT_MAX`. -/
def intMax : ℤ := 2 ^ 31 - 1

/-- Conversion to `int`, modulo `2 ^ 32`. -/
def cInt (x : ℤ) : ℤ := (x + 2 ^ 31) % 2 ^ 32 - 2 ^ 31

/-- Conversion to `uint32_t`. -/
def cUInt32 (x : ℤ) : ℕ := (x % 2 ^ 32).toNat

/-- Conversion to `size_t`. -/
def sizeT (x : ℤ) : ℕ := (x % 2 ^ 64).toNat

/-- An `int` value is unchanged by the conversion. -/
theorem cInt_of_range {x : ℤ} (hlo : -2 ^ 31 ≤ x) (hhi : x < 2 ^ 31) : cInt x = x := by
  unfold cInt
  omega

/-- The conversion always gives an `int` value. -/
theorem cInt_range (x : ℤ) : -2 ^ 31 ≤ cInt x ∧ cInt x < 2 ^ 31 := by
  unfold cInt
  omega

/-- A nonnegative `int` value is unchanged by conversion to `uint32_t`. -/
theorem cUInt32_of_range {x : ℤ} (hlo : 0 ≤ x) (hhi : x < 2 ^ 32) : (cUInt32 x : ℤ) = x := by
  unfold cUInt32
  omega

/-- A nonnegative 64-bit value is unchanged by conversion to `size_t`. -/
theorem sizeT_of_range {x : ℤ} (hlo : 0 ≤ x) (hhi : x < 2 ^ 64) : (sizeT x : ℤ) = x := by
  unfold sizeT
  omega

/-- `enum hmr_msg_type`; `other v` is the value `v + 6`. -/
inductive HmrMsgType
  | mr | normal | read | write | finish | done
  | other (v : Fin 4294967290)
  deriving DecidableEq, Repr

/-- `enum hmr_task_type`; `other v` is the value `v + 6`. -/
inductive HmrTaskType
  | mr | normal | read | write | finish | done
  | other (v : Fin 4294967290)
  deriving DecidableEq, Repr

/-- The number of a message type. -/
def HmrMsgType.toNat : HmrMsgType → ℕ
  | .mr => 0 | .normal => 1 | .read => 2 | .write => 3 | .finish => 4 | .done => 5
  | .other v => v + 6

/-- The number of a task type. -/
def HmrTaskType.toNat : HmrTaskType → ℕ
  | .mr => 0 | .normal => 1 | .read => 2 | .write => 3 | .finish => 4 | .done => 5
  | .other v => v + 6

/-- The message type with a given 32-bit number. -/
def HmrMsgType.ofNat : ℕ → HmrMsgType
  | 0 => .mr | 1 => .normal | 2 => .read | 3 => .write | 4 => .finish | 5 => .done
  | n + 6 => .other (Fin.ofNat _ n)

/-- The task type with a given 32-bit number. -/
def HmrTaskType.ofNat : ℕ → HmrTaskType
  | 0 => .mr | 1 => .normal | 2 => .read | 3 => .write | 4 => .finish | 5 => .done
  | n + 6 => .other (Fin.ofNat _ n)

/-- A message type fits its four bytes. -/
theorem HmrMsgType.toNat_lt (t : HmrMsgType) : t.toNat < 256 ^ 4 := by
  cases t with
  | other v => simp only [HmrMsgType.toNat]; omega
  | _ => decide

/-- The cast from a message type to a task type, as in `task_type=msg->msg_type`. -/
def HmrTaskType.ofMsgType (t : HmrMsgType) : HmrTaskType := .ofNat t.toNat

/-- Only the MR message type casts to the MR task type. -/
theorem HmrTaskType.ofMsgType_eq_mr {t : HmrMsgType} : HmrTaskType.ofMsgType t = .mr ↔ t = .mr := by
  cases t <;> simp [HmrTaskType.ofMsgType, HmrMsgType.toNat, HmrTaskType.ofNat]

/-- Only the WRITE message type casts to the WRITE task type. -/
theorem HmrTaskType.ofMsgType_eq_write {t : HmrMsgType} :
    HmrTaskType.ofMsgType t = .write ↔ t = .write := by
  cases t <;> simp [HmrTaskType.ofMsgType, HmrMsgType.toNat, HmrTaskType.ofNat]

/-- A message type is the one with its number. -/
theorem HmrMsgType.ofNat_toNat (t : HmrMsgType) : HmrMsgType.ofNat t.toNat = t := by
  cases t with
  | other v => exact congrArg HmrMsgType.other (Fin.ofNat_val_eq_self v)
  | _ => rfl

/-- The cast keeps the number. -/
theorem HmrTaskType.toNat_ofMsgType (t : HmrMsgType) :
    (HmrTaskType.ofMsgType t).toNat = t.toNat := by
  cases t with
  | other v => exact congrArg (fun v : Fin 4294967290 => (v : ℕ) + 6) (Fin.ofNat_val_eq_self v)
  | _ => rfl

/-- Different message types cast to different task types. -/
theorem HmrTaskType.ofMsgType_inj {s t : HmrMsgType} :
    HmrTaskType.ofMsgType s = .ofMsgType t ↔ s = t := by
  refine ⟨fun h => ?_, fun h => h ▸ rfl⟩
  have hnat := congrArg HmrTaskType.toNat h
  rw [HmrTaskType.toNat_ofMsgType, HmrTaskType.toNat_ofMsgType] at hnat
  rw [← HmrMsgType.ofNat_toNat s, hnat, HmrMsgType.ofNat_toNat]

/-- `enum hmr_rdma_transport_state`. -/
inductive HmrRdmaTransportState
  | init | listen | connecting | connected | sconnected | rconnected
  | disconnected | reconnect | closed | destroyed | error
  deriving DecidableEq, Repr

/-- The number of a transport state, which `hmr_msg_check` compares. -/
def HmrRdmaTransportState.toNat : HmrRdmaTransportState → ℕ
  | .init => 0 | .listen => 1 | .connecting => 2 | .connected => 3 | .sconnected => 4
  | .rconnected => 5 | .disconnected => 6 | .reconnect => 7 | .closed => 8 | .destroyed => 9
  | .error => 10

/-- `struct hmr_msg`; `data` gives the bytes behind the data pointer. -/
structure HmrMsg where
  msgType : HmrMsgType
  dataSize : Int32
  data : ℕ → UInt8

/-- The bytes a message is encoded to: type, size and data. -/
def HmrMsg.byte (msg : HmrMsg) (i : ℕ) : UInt8 :=
  if i < sizeofMsgType then leByte msg.msgType.toNat i
  else if i < sizeofMsgType + sizeofInt then leByte msg.dataSize.toUInt32.toNat (i - sizeofMsgType)
  else msg.data (i - (sizeofMsgType + sizeofInt))

/-- The first four bytes hold the type. -/
theorem HmrMsg.byte_type (msg : HmrMsg) {i : ℕ} (hi : i < 4) :
    msg.byte i = leByte msg.msgType.toNat i := if_pos hi

/-- The next four hold the size. -/
theorem HmrMsg.byte_size (msg : HmrMsg) {j : ℕ} (hj : j < 4) :
    msg.byte (4 + j) = leByte msg.dataSize.toUInt32.toNat j := by
  have hlo : ¬4 + j < sizeofMsgType := by simp only [sizeofMsgType]; omega
  have hhi : 4 + j < sizeofMsgType + sizeofInt := by simp only [sizeofMsgType, sizeofInt]; omega
  rw [HmrMsg.byte, if_neg hlo, if_pos hhi]
  exact congrArg _ (Nat.add_sub_cancel_left 4 j)

/-- The data follows. -/
theorem HmrMsg.byte_data (msg : HmrMsg) (j : ℕ) : msg.byte (8 + j) = msg.data j := by
  have hlo : ¬8 + j < sizeofMsgType := by simp only [sizeofMsgType]; omega
  have hhi : ¬8 + j < sizeofMsgType + sizeofInt := by simp only [sizeofMsgType, sizeofInt]; omega
  rw [HmrMsg.byte, if_neg hlo, if_neg hhi]
  exact congrArg _ (Nat.add_sub_cancel_left 8 j)

/-- The number of bytes a message is encoded to. -/
def HmrMsg.encodedLength (msg : HmrMsg) : ℕ :=
  sizeofMsgType + sizeofInt + sizeT msg.dataSize.toInt

/-- Decoding as `hmr_wc_success_handler` does, from the bytes of a buffer. -/
def HmrMsg.decode (bytes : ℕ → UInt8) : HmrMsg where
  msgType := .ofNat (ofLeBytes bytes sizeofMsgType)
  dataSize := (UInt32.ofNat (ofLeBytes (fun i => bytes (sizeofMsgType + i)) sizeofInt)).toInt32
  data := fun i => bytes (sizeofMsgType + sizeofInt + i)

/-- `struct ibv_mr`. -/
structure IbvMr where
  context : UInt64
  pd : UInt64
  addr : UInt64
  length : UInt64
  handle : UInt32
  lkey : UInt32
  rkey : UInt32
  deriving DecidableEq, Repr

/-- The bytes of a `struct ibv_mr` in memory; the tail padding reads zero. -/
def IbvMr.byte (mr : IbvMr) (i : ℕ) : UInt8 :=
  if i < 8 then leByte mr.context.toNat i
  else if i < 16 then leByte mr.pd.toNat (i - 8)
  else if i < 24 then leByte mr.addr.toNat (i - 16)
  else if i < 32 then leByte mr.length.toNat (i - 24)
  else if i < 36 then leByte mr.handle.toNat (i - 32)
  else if i < 40 then leByte mr.lkey.toNat (i - 36)
  else if i < 44 then leByte mr.rkey.toNat (i - 40)
  else 0

/-- The `struct ibv_mr` that a `memcpy` from the bytes leaves. -/
def IbvMr.decode (bytes : ℕ → UInt8) : IbvMr where
  context := .ofNat (ofLeBytes bytes 8)
  pd := .ofNat (ofLeBytes (fun i => bytes (8 + i)) 8)
  addr := .ofNat (ofLeBytes (fun i => bytes (16 + i)) 8)
  length := .ofNat (ofLeBytes (fun i => bytes (24 + i)) 8)
  handle := .ofNat (ofLeBytes (fun i => bytes (32 + i)) 4)
  lkey := .ofNat (ofLeBytes (fun i => bytes (36 + i)) 4)
  rkey := .ofNat (ofLeBytes (fun i => bytes (40 + i)) 4)

/-- Copying a `struct ibv_mr` byte by byte keeps every field. -/
theorem IbvMr.decode_of_bytes {mr : IbvMr} {bytes : ℕ → UInt8}
    (h : ∀ i < sizeofIbvMr, bytes i = mr.byte i) : IbvMr.decode bytes = mr := by
  have word (offset k n : ℕ) (hk : offset + k ≤ sizeofIbvMr) (hn : n < 256 ^ k)
      (hbyte : ∀ i < k, mr.byte (offset + i) = leByte n i) :
      ofLeBytes (fun i => bytes (offset + i)) k = n := by
    apply ofLeBytes_of_eq hn
    intro i hi
    rw [h _ (by omega), hbyte i hi]
  have hcontext := word 0 8 mr.context.toNat (by decide) mr.context.toNat_lt fun i hi => by
    simp (disch := omega) only [IbvMr.byte, if_pos, zero_add]
  have hpd := word 8 8 mr.pd.toNat (by decide) mr.pd.toNat_lt fun i hi => by
    simp (disch := omega) only [IbvMr.byte, if_pos, if_neg, Nat.add_sub_cancel_left]
  have haddr := word 16 8 mr.addr.toNat (by decide) mr.addr.toNat_lt fun i hi => by
    simp (disch := omega) only [IbvMr.byte, if_pos, if_neg, Nat.add_sub_cancel_left]
  have hlength := word 24 8 mr.length.toNat (by decide) mr.length.toNat_lt fun i hi => by
    simp (disch := omega) only [IbvMr.byte, if_pos, if_neg, Nat.add_sub_cancel_left]
  have hhandle := word 32 4 mr.handle.toNat (by decide) mr.handle.toNat_lt fun i hi => by
    simp (disch := omega) only [IbvMr.byte, if_pos, if_neg, Nat.add_sub_cancel_left]
  have hlkey := word 36 4 mr.lkey.toNat (by decide) mr.lkey.toNat_lt fun i hi => by
    simp (disch := omega) only [IbvMr.byte, if_pos, if_neg, Nat.add_sub_cancel_left]
  have hrkey := word 40 4 mr.rkey.toNat (by decide) mr.rkey.toNat_lt fun i hi => by
    simp (disch := omega) only [IbvMr.byte, if_pos, if_neg, Nat.add_sub_cancel_left]
  simp only [zero_add] at hcontext
  simp only [IbvMr.decode, hcontext, hpd, haddr, hlength, hhandle, hlkey, hrkey,
    UInt64.ofNat_toNat, UInt32.ofNat_toNat]

end HmrRpc
