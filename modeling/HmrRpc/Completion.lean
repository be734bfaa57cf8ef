import HmrRpc.SendTaskHandler

/-!
# Receives and completions (`hmr_rdma_transport.c`)

Posting receive buffers, and the handlers of polled completions. A received frame
decides by its first word whether it is the peer's MR, part of the closing handshake, or
a message for `process_resp`; afterwards one receive is posted again. Send and WRITE
completions free their task.
-/

namespace HmrRpc

open Common

/-- The completion opcodes the handler tells apart. -/
inductive IbvWcOpcode
  | send | rdmaWrite | rdmaRead | recv | other
  deriving DecidableEq, Repr

/-- `enum ibv_wc_status`, as far as the handlers tell its values apart. -/
inductive IbvWcStatus
  | success | wrFlushErr | otherErr
  deriving DecidableEq, Repr

/-- `struct ibv_wc`. -/
structure IbvWc where
  wrId : HmrTask
  status : IbvWcStatus
  opcode : IbvWcOpcode

/-- The completion opcode of a send request. -/
def IbvWrOpcode.wcOpcode : IbvWrOpcode → IbvWcOpcode
  | .rdmaWrite => .rdmaWrite
  | .send => .send
  | .rdmaRead => .rdmaRead

/-- `hmr_post_recv`. -/
def hmrPostRecv (o : Outcomes) (t : HmrRdmaTransport) (size : ℤ) : Except Stop HmrRdmaTransport :=
  match hmrRecvTaskCreate o t size with
  | .error stop => .error stop
  | .ok (none, t) => .ok t
  | .ok (some task, t) => .ok (if o.recvPost then t.ibvPostRecv ⟨task, task.ibvSge⟩ else t)

/-- The loop of `hmr_pre_post_recv`, with the outcomes of each pass. -/
def postRecvs (o : ℕ → Outcomes) : ℕ → HmrRdmaTransport → Except Stop HmrRdmaTransport
  | 0, t => .ok t
  | n + 1, t => (postRecvs o n t).bind fun t => hmrPostRecv (o n) t t.defaultRecvSize

/-- The number of receives `hmr_pre_post_recv` posts for a buffer size. -/
def prePostCount (size : ℤ) : ℕ := (allocMemSize / size - 2).toNat

/-- `hmr_pre_post_recv`. -/
def hmrPrePostRecv (o : ℕ → Outcomes) (t : HmrRdmaTransport) : Except Stop HmrRdmaTransport :=
  postRecvs o (prePostCount t.defaultRecvSize) t

/-- The text of the DONE message. -/
def closingText : String := "the connection is closing."

/-- The message `hmr_handle_close_connection` answers a FINISH with. -/
def closingMsg : HmrMsg where
  msgType := .done
  dataSize := .ofNat (closingText.length + 1)
  data := fun i => ((closingText.toList[i]?).map fun c => UInt8.ofNat c.toNat).getD 0

/-- `hmr_handle_close_connection`. -/
def hmrHandleCloseConnection (o : Outcomes) (t : HmrRdmaTransport) (task : HmrTask)
    (opcode : IbvWcOpcode) : Except Stop HmrRdmaTransport :=
  if opcode = .recv ∧ task.taskType = .finish then
    if o.strdup then (hmrRdmaSend o t closingMsg).map Prod.snd else .error .nullDeref
  else if opcode = .send ∧ task.taskType = .done then
    .ok { t with disconnects := t.disconnects + 1 }
  else if opcode = .recv ∧ task.taskType = .done then
    .ok { t with disconnects := t.disconnects + 1 }
  else .ok t

/-- The message that carries an MR. -/
def mrMsg (mr : IbvMr) : HmrMsg where
  msgType := .mr
  dataSize := .ofNat sizeofIbvMr
  data := mr.byte

/-- `hmr_exchange_mr_info`. -/
def hmrExchangeMrInfo (o : Outcomes) (t : HmrRdmaTransport) : Except Stop HmrRdmaTransport :=
  match t.normalMempool with
  | none => .error .nullDeref
  | some pool => (hmrRdmaSend o t (mrMsg pool.rdmaMr)).map Prod.snd

/-- The bytes behind a task's buffer address, which lies in the transport's pool. -/
def HmrRdmaTransport.bufferBytes (t : HmrRdmaTransport) (task : HmrTask) :
    Except Stop (ℕ → UInt8) :=
  match t.normalMempool with
  | none => .error .nullDeref
  | some pool => .ok (pool.memory.bytesAt task.sgeList.addr)

/-- The RECV case of the switch: the task takes the received type, and the message goes to
`process_resp` unless it is an MR. -/
def HmrRdmaTransport.respond (t : HmrRdmaTransport) (taskType : HmrTaskType) (msg : HmrMsg) :
    HmrRdmaTransport :=
  if t.processResp ∧ taskType ≠ .mr then { t with responses := t.responses ++ [msg] } else t

/-- The transport with the MR of a received message copied into `peer_info`. -/
def HmrRdmaTransport.learnMr (t : HmrRdmaTransport) (msg : HmrMsg) : HmrRdmaTransport :=
  { t with
    peerInfo := ⟨0, IbvMr.decode msg.data⟩
    mrsReceived := t.mrsReceived + 1 }

/-- The part of the success handler for MR tasks. -/
def handleMr (o : Outcomes) (t : HmrRdmaTransport) (task : HmrTask) (opcode : IbvWcOpcode)
    (msg : HmrMsg) : Except Stop HmrRdmaTransport :=
  if task.taskType ≠ .mr then .ok t
  else if opcode = .send ∧ t.transState = .connected then .ok { t with transState := .sconnected }
  else if opcode = .recv then
    let t := t.learnMr msg
    let exchanged := if t.transState = .connected then hmrExchangeMrInfo o t else .ok t
    exchanged.map fun t => { t with transState := .rconnected }
  else .ok t

/-- The task type a received buffer starts with. -/
def receivedType (bytes : ℕ → UInt8) : HmrTaskType := .ofNat (ofLeBytes bytes sizeofMsgType)

/-- The part of the success handler for the closing handshake. -/
def closeConnection (o : Outcomes) (t : HmrRdmaTransport) (task : HmrTask)
    (opcode : IbvWcOpcode) : Except Stop HmrRdmaTransport :=
  if task.taskType.toNat ≥ HmrTaskType.finish.toNat then hmrHandleCloseConnection o t task opcode
  else .ok t

/-- `hmr_wc_success_handler` up to the repost: the switch, the closing handshake and the MR. -/
def wcSuccessBody (o : Outcomes) (t : HmrRdmaTransport) (wc : IbvWc) :
    Except Stop HmrRdmaTransport := do
  let bytes ← t.bufferBytes wc.wrId
  let msg := HmrMsg.decode bytes
  let task := if wc.opcode = .recv
    then { wc.wrId with taskType := receivedType bytes } else wc.wrId
  let t := if wc.opcode = .recv then t.respond task.taskType msg else t
  let t ← closeConnection o t task wc.opcode
  handleMr o t task wc.opcode msg

/-- `hmr_wc_success_handler`. -/
def hmrWcSuccessHandler (o : Outcomes) (t : HmrRdmaTransport) (wc : IbvWc) :
    Except Stop HmrRdmaTransport := do
  let t ← wcSuccessBody o t wc
  let t ← if wc.opcode = .recv then hmrPostRecv o t t.defaultRecvSize else .ok t
  .ok (if wc.opcode = .send ∨ wc.opcode = .rdmaWrite then t.freeTask wc.wrId else t)

/-- `hmr_wc_error_handler` only logs. -/
def hmrWcErrorHandler (t : HmrRdmaTransport) (_ : IbvWc) : HmrRdmaTransport := t

/-- The dispatch on the status in `hmr_cq_comp_channel_handler`. -/
def handleWc (o : Outcomes) (t : HmrRdmaTransport) (wc : IbvWc) : Except Stop HmrRdmaTransport :=
  if wc.status = .success then hmrWcSuccessHandler o t wc else .ok (hmrWcErrorHandler t wc)

end HmrRpc
