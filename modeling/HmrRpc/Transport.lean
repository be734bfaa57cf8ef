import HmrRpc.Mempool

/-!
# Tasks, work requests and the transport

The state a transport's functions work on: `struct hmr_task`, the verbs work requests,
the queue pair and `struct hmr_rdma_transport`. A work request's `wr_id` is the task
itself, as the pointer in the source is only ever followed.

The queue pair keeps what the verbs layer holds for the program: the posted requests
whose completion has not been polled, and the frames on their way to the peer, as their
buffers were when they were posted. As history it keeps the same frames as they were
encoded, and every send request it accepted.
-/

namespace HmrRpc

open Common

/-- Why a modelled call does not return. -/
inductive Stop
  /-- The busy-wait of `hmr_msg_check` in a state that does not end it. -/
  | spins
  /-- A null pointer is followed. -/
  | nullDeref
  /-- A stack array is written past its end. -/
  | overrun
  deriving DecidableEq, Repr

/-- `struct hmr_sge`. -/
structure HmrSge where
  addr : ℤ
  length : ℤ
  lkey : UInt32

/-- Bytes travelling between the peers. -/
structure Frame where
  length : ℕ
  byte : ℕ → UInt8

/-- The frame holds the bytes of the other. -/
structure Frame.Carries (frame encoded : Frame) : Prop where
  length : frame.length = encoded.length
  byte : ∀ i < encoded.length, frame.byte i = encoded.byte i

/-- The frame of an encoded message. -/
def HmrMsg.frame (msg : HmrMsg) : Frame := ⟨msg.encodedLength, msg.byte⟩

/-- `struct hmr_task`. `id` is its address, fresh at each `calloc`, and `frame` is what
`hmr_send_task_create` encoded for it, kept to compare the buffer with. -/
structure HmrTask where
  id : ℕ
  taskType : HmrTaskType
  sgeList : HmrSge
  frame : Frame

/-- `struct ibv_sge`. -/
structure IbvSge where
  addr : ℤ
  length : ℕ
  lkey : UInt32

/-- The work request opcodes in use. -/
inductive IbvWrOpcode
  | rdmaWrite | send | rdmaRead
  deriving DecidableEq, Repr

/-- `struct ibv_send_wr` with its one scatter element; `next` is an index into the array
of requests. -/
structure IbvSendWr where
  wrId : HmrTask
  next : Option ℕ
  sgList : IbvSge
  numSge : ℕ
  opcode : IbvWrOpcode
  signaled : Bool
  remoteAddr : ℤ
  rkey : UInt32

/-- `struct ibv_recv_wr` with its one scatter element. -/
structure IbvRecvWr where
  wrId : HmrTask
  sgList : IbvSge

/-- The life of a library object: not created, usable, destroyed. -/
inductive Resource
  | absent | live | gone
  deriving DecidableEq, Repr

/-- The queue pair: posted requests, frames under way, and the accepted send requests.

`wire` has the bytes of the posted buffers. `encoded` is history: the frames of the same requests
as `hmr_send_task_create` encoded them, which nothing on the wire is made from. -/
structure IbvQp where
  status : Resource
  sq : List IbvSendWr
  rq : List IbvRecvWr
  wire : List Frame
  encoded : List Frame
  sendLog : List IbvSendWr

/-- The frames under way, as posted and as encoded. -/
def IbvQp.underWay (qp : IbvQp) : List Frame × List Frame := (qp.wire, qp.encoded)

/-- `struct hmr_peer_info`. -/
structure HmrPeerInfo where
  usedNormalSize : ℤ
  normalMr : IbvMr

/-- `struct hmr_rdma_transport`, with the task heap and the calls made on its behalf.

`nextTask` and `freedTasks` are the tasks allocated and freed so far, `responses` the
messages handed to `process_resp`, `disconnects` the calls of `rdma_disconnect`, and
`mrsReceived` the MR messages handled. -/
structure HmrRdmaTransport where
  transState : HmrRdmaTransportState
  isClient : Bool
  peerInfo : HmrPeerInfo
  normalMempool : Option HmrMempool
  defaultRecvSize : ℤ
  sendTaskList : List HmrTask
  processResp : Bool
  qp : IbvQp
  nextTask : ℕ
  freedTasks : List ℕ
  responses : List HmrMsg
  disconnects : ℕ
  mrsReceived : ℕ

/-- The MR of the transport's own region, which it announces to its peer. -/
def HmrRdmaTransport.ownMr (t : HmrRdmaTransport) : Option IbvMr :=
  t.normalMempool.map HmrMempool.rdmaMr

/-- The WRITE requests posted so far. -/
def HmrRdmaTransport.remoteWrites (t : HmrRdmaTransport) : List IbvSendWr :=
  t.qp.sendLog.filter fun wr => wr.opcode = .rdmaWrite

/-- What only receives, the closing handshake and the application's setting of `process_resp`
change. -/
def HmrRdmaTransport.receiverSide (t : HmrRdmaTransport) : List HmrMsg × Bool × ℕ × Resource :=
  (t.responses, t.processResp, t.disconnects, t.qp.status)

/-- `hmr_rdma_create`. -/
def hmrRdmaCreate : HmrRdmaTransport where
  transState := .init
  isClient := false
  peerInfo := ⟨0, ⟨0, 0, 0, 0, 0, 0, 0⟩⟩
  normalMempool := none
  defaultRecvSize := maxRecvSize
  sendTaskList := []
  processResp := false
  qp := ⟨.absent, [], [], [], [], []⟩
  nextTask := 0
  freedTasks := []
  responses := []
  disconnects := 0
  mrsReceived := 0

/-- The results of the library calls a handler makes. -/
structure Outcomes where
  sendCalloc : Bool
  sendPost : Bool
  recvCalloc : Bool
  recvPost : Bool
  strdup : Bool

/-- Every library call succeeds. -/
def Outcomes.ok : Outcomes := ⟨true, true, true, true, true⟩

/-- The bytes the HCA reads for a request: those of its scatter element, as they are now. -/
def HmrMempool.hcaRead (pool : HmrMempool) (wr : IbvSendWr) : Frame :=
  ⟨wr.sgList.length, pool.memory.bytesAt wr.sgList.addr⟩

/-- It reads from the transport's pool. -/
def HmrRdmaTransport.hcaRead (t : HmrRdmaTransport) (wr : IbvSendWr) : Option Frame :=
  t.normalMempool.map fun pool => pool.hcaRead wr

/-- The frame a send request puts on the wire; one-sided requests bypass the peer's program. -/
def IbvSendWr.wireFrame (pool : Option HmrMempool) (wr : IbvSendWr) : Option Frame :=
  if wr.opcode = .send then pool.map fun pool => pool.hcaRead wr else none

/-- The same frame as its message was encoded, for the history. -/
def IbvSendWr.encodedFrame (wr : IbvSendWr) : Option Frame :=
  if wr.opcode = .send then some wr.wrId.frame else none

/-- `ibv_post_send` accepting a chain of requests. -/
def HmrRdmaTransport.ibvPostSend (t : HmrRdmaTransport) (chain : List IbvSendWr) :
    HmrRdmaTransport :=
  { t with qp := { t.qp with
      sq := t.qp.sq ++ chain
      wire := t.qp.wire ++ chain.filterMap (IbvSendWr.wireFrame t.normalMempool)
      encoded := t.qp.encoded ++ chain.filterMap IbvSendWr.encodedFrame
      sendLog := t.qp.sendLog ++ chain } }

/-- `ibv_post_recv` accepting one request. -/
def HmrRdmaTransport.ibvPostRecv (t : HmrRdmaTransport) (wr : IbvRecvWr) : HmrRdmaTransport :=
  { t with qp := { t.qp with rq := t.qp.rq ++ [wr] } }

/-- `free(task)`. -/
def HmrRdmaTransport.freeTask (t : HmrRdmaTransport) (task : HmrTask) : HmrRdmaTransport :=
  { t with freedTasks := t.freedTasks ++ [task.id] }

/-- The HCA placing a received frame into a buffer of the pool. -/
def HmrRdmaTransport.hcaWrite (t : HmrRdmaTransport) (addr : ℤ) (frame : Frame) :
    HmrRdmaTransport :=
  { t with normalMempool := t.normalMempool.map fun pool =>
      { pool with memory := pool.memory.copy addr frame.byte frame.length } }

/-- The peer has taken the first frame off the wire. -/
def HmrRdmaTransport.wireTaken (t : HmrRdmaTransport) : HmrRdmaTransport :=
  { t with qp := { t.qp with wire := t.qp.wire.tail, encoded := t.qp.encoded.tail } }

end HmrRpc
