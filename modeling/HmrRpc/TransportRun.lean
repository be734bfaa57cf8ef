import HmrRpc.Common.Run
import HmrRpc.CompletionResult

/-!
# Runs of one transport

The events of a connected transport: calls of `hmr_rdma_send`, ticks of the send timer,
and polled completions. Completions of the send queue are allowed in any order;
receives complete in posting order. A frame reaches the buffer of the oldest posted
receive before its completion is handled. An event that does not return is no step.
-/

namespace HmrRpc

open Common

/-- An event of a connected transport, with the outcomes of the library calls it makes. -/
inductive DataEvent
  /-- A call of `hmr_rdma_send`. -/
  | send (msg : HmrMsg) (o : Outcomes)
  /-- A tick of the send timer; the post accepts the whole chain or a prefix. -/
  | tick (accepted : Option ℕ)
  /-- The completion of the `i`-th outstanding send request. -/
  | sendComplete (i : ℕ) (status : IbvWcStatus) (o : Outcomes)
  /-- The completion of the oldest outstanding receive, with the frame it took. -/
  | recvComplete (frame : Frame) (status : IbvWcStatus) (o : Outcomes)

/-- The transport once the completion of its `i`-th send request is polled. -/
def HmrRdmaTransport.pollSend (t : HmrRdmaTransport) (i : ℕ) : HmrRdmaTransport :=
  { t with qp := { t.qp with sq := t.qp.sq.eraseIdx i } }

/-- The transport once the completion of its oldest receive is polled. -/
def HmrRdmaTransport.pollRecv (t : HmrRdmaTransport) : HmrRdmaTransport :=
  { t with qp := { t.qp with rq := t.qp.rq.tail } }

/-- One event of a connected transport. -/
def dataStep (t : HmrRdmaTransport) : DataEvent → Option HmrRdmaTransport
  | .send msg o => (hmrRdmaSend o t msg).toOption.map Prod.snd
  | .tick accepted => (hmrSendTaskHandler accepted t).toOption
  | .sendComplete i status o =>
    t.qp.sq[i]?.bind fun wr =>
      (handleWc o (t.pollSend i) ⟨wr.wrId, status, wr.opcode.wcOpcode⟩).toOption
  | .recvComplete frame status o =>
    t.qp.rq.head?.bind fun wr =>
      let t := if status = .success then t.pollRecv.hcaWrite wr.sgList.addr frame else t.pollRecv
      (handleWc o t ⟨wr.wrId, status, .recv⟩).toOption

/-- An event of a transport: receives posted up front, or an event of the connection. -/
inductive RunEvent
  | prePost (o : ℕ → Outcomes)
  | data (e : DataEvent)

/-- One event of a transport. -/
def runStep (t : HmrRdmaTransport) : RunEvent → Option HmrRdmaTransport
  | .prePost o => (hmrPrePostRecv o t).toOption
  | .data e => dataStep t e

/-- A computation with a value as an option returned that value. -/
theorem ok_of_toOption {A : Type*} {x : Except Stop A} {a : A}
    (h : x.toOption = some a) : x = .ok a := by
  cases x with
  | error stop => contradiction
  | ok b => rw [Option.some.inj h]

section Steps

variable {t t' : HmrRdmaTransport} {o : Outcomes}

/-- A send step is a returning call of `hmr_rdma_send`. -/
theorem dataStep_send {msg : HmrMsg} (h : dataStep t (.send msg o) = some t') :
    ∃ r, SendResult o t msg r t' := by
  obtain ⟨⟨r, u⟩, hsend, rfl⟩ := Option.map_eq_some_iff.mp h
  exact ⟨r, hmrRdmaSend_cases (ok_of_toOption hsend)⟩

/-- A tick step is a returning tick. -/
theorem dataStep_tick {a : Option ℕ} (h : dataStep t (.tick a) = some t') : TickResult t a t' :=
  hmrSendTaskHandler_cases (ok_of_toOption h)

/-- The completion opcode of a send request is never RECV. -/
theorem wcOpcode_ne_recv (opcode : IbvWrOpcode) : opcode.wcOpcode ≠ .recv := by
  cases opcode <;> simp [IbvWrOpcode.wcOpcode]

/-- A send completion takes its request out of the queue, and a successful one is handled. -/
theorem dataStep_sendComplete {i : ℕ} {status : IbvWcStatus}
    (h : dataStep t (.sendComplete i status o) = some t') :
    ∃ wr, t.qp.sq[i]? = some wr ∧
      t' = if status = .success then (t.pollSend i).sendCompleted wr.wrId wr.opcode.wcOpcode
        else t.pollSend i := by
  obtain ⟨wr, hwr, h⟩ := Option.bind_eq_some_iff.mp h
  refine ⟨wr, hwr, ?_⟩
  have h := ok_of_toOption h
  unfold handleWc at h
  split at h
  · rename_i hstatus
    rw [if_pos hstatus]
    exact hmrWcSuccessHandler_sent (wcOpcode_ne_recv _) h
  · rename_i hstatus
    rw [if_neg hstatus]
    exact (Except.ok.inj h).symm

/-- A send completion leaves the pool, the list and the peer's information, and takes one request
off the queue. -/
theorem dataStep_sendComplete_frame {i : ℕ} {status : IbvWcStatus}
    (h : dataStep t (.sendComplete i status o) = some t') :
    t'.normalMempool = t.normalMempool ∧ t'.sendTaskList = t.sendTaskList ∧
      t'.peerInfo = t.peerInfo ∧ t'.qp = (t.pollSend i).qp := by
  obtain ⟨wr, -, rfl⟩ := dataStep_sendComplete h
  split
  · simp [HmrRdmaTransport.pollSend]
  · exact ⟨rfl, rfl, rfl, rfl⟩

/-- A send completion keeps the role, handles no message and moves at most from CONNECTED to
SCONNECTED. -/
theorem dataStep_sendComplete_state {i : ℕ} {status : IbvWcStatus}
    (h : dataStep t (.sendComplete i status o) = some t') :
    t'.isClient = t.isClient ∧ t'.mrsReceived = t.mrsReceived ∧ (t'.transState = t.transState ∨
      (t.transState = .connected ∧ t'.transState = .sconnected)) := by
  obtain ⟨wr, -, rfl⟩ := dataStep_sendComplete h
  split
  · exact ⟨sendCompleted_isClient _ _ _, sendCompleted_mrsReceived _ _ _,
      sendCompleted_transState (t.pollSend i) _ _⟩
  · exact ⟨rfl, rfl, .inl rfl⟩

/-- What a receive completion with a given frame did. -/
inductive RecvResult (o : Outcomes) (t : HmrRdmaTransport) (frame : Frame) :
    IbvWcStatus → HmrRdmaTransport → Prop
  | flushed (wr : IbvRecvWr) (status : IbvWcStatus) (hhead : t.qp.rq.head? = some wr)
      (hstatus : status ≠ .success) : RecvResult o t frame status t.pollRecv
  | received (wr : IbvRecvWr) (pool : HmrMempool) (u t' : HmrRdmaTransport)
      (hhead : t.qp.rq.head? = some wr)
      (hpool : (t.pollRecv.hcaWrite wr.sgList.addr frame).normalMempool = some pool)
      (hbody : RecvBody o (t.pollRecv.hcaWrite wr.sgList.addr frame)
        (pool.memory.bytesAt wr.wrId.sgeList.addr)
        (receivedType (pool.memory.bytesAt wr.wrId.sgeList.addr)) u)
      (hrepost : PostRecvResult o u u.defaultRecvSize t') : RecvResult o t frame .success t'

/-- Every step of a receive completion is one of the listed results. -/
theorem dataStep_recvComplete {frame : Frame} {status : IbvWcStatus}
    (h : dataStep t (.recvComplete frame status o) = some t') :
    RecvResult o t frame status t' := by
  obtain ⟨wr, hhead, h⟩ := Option.bind_eq_some_iff.mp h
  have h := ok_of_toOption h
  unfold handleWc at h
  by_cases hstatus : status = .success
  · subst hstatus
    obtain ⟨pool, u, hpool, hbody, hrepost⟩ := hmrWcSuccessHandler_recv h
    exact .received wr pool u t' hhead hpool hbody hrepost
  · simp only [hstatus, if_false] at h
    obtain rfl := Except.ok.inj h
    exact .flushed wr status hhead hstatus

end Steps

/-- The MRs handled are never forgotten. -/
theorem dataStep_mrsReceived_le {t t' : HmrRdmaTransport} {e : DataEvent}
    (hstep : dataStep t e = some t') : t.mrsReceived ≤ t'.mrsReceived := by
  cases e with
  | send msg o =>
    obtain ⟨r, hsend⟩ := dataStep_send hstep
    exact hsend.mrsReceived.ge
  | tick a => cases dataStep_tick hstep <;> exact le_rfl
  | sendComplete i status o => exact (dataStep_sendComplete_state hstep).2.1.ge
  | recvComplete frame status o =>
    cases dataStep_recvComplete hstep with
    | flushed => exact le_rfl
    | received wr pool u _ _ _ hbody hrepost =>
      rw [hrepost.mrsReceived, hbody.mrsReceived]
      exact Nat.le_add_right _ _

/-- An event of one transport keeps its MR. -/
theorem dataStep_ownMr {t t' : HmrRdmaTransport} {e : DataEvent} (hstep : dataStep t e = some t') :
    t'.ownMr = t.ownMr := by
  cases e with
  | send msg o =>
    obtain ⟨r, hsend⟩ := dataStep_send hstep
    exact hsend.ownMr
  | tick a => cases dataStep_tick hstep <;> rfl
  | sendComplete i status o =>
    rw [HmrRdmaTransport.ownMr, (dataStep_sendComplete_frame hstep).1, HmrRdmaTransport.ownMr]
  | recvComplete frame status o =>
    cases dataStep_recvComplete hstep with
    | flushed => rfl
    | received wr pool u _ _ _ hbody hrepost =>
      rw [hrepost.ownMr, hbody.ownMr]
      simp only [HmrRdmaTransport.ownMr, HmrRdmaTransport.hcaWrite, Option.map_map]
      rfl

/-- An event of one transport keeps its role. -/
theorem dataStep_isClient {t t' : HmrRdmaTransport} {e : DataEvent}
    (hstep : dataStep t e = some t') : t'.isClient = t.isClient := by
  cases e with
  | send msg o =>
    obtain ⟨r, hsend⟩ := dataStep_send hstep
    exact hsend.isClient
  | tick a => cases dataStep_tick hstep <;> rfl
  | sendComplete i status o => exact (dataStep_sendComplete_state hstep).1
  | recvComplete frame status o =>
    cases dataStep_recvComplete hstep with
    | flushed => rfl
    | received wr pool u _ _ _ hbody hrepost => exact hrepost.isClient.trans hbody.isClient

/-- An event of one transport at most appends to its wire. -/
theorem dataStep_wire {t t' : HmrRdmaTransport} {e : DataEvent} (hstep : dataStep t e = some t') :
    t.qp.wire <+: t'.qp.wire := by
  cases e with
  | send msg o =>
    obtain ⟨r, hsend⟩ := dataStep_send hstep
    exact hsend.wire
  | tick a =>
    cases dataStep_tick hstep with
    | idle => exact List.prefix_rfl
    | flushed | failed => exact List.prefix_append _ _
  | sendComplete i status o =>
    rw [(dataStep_sendComplete_frame hstep).2.2.2]
    exact List.prefix_rfl
  | recvComplete frame status o =>
    cases dataStep_recvComplete hstep with
    | flushed => exact List.prefix_rfl
    | received wr pool u _ _ _ hbody hrepost =>
      rw [show t'.qp.wire = u.qp.wire from congrArg Prod.fst hrepost.sends.2.2.1]
      exact hbody.wire

/-- Every receive is posted with the buffer of its task. -/
def HmrRdmaTransport.RecvsMatch (t : HmrRdmaTransport) : Prop :=
  ∀ wr ∈ t.qp.rq, wr.sgList.addr = wr.wrId.sgeList.addr

/-- The buffer of a received frame holds the frame when its completion is handled. -/
theorem hcaWrite_bytes {t : HmrRdmaTransport} {frame : Frame} {pool : HmrMempool} {addr : ℤ}
    (hpool : (t.hcaWrite addr frame).normalMempool = some pool) {i : ℕ} (hi : i < frame.length) :
    pool.memory.bytesAt addr i = frame.byte i := by
  obtain ⟨pool', -, rfl⟩ := Option.map_eq_some_iff.mp hpool
  exact Memory.copy_inside _ _ _ hi

/-- So the type a completion is handled by is the type of the frame. -/
theorem receivedType_of_match {t : HmrRdmaTransport} {frame : Frame} {pool : HmrMempool}
    {wr : IbvRecvWr} (hmatch : wr.sgList.addr = wr.wrId.sgeList.addr)
    (hpool : (t.hcaWrite wr.sgList.addr frame).normalMempool = some pool)
    (hlen : sizeofMsgType ≤ frame.length) :
    receivedType (pool.memory.bytesAt wr.wrId.sgeList.addr) = receivedType frame.byte := by
  rw [← hmatch]
  exact congrArg HmrTaskType.ofNat (ofLeBytes_congr fun i hi => hcaWrite_bytes hpool (by omega))

/-- And a receive that succeeds handles the message its frame carries, then posts again. -/
theorem dataStep_received {t t' : HmrRdmaTransport} {frame : Frame} {o : Outcomes}
    (hmatch : t.RecvsMatch) (hlen : sizeofMsgType ≤ frame.length)
    (hstep : dataStep t (.recvComplete frame .success o) = some t') :
    ∃ (addr : ℤ) (pool : HmrMempool) (u : HmrRdmaTransport),
      (t.pollRecv.hcaWrite addr frame).normalMempool = some pool ∧
        RecvBody o (t.pollRecv.hcaWrite addr frame) (pool.memory.bytesAt addr)
          (receivedType frame.byte) u ∧
        PostRecvResult o u u.defaultRecvSize t' := by
  cases dataStep_recvComplete hstep with
  | flushed _ _ _ hstatus => exact absurd rfl hstatus
  | received wr pool u _ hhead hpool hbody hrepost =>
    have hwr : wr.sgList.addr = wr.wrId.sgeList.addr := hmatch wr (List.mem_of_mem_head? hhead)
    rw [receivedType_of_match hwr hpool hlen, ← hwr] at hbody
    exact ⟨wr.sgList.addr, pool, u, hpool, hbody, hrepost⟩

/-- The type of the message that the oldest receive delivers. -/
def HmrRdmaTransport.arrivingType (t : HmrRdmaTransport) (frame : Frame) : Option HmrTaskType :=
  t.qp.rq.head?.bind fun wr =>
    (t.hcaWrite wr.sgList.addr frame).normalMempool.map fun pool =>
      receivedType (pool.memory.bytesAt wr.wrId.sgeList.addr)

/-- It is the type the completion is handled by. -/
theorem arrivingType_eq {t : HmrRdmaTransport} {frame : Frame} {pool : HmrMempool} {wr : IbvRecvWr}
    (hhead : t.qp.rq.head? = some wr)
    (hpool : (t.pollRecv.hcaWrite wr.sgList.addr frame).normalMempool = some pool) :
    t.arrivingType frame = some (receivedType (pool.memory.bytesAt wr.wrId.sgeList.addr)) := by
  have hpool' : (t.hcaWrite wr.sgList.addr frame).normalMempool = some pool := hpool
  simp [HmrRdmaTransport.arrivingType, hhead, hpool']

/-- Posting a receive keeps receives posted with their own buffers. -/
theorem PostRecvResult.recvsMatch {o : Outcomes} {t t' : HmrRdmaTransport} {size : ℤ}
    (hpost : PostRecvResult o t size t') (h : t.RecvsMatch) : t'.RecvsMatch := by
  intro wr hwr
  rcases hpost.rq with heq | ⟨task, heq⟩
  · exact h wr (heq ▸ hwr)
  · rw [heq, List.mem_append, List.mem_singleton] at hwr
    rcases hwr with hold | rfl
    · exact h wr hold
    · rfl

/-- Every event keeps receives posted with their own buffers. -/
theorem dataStep_recvsMatch {t t' : HmrRdmaTransport} {e : DataEvent} (h : t.RecvsMatch)
    (hstep : dataStep t e = some t') : t'.RecvsMatch := by
  cases e with
  | send msg o =>
    obtain ⟨r, hsend⟩ := dataStep_send hstep
    intro wr hwr
    rw [hsend.rq] at hwr
    exact h wr hwr
  | tick a => cases dataStep_tick hstep <;> exact h
  | sendComplete i status o =>
    intro wr hwr
    rw [(dataStep_sendComplete_frame hstep).2.2.2] at hwr
    exact h wr hwr
  | recvComplete frame status o =>
    have htail : ∀ wr ∈ t.qp.rq.tail, wr.sgList.addr = wr.wrId.sgeList.addr :=
      fun wr hwr => h wr (List.mem_of_mem_tail hwr)
    cases dataStep_recvComplete hstep with
    | flushed => exact htail
    | received wr pool u _ _ _ hbody hrepost =>
      have hu : u.RecvsMatch := fun wr hwr => htail wr (by rwa [hbody.rq] at hwr)
      exact hrepost.recvsMatch hu

/-- The pool of the sample transport. -/
def samplePool : HmrMempool :=
  ⟨fun _ => 0, ⟨0, 0, 0, 1024, 0, 1, 1⟩, ⟨0, 0, 1024, 1024, 0, 2, 2⟩, ⟨0, 0, 2048, 1024, 0, 3, 3⟩,
    0, 0, false⟩

/-- A transport that has just exchanged MRs with its peer, to run concrete events from. -/
def sampleTransport : HmrRdmaTransport :=
  { hmrRdmaCreate with
    transState := .rconnected
    peerInfo := ⟨0, samplePool.rdmaMr⟩
    normalMempool := some samplePool
    qp := { hmrRdmaCreate.qp with status := .live } }

/-- The outcomes of a pool creation that succeeds. -/
def sampleMempoolOutcomes : MempoolOutcomes :=
  ⟨true, some samplePool.memory, some samplePool.sendMr, some samplePool.recvMr,
    some samplePool.rdmaMr⟩

/-- A message of zeros. -/
def sampleMsg (msgType : HmrMsgType) (dataSize : Int32) : HmrMsg := ⟨msgType, dataSize, fun _ => 0⟩

end HmrRpc
