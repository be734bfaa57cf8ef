import HmrRpc.MessageFlow
import HmrRpc.SendBounds

/-!
# Buffers that keep their frames

A frame stays in the send ring until the HCA reads it, which may be long after its task was
created. In between the program encodes other messages into the ring and the HCA writes the
received frames into the block beside it. Which tasks are still to be read differs from one
argument to the next, so they are a parameter here: the pool keeps the frames of a list of tasks
as long as no new message starts the bytes of one of them.
-/

namespace HmrRpc

open Common

/-- The buffer of the task holds its frame. -/
structure HmrTask.Intact (task : HmrTask) (memory : Memory) : Prop where
  length : (task.frame.length : ℤ) = task.sgeList.length
  byte : ∀ i < task.frame.length, memory (task.sgeList.addr + i) = task.frame.byte i

/-- What a pool may keep of the tasks still to be read: a property of its memory, its send cursor
and the tasks. -/
abbrev Holding := Memory → ℤ → List HmrTask → Prop

/-- The tasks' buffers are apart in the ring and hold their frames. -/
structure InRing (memory : Memory) (cursor : ℤ) (live : List HmrTask) : Prop where
  bounds : 0 ≤ cursor ∧ cursor ≤ allocMemSize
  layout : RingLayout allocMemSize cursor (fun task : HmrTask => task.sgeList.addr)
    (fun task => task.sgeList.length) {task | task ∈ live}
  intact : ∀ task ∈ live, task.Intact memory

/-- The property is one of the ring that the operations of the pool keep, if each message encoded
meets the condition. -/
structure Holding.KeptIf (P : Holding) (ok : ℤ → List HmrTask → HmrMsg → Prop) : Prop where
  ring : ∀ {memory cursor live}, P memory cursor live → InRing memory cursor live
  mono : ∀ {memory cursor live live'}, P memory cursor live → live' ⊆ live → P memory cursor live'
  encode : ∀ {pool : HmrMempool} {live msg} (id : ℕ), P pool.memory pool.usedSendRegion live →
    ok pool.usedSendRegion live msg →
      P (pool.afterSendTask msg).memory (pool.afterSendTask msg).usedSendRegion
        (live ++ [acceptedTask pool msg id])
  place : ∀ {memory cursor live addr} (src : ℕ → UInt8) (n : ℕ), P memory cursor live →
    recvRegion ≤ addr → addr + n ≤ rdmaRegion → P (memory.copy addr src n) cursor live

/-- A pool of which nothing is to be read has it, whatever its memory. -/
def Holding.OfUnused (P : Holding) : Prop :=
  ∀ {memory cursor}, 0 ≤ cursor ∧ cursor ≤ allocMemSize → P memory cursor []

/-- The buffer of the receive is in the receive region. -/
def IbvRecvWr.InRegion (wr : IbvRecvWr) : Prop :=
  recvRegion ≤ wr.sgList.addr ∧ wr.sgList.addr + wr.sgList.length ≤ rdmaRegion

/-- The message fits the send region, and none of the tasks starts in the bytes it takes. -/
def HmrMsg.Clear (cursor : ℤ) (live : List HmrTask) (msg : HmrMsg) : Prop :=
  msg.FitsRegion ∧ StartsClear allocMemSize cursor (8 + msg.dataSize.toInt)
    (fun task : HmrTask => task.sgeList.addr) {task | task ∈ live}

/-- In a ring that has not restarted, all of them start behind the cursor, which has not passed the
limit. -/
structure BehindCursor (limit : ℤ) (memory : Memory) (cursor : ℤ) (live : List HmrTask) : Prop
    extends InRing memory cursor live where
  behind : ∀ task ∈ live, task.sgeList.addr < cursor
  spent : cursor ≤ limit

/-- The message fits between the cursor and the limit. -/
def HmrMsg.FitsRest (limit cursor : ℤ) (_ : List HmrTask) (msg : HmrMsg) : Prop :=
  0 ≤ msg.dataSize.toInt ∧ cursor + (8 + msg.dataSize.toInt) ≤ limit

/-- The transport's pool keeps the property of the tasks, and the receives are posted in their
region. -/
structure HmrRdmaTransport.Keeps (P : Holding) (t : HmrRdmaTransport) (live : List HmrTask) :
    Prop where
  recvSize : 0 ≤ t.defaultRecvSize ∧ t.defaultRecvSize ≤ allocMemSize
  recvs : ∀ wr ∈ t.qp.rq, wr.InRegion
  unbacked : t.normalMempool = none → live = []
  recvCursor : ∀ pool, t.normalMempool = some pool →
    0 ≤ pool.usedRecvRegion ∧ pool.usedRecvRegion ≤ allocMemSize
  held : ∀ pool, t.normalMempool = some pool → P pool.memory pool.usedSendRegion live

/-- The message meets the condition in the transport's pool, if it has one. -/
def HmrRdmaTransport.Takes (ok : ℤ → List HmrTask → HmrMsg → Prop) (t : HmrRdmaTransport)
    (live : List HmrTask) (msg : HmrMsg) : Prop :=
  ∀ pool, t.normalMempool = some pool → ok pool.usedSendRegion live msg

/-- What the step queues and posts are tasks of the list and the new ones, in filled requests
behind those already posted. -/
structure SendsNew (t t' : HmrRdmaTransport) (new : List HmrTask) : Prop where
  list : t'.sendTaskList ⊆ t.sendTaskList ++ new
  posts : ∃ chain : List IbvSendWr, t'.qp.sendLog = t.qp.sendLog ++ chain ∧
    t'.qp.encoded = t.qp.encoded ++ chain.filterMap IbvSendWr.encodedFrame ∧
    ∀ wr ∈ chain, wr.wrId ∈ t.sendTaskList ++ new ∧ wr.Filled

/-- The message a received frame of the type is answered with. -/
def HmrRdmaTransport.answerTo (t : HmrRdmaTransport) : HmrTaskType → Option HmrMsg
  | .mr => if t.transState = .connected then t.ownMr.map mrMsg else none
  | .finish => some closingMsg
  | _ => none

section Ring

variable {memory : Memory} {cursor : ℤ} {live : List HmrTask}

/-- Nothing is to be read from an unused ring. -/
theorem inRing_nil (hcursor : 0 ≤ cursor ∧ cursor ≤ allocMemSize) : InRing memory cursor [] :=
  ⟨hcursor, by constructor <;> simp, by simp⟩

/-- What is written behind the send region leaves the ring alone. -/
theorem InRing.copy {addr : ℤ} (h : InRing memory cursor live) (src : ℕ → UInt8) (n : ℕ)
    (haddr : recvRegion ≤ addr) : InRing (memory.copy addr src n) cursor live := by
  refine ⟨h.bounds, h.layout, fun task htask => ?_⟩
  obtain ⟨hframe, hbytes⟩ := h.intact task htask
  have hinside := h.layout.inside task htask
  refine ⟨hframe, fun i hi => (Memory.copy_outside _ _ (.inl ?_)).trans (hbytes i hi)⟩
  simp only [recvRegion, sendRegion, zero_add] at haddr
  omega

/-- A task in the ring is posted with the length of its frame. -/
theorem InRing.length {task : HmrTask} (h : InRing memory cursor live) (hlive : task ∈ live) :
    task.ibvSge.length = task.frame.length := by
  have hpos := h.layout.inside task hlive
  have hsge : (cUInt32 task.sgeList.length : ℤ) = task.sgeList.length :=
    cUInt32_of_range (by omega) (by unfold allocMemSize at hpos; omega)
  exact_mod_cast hsge.trans (h.intact task hlive).length.symm

/-- The HCA finds its frame in its buffer. -/
theorem InRing.carries {task : HmrTask} (h : InRing memory cursor live) (hlive : task ∈ live) :
    Frame.Carries ⟨task.ibvSge.length, memory.bytesAt task.ibvSge.addr⟩ task.frame :=
  ⟨h.length hlive, (h.intact task hlive).byte⟩

/-- A message clear of the tasks to be read is clear of some of them. -/
theorem HmrMsg.Clear.mono {msg : HmrMsg} {live' : List HmrTask} (h : msg.Clear cursor live)
    (hsub : live' ⊆ live) : msg.Clear cursor live' :=
  ⟨h.1, fun task htask => h.2 task (hsub htask)⟩

/-- The ring is kept if every message is encoded clear of the tasks to be read. -/
theorem inRing_keptIf : Holding.KeptIf InRing HmrMsg.Clear where
  ring h := h
  mono h hsub := ⟨h.bounds, h.layout.mono hsub, fun task htask => h.intact task (hsub htask)⟩
  encode := by
    rintro pool live msg id h ⟨hfits, hclear⟩
    obtain ⟨haddr, hlength, hcursor⟩ := acceptedTask_range h.bounds hfits id
    obtain ⟨hpos, hfit⟩ := hfits
    have hencoded : (msg.encodedLength : ℤ) = 8 + msg.dataSize.toInt :=
      encodedLength_eq hpos (by unfold allocMemSize at hfit; omega)
    have hplace := ringPlace_mem h.bounds.1 hfit
    have hmemory : (pool.afterSendTask msg).memory =
        Memory.copyAll pool.memory
          (sendTaskCopies (acceptedTask pool msg id).sgeList.addr msg) := rfl
    refine ⟨?_, ?_, fun task htask => ?_⟩
    · rw [hcursor]
      exact ⟨by omega, hplace.2⟩
    · rw [hcursor]
      refine (h.layout.place (i := acceptedTask pool msg id) h.bounds.1 (by omega) hfit haddr
        hlength hclear).mono fun task htask => ?_
      exact (List.mem_append.mp htask).elim .inr fun hnew => .inl (List.mem_singleton.mp hnew)
    · rcases List.mem_append.mp htask with hold | hnew
      · obtain ⟨hframe, hbytes⟩ := h.intact task hold
        have hapart := h.layout.placed_apart (by omega) hclear hold
        rw [span_disjoint_iff (h.layout.inside task hold).2.1 (by omega)] at hapart
        refine ⟨hframe, fun i hi => ?_⟩
        rw [hmemory, copyAll_sendTask_outside _ _ (by rw [haddr]; omega)]
        exact hbytes i hi
      · obtain rfl := List.mem_singleton.mp hnew
        refine ⟨hencoded.trans hlength.symm, fun i hi => ?_⟩
        rw [hmemory]
        exact copyAll_sendTask_inside _ _ msg hi
  place src n h haddr _ := h.copy src n haddr

variable {limit : ℤ}

/-- A message that fits the rest of the region is clear of what is behind the cursor. -/
theorem BehindCursor.clear {msg : HmrMsg} (h : BehindCursor limit memory cursor live)
    (hlimit : limit ≤ allocMemSize) (hfits : msg.FitsRest limit cursor live) :
    msg.Clear cursor live := by
  obtain ⟨hpos, hfit⟩ := hfits
  have hplace : ringPlace allocMemSize cursor (8 + msg.dataSize.toInt) = cursor :=
    if_neg (by omega)
  refine ⟨⟨hpos, by linarith [h.bounds.1]⟩, fun task htask hmem => ?_⟩
  rw [hplace] at hmem
  exact absurd hmem.1 (not_le.mpr (h.behind task htask))

/-- The ring does not restart while every message fits the rest of the region. -/
theorem behindCursor_keptIf (hlimit : limit ≤ allocMemSize) :
    Holding.KeptIf (BehindCursor limit) (HmrMsg.FitsRest limit) where
  ring h := h.toInRing
  mono h hsub := ⟨inRing_keptIf.mono h.toInRing hsub, fun task htask => h.behind task (hsub htask),
    h.spent⟩
  encode := by
    intro pool live msg id h hfits
    have hclear := h.clear hlimit hfits
    obtain ⟨haddr, -, hcursor⟩ := acceptedTask_range h.bounds hclear.1 id
    obtain ⟨hpos, hfit⟩ := hfits
    have hplace : ringPlace allocMemSize pool.usedSendRegion (8 + msg.dataSize.toInt) =
        pool.usedSendRegion := if_neg (by omega)
    rw [hplace] at haddr hcursor
    refine ⟨inRing_keptIf.encode id h.toInRing hclear, fun task htask => ?_, hcursor.trans_le hfit⟩
    rw [hcursor]
    rcases List.mem_append.mp htask with hold | hnew
    · have hbehind := h.behind task hold
      omega
    · obtain rfl := List.mem_singleton.mp hnew
      omega
  place src n h haddr hend := ⟨inRing_keptIf.place src n h.toInRing haddr hend, h.behind, h.spent⟩

/-- A limit further on is kept too. -/
theorem BehindCursor.mono {limit' : ℤ} (h : BehindCursor limit memory cursor live)
    (hle : limit ≤ limit') : BehindCursor limit' memory cursor live :=
  ⟨h.toInRing, h.behind, h.spent.trans hle⟩

end Ring

section Transport

variable {P : Holding} {ok : ℤ → List HmrTask → HmrMsg → Prop} {t t' u : HmrRdmaTransport}
  {live live' : List HmrTask} {msg : HmrMsg} {o : Outcomes}

/-- Steps that leave the pool alone and post no receive keep what is kept. -/
theorem HmrRdmaTransport.Keeps.of_same (h : t.Keeps P live)
    (hsize : t'.defaultRecvSize = t.defaultRecvSize) (hrq : t'.qp.rq ⊆ t.qp.rq)
    (hpool : t'.normalMempool = t.normalMempool) : t'.Keeps P live :=
  ⟨hsize ▸ h.recvSize, fun wr hwr => h.recvs wr (hrq hwr), fun hnone => h.unbacked (hpool ▸ hnone),
    fun pool hsome => h.recvCursor pool (hpool ▸ hsome),
    fun pool hsome => h.held pool (hpool ▸ hsome)⟩

/-- Handling DISCONNECTED does: the region it releases is not written again. -/
theorem HmrRdmaTransport.Keeps.disconnected (h : t.Keeps P live)
    (hhandler : onCmDisconnected t = .ok t') : t'.Keeps P live := by
  obtain rfl := onCmDisconnected_eq hhandler
  refine ⟨h.recvSize, h.recvs, fun hnone => h.unbacked (Option.map_eq_none_iff.mp hnone),
    fun pool' hpool' => ?_, fun pool' hpool' => ?_⟩
  · obtain ⟨pool, hpool, rfl⟩ := Option.map_eq_some_iff.mp hpool'
    exact h.recvCursor pool hpool
  · obtain ⟨pool, hpool, rfl⟩ := Option.map_eq_some_iff.mp hpool'
    exact h.held pool hpool

/-- What implies another property lets the pool keep that one. -/
theorem HmrRdmaTransport.Keeps.imp {Q : Holding} (h : t.Keeps P live)
    (himp : ∀ memory cursor, P memory cursor live → Q memory cursor live) : t.Keeps Q live :=
  ⟨h.recvSize, h.recvs, h.unbacked, h.recvCursor, fun pool hpool => himp _ _ (h.held pool hpool)⟩

/-- Tasks to be read are posted with the lengths of their frames. -/
theorem HmrRdmaTransport.Keeps.length {task : HmrTask} (hkept : P.KeptIf ok) (h : t.Keeps P live)
    (hlive : task ∈ live) : task.ibvSge.length = task.frame.length := by
  cases hpool : t.normalMempool with
  | none =>
    rw [h.unbacked hpool] at hlive
    contradiction
  | some pool => exact (hkept.ring (h.held pool hpool)).length hlive

/-- Tasks that no longer matter are let go. -/
theorem HmrRdmaTransport.Keeps.mono (hkept : P.KeptIf ok) (h : t.Keeps P live)
    (hsub : live' ⊆ live) : t.Keeps P live' :=
  ⟨h.recvSize, h.recvs, fun hnone => List.subset_nil.mp (h.unbacked hnone ▸ hsub), h.recvCursor,
    fun pool hpool => hkept.mono (h.held pool hpool) hsub⟩

/-- A message that meets the condition is kept with the others. -/
theorem HmrRdmaTransport.Keeps.created {pool : HmrMempool} (hkept : P.KeptIf ok)
    (h : t.Keeps P live) (hpool : t.normalMempool = some pool) (hok : t.Takes ok live msg) :
    (t.created pool msg).Keeps P (live ++ [acceptedTask pool msg t.nextTask]) := by
  refine ⟨h.recvSize, h.recvs, fun hnone => by contradiction, fun pool' hpool' => ?_,
    fun pool' hpool' => ?_⟩
  · obtain rfl := Option.some.inj hpool'
    exact h.recvCursor pool hpool
  · obtain rfl := Option.some.inj hpool'
    exact hkept.encode t.nextTask (h.held pool hpool) (hok pool hpool)

/-- Steps that send nothing have no new task. -/
theorem SendsNew.of_same (hlist : t'.sendTaskList = t.sendTaskList)
    (hway : t'.qp.underWay = t.qp.underWay) (hlog : t'.qp.sendLog = t.qp.sendLog) :
    SendsNew t t' [] := by
  have hencoded : t'.qp.encoded = t.qp.encoded := congrArg Prod.snd hway
  refine ⟨?_, [], ?_, ?_, by simp⟩
  · rw [hlist, List.append_nil]
    exact List.Subset.refl _
  · rw [hlog, List.append_nil]
  · rw [hencoded, List.filterMap_nil, List.append_nil]

/-- Steps that follow each other have their new tasks together. -/
theorem SendsNew.trans {new new' : List HmrTask} (h : SendsNew t u new)
    (h' : SendsNew u t' new') : SendsNew t t' (new ++ new') := by
  obtain ⟨chain, hlog, hwire, hchain⟩ := h.posts
  obtain ⟨chain', hlog', hwire', hchain'⟩ := h'.posts
  have hlist : u.sendTaskList ++ new' ⊆ t.sendTaskList ++ (new ++ new') := by
    rw [← List.append_assoc]
    exact List.append_subset.mpr ⟨List.Subset.trans h.list (List.subset_append_left _ _),
      List.subset_append_right _ _⟩
  have hold : t.sendTaskList ++ new ⊆ t.sendTaskList ++ (new ++ new') := by
    rw [← List.append_assoc]
    exact List.subset_append_left _ _
  refine ⟨List.Subset.trans h'.list hlist, chain ++ chain', ?_, ?_, fun wr hwr => ?_⟩
  · rw [hlog', hlog, List.append_assoc]
  · rw [hwire', hwire, List.append_assoc, List.filterMap_append]
  · rcases List.mem_append.mp hwr with hwr | hwr
    · exact ⟨hold (hchain wr hwr).1, (hchain wr hwr).2⟩
    · exact ⟨hlist (hchain' wr hwr).1, (hchain' wr hwr).2⟩

/-- Submitting it keeps the others, and the new task if it is sent. -/
theorem SubmitResult.keeps (hkept : P.KeptIf ok) (hsubmit : SubmitResult o t msg t')
    (h : t.Keeps P live) (hok : t.Takes ok live msg) :
    ∃ new, SendsNew t t' new ∧ t'.Keeps P (live ++ new) := by
  cases hsubmit with
  | queued pool hpool =>
    refine ⟨[acceptedTask pool msg t.nextTask], ⟨List.Subset.refl _, [], ?_⟩,
      (h.created hkept hpool hok).of_same rfl (List.Subset.refl _) rfl⟩
    simp [HmrRdmaTransport.queued, HmrRdmaTransport.created]
  | posted pool hpool =>
    refine ⟨[acceptedTask pool msg t.nextTask], ⟨List.subset_append_left _ _, _, rfl, rfl, ?_⟩,
      (h.created hkept hpool hok).of_same rfl (List.Subset.refl _) rfl⟩
    intro wr hwr
    obtain rfl := List.mem_singleton.mp hwr
    exact ⟨List.mem_append_right _ (.head _), rfl, rfl⟩
  | dropped pool hpool =>
    exact ⟨[], .of_same rfl rfl rfl, (h.created hkept hpool hok).mono hkept (by simp)⟩

/-- So does sending it. -/
theorem SendResult.keeps {r : ℤ} (hkept : P.KeptIf ok) (hsend : SendResult o t msg r t')
    (h : t.Keeps P live) (hok : t.Takes ok live msg) :
    ∃ new, SendsNew t t' new ∧ t'.Keeps P (live ++ new) := by
  cases hsend with
  | refused => exact ⟨[], .of_same rfl rfl rfl, by rwa [List.append_nil]⟩
  | submitted _ _ hsubmit => exact hsubmit.keeps hkept h hok

/-- A tick has no new task. -/
theorem TickResult.sendsNew {a : Option ℕ} (htick : TickResult t a t') : SendsNew t t' [] := by
  have hchain {wr : IbvSendWr} (hwr : wr ∈ sendChain t.peerInfo t.sendTaskList) :
      wr.wrId ∈ t.sendTaskList ++ [] ∧ wr.Filled :=
    ⟨List.mem_append_left _ (mem_sendChain_wrId hwr), sendChain_filled _ _ wr hwr⟩
  cases htick with
  | idle => exact .of_same rfl rfl rfl
  | flushed => exact ⟨List.nil_subset _, _, rfl, rfl, fun wr hwr => hchain hwr⟩
  | failed k =>
    exact ⟨List.subset_append_left _ _, _, rfl, rfl,
      fun wr hwr => hchain (List.mem_of_mem_take hwr)⟩

/-- And keeps what is kept. -/
theorem TickResult.keeps {a : Option ℕ} (htick : TickResult t a t') (h : t.Keeps P live) :
    t'.Keeps P live := by
  cases htick with
  | idle => exact h
  | flushed | failed => exact h.of_same rfl (List.Subset.refl _) rfl

/-- A receive task takes its range in the receive region, and its cursor stays there. -/
theorem HmrRdmaTransport.Keeps.recvRange {pool : HmrMempool} (h : t.Keeps P live)
    (hpool : t.normalMempool = some pool) (id : ℕ) :
    (recvRegion ≤ (recvTask pool t.defaultRecvSize id).sgeList.addr ∧
      (recvTask pool t.defaultRecvSize id).sgeList.addr +
        (recvTask pool t.defaultRecvSize id).ibvSge.length ≤ rdmaRegion) ∧
      0 ≤ (pool.afterRecvTask t.defaultRecvSize).usedRecvRegion ∧
        (pool.afterRecvTask t.defaultRecvSize).usedRecvRegion ≤ allocMemSize := by
  obtain ⟨hlo, hhi⟩ := h.recvCursor pool hpool
  have halloc := allocFrom_eq hlo hhi h.recvSize.1 h.recvSize.2
  have hplace := ringPlace_mem hlo h.recvSize.2
  obtain ⟨hpos, hsize⟩ := h.recvSize
  have hlength : (cUInt32 t.defaultRecvSize : ℤ) = t.defaultRecvSize :=
    cUInt32_of_range hpos (by unfold allocMemSize at hsize; omega)
  rw [afterRecvTask_usedRecvRegion, halloc]
  refine ⟨?_, by omega, hplace.2⟩
  simp only [recvTask, HmrTask.ibvSge, hmrMempoolAllocAddr, hmrMempoolAllocRaddr, halloc,
    Bool.false_eq_true, if_false, hlength, rdmaRegion]
  omega

/-- Posting a receive keeps what is kept. -/
theorem PostRecvResult.keeps (hpost : PostRecvResult o t t.defaultRecvSize t')
    (h : t.Keeps P live) : t'.Keeps P live := by
  cases hpost with
  | noMemory => exact h
  | posted pool hpool =>
    obtain ⟨haddr, hcursor⟩ := h.recvRange hpool t.nextTask
    refine ⟨h.recvSize, fun wr hwr => ?_, fun hnone => by contradiction, fun pool' hpool' => ?_,
      fun pool' hpool' => ?_⟩
    · rcases List.mem_append.mp hwr with hold | hnew
      · exact h.recvs wr hold
      · obtain rfl := List.mem_singleton.mp hnew
        exact haddr
    · obtain rfl := Option.some.inj hpool'
      exact hcursor
    · obtain rfl := Option.some.inj hpool'
      exact h.held pool hpool
  | dropped pool hpool =>
    refine ⟨h.recvSize, h.recvs, fun hnone => by contradiction, fun pool' hpool' => ?_,
      fun pool' hpool' => ?_⟩
    · obtain rfl := Option.some.inj hpool'
      exact (h.recvRange hpool t.nextTask).2
    · obtain rfl := Option.some.inj hpool'
      exact h.held pool hpool

/-- A received frame that fits its buffer is written there. -/
theorem HmrRdmaTransport.Keeps.hcaWrite {wr : IbvRecvWr} {frame : Frame} (hkept : P.KeptIf ok)
    (h : t.Keeps P live) (hhead : t.qp.rq.head? = some wr)
    (hfit : frame.length ≤ wr.sgList.length) :
    (t.pollRecv.hcaWrite wr.sgList.addr frame).Keeps P live := by
  have hregion := h.recvs wr (List.mem_of_mem_head? hhead)
  refine ⟨h.recvSize, fun wr hwr => h.recvs wr (List.mem_of_mem_tail hwr),
    fun hnone => h.unbacked (Option.map_eq_none_iff.mp hnone), fun pool' hpool' => ?_,
    fun pool' hpool' => ?_⟩
  · obtain ⟨pool, hpool, rfl⟩ := Option.map_eq_some_iff.mp hpool'
    exact h.recvCursor pool hpool
  · obtain ⟨pool, hpool, rfl⟩ := Option.map_eq_some_iff.mp hpool'
    exact hkept.place _ _ (h.held pool hpool) hregion.1 (by have hend := hregion.2; omega)

/-- It does not move the send cursor. -/
theorem HmrRdmaTransport.Takes.hcaWrite (h : t.Takes ok live msg) (addr : ℤ) (frame : Frame) :
    (t.pollRecv.hcaWrite addr frame).Takes ok live msg := by
  intro pool' hpool'
  obtain ⟨pool, hpool, rfl⟩ := Option.map_eq_some_iff.mp hpool'
  exact h pool hpool

/-- And the answer is the same. -/
theorem hcaWrite_answerTo (addr : ℤ) (frame : Frame) (taskType : HmrTaskType) :
    (t.pollRecv.hcaWrite addr frame).answerTo taskType = t.answerTo taskType := by
  have hstate : (t.pollRecv.hcaWrite addr frame).transState = t.transState := rfl
  have hown : (t.pollRecv.hcaWrite addr frame).ownMr = t.ownMr := by
    simp only [HmrRdmaTransport.ownMr, HmrRdmaTransport.hcaWrite, Option.map_map]
    rfl
  cases taskType <;> simp only [HmrRdmaTransport.answerTo, hstate, hown]

/-- Handling a frame keeps what is kept, if the answer meets the condition. -/
theorem RecvBody.keeps {bytes : ℕ → UInt8} {taskType : HmrTaskType} (hkept : P.KeptIf ok)
    (hbody : RecvBody o t bytes taskType u) (h : t.Keeps P live)
    (hok : ∀ msg, t.answerTo taskType = some msg → t.Takes ok live msg) :
    ∃ new, SendsNew t u new ∧ u.Keeps P (live ++ new) := by
  have hrespond (taskType : HmrTaskType) : (t.respond taskType (.decode bytes)).Keeps P live :=
    h.of_same (respond_preserves t _ _ fun _ _ => rfl) (by simp) (by simp)
  have hsame (taskType : HmrTaskType) : SendsNew t (t.respond taskType (.decode bytes)) [] :=
    .of_same (by simp) (by simp) (by simp)
  have hquiet (h : u.Keeps P live) (hsends : SendsNew t u []) :
      ∃ new, SendsNew t u new ∧ u.Keeps P (live ++ new) :=
    ⟨[], hsends, by rwa [List.append_nil]⟩
  cases hbody with
  | firstMr pool r v hstate hpool hsend =>
    have hanswer : t.answerTo .mr = some (mrMsg pool.rdmaMr) := by
      simp [HmrRdmaTransport.answerTo, hstate, HmrRdmaTransport.ownMr, hpool]
    have hlearn : (t.learnMr (.decode bytes)).Keeps P live := h.of_same rfl (List.Subset.refl _) rfl
    obtain ⟨new, hnew, hv⟩ := hsend.keeps hkept hlearn (hok _ hanswer)
    exact ⟨new, ⟨hnew.list, hnew.posts⟩, hv.of_same rfl (List.Subset.refl _) rfl⟩
  | laterMr => exact hquiet (h.of_same rfl (List.Subset.refl _) rfl) (.of_same rfl rfl rfl)
  | finish r _ hsend =>
    obtain ⟨new, hnew, hu⟩ := hsend.keeps hkept (hrespond .finish)
      fun pool hpool => hok closingMsg rfl pool (by simpa using hpool)
    exact ⟨new, (hsame .finish).trans hnew, hu⟩
  | done =>
    exact hquiet ((hrespond .done).of_same rfl (List.Subset.refl _) rfl)
      ((hsame .done).trans (.of_same rfl rfl rfl))
  | plain => exact hquiet (hrespond taskType) (hsame taskType)

/-- So does the whole receive completion. -/
theorem recvComplete_keeps {frame : Frame} {status : IbvWcStatus} (hkept : P.KeptIf ok)
    (h : t.Keeps P live) (hmatch : t.RecvsMatch)
    (hlen : status = .success → sizeofMsgType ≤ frame.length)
    (hfit : status = .success → ∀ wr, t.qp.rq.head? = some wr → frame.length ≤ wr.sgList.length)
    (hok : status = .success → ∀ msg, t.answerTo (receivedType frame.byte) = some msg →
      t.Takes ok live msg)
    (hstep : dataStep t (.recvComplete frame status o) = some t') :
    ∃ new, SendsNew t t' new ∧ t'.Keeps P (live ++ new) := by
  cases dataStep_recvComplete hstep with
  | flushed =>
    refine ⟨[], .of_same rfl rfl rfl, ?_⟩
    rw [List.append_nil]
    exact h.of_same rfl (List.tail_subset _) rfl
  | received wr pool u _ hhead hpool hbody hrepost =>
    have hwr : wr.sgList.addr = wr.wrId.sgeList.addr := hmatch wr (List.mem_of_mem_head? hhead)
    rw [receivedType_of_match hwr hpool (hlen rfl)] at hbody
    have hpolled := h.hcaWrite hkept hhead (hfit rfl wr hhead)
    obtain ⟨new, hnew, hu⟩ := hbody.keeps hkept hpolled fun msg hanswer => by
      rw [hcaWrite_answerTo] at hanswer
      exact (hok rfl msg hanswer).hcaWrite _ _
    obtain ⟨hlist, -, hwire, hlog⟩ := hrepost.sends
    have hplaced : SendsNew t (t.pollRecv.hcaWrite wr.sgList.addr frame) [] := .of_same rfl rfl rfl
    have hposted := (hplaced.trans hnew).trans (.of_same hlist hwire hlog)
    rw [List.nil_append, List.append_nil] at hposted
    exact ⟨new, hposted, hrepost.keeps hu⟩

end Transport

end HmrRpc
