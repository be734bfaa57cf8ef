import HmrRpc.SendBounds

/-!
# Live send buffers

A send task's bytes stay in the send ring from its creation until its completion, and
the ring hands out ranges without a record of the tasks still using them. What keeps two
live tasks apart is that no live one starts inside the range a new one takes; the ring
invariant then holds through any order of sends, ticks and completions.
-/

namespace HmrRpc

open Common

/-- The tasks whose bytes the HCA may still read: queued, or posted and not completed. -/
def HmrRdmaTransport.liveSends (t : HmrRdmaTransport) : List HmrTask :=
  t.sendTaskList ++ t.qp.sq.map IbvSendWr.wrId

/-- Distinct live send tasks have disjoint ranges, and each range holds what was encoded. -/
structure SendBuffersApart (t : HmrRdmaTransport) : Prop where
  apart : ∀ a ∈ t.liveSends, ∀ b ∈ t.liveSends, a ≠ b →
    Disjoint (span a.sgeList.addr a.sgeList.length) (span b.sgeList.addr b.sgeList.length)
  intact : ∀ pool, t.normalMempool = some pool → ∀ task ∈ t.liveSends,
    (task.frame.length : ℤ) = task.sgeList.length ∧
      ∀ i < task.frame.length, pool.memory (task.sgeList.addr + i) = task.frame.byte i

/-- The events of the send side, with messages that fit the region. -/
def SendSide : DataEvent → Prop
  | .send msg _ => msg.FitsRegion
  | .recvComplete _ _ _ => False
  | _ => True

/-- No live task starts in the bytes that an accepted message is about to take: those from
the cursor on, or from zero if they would pass the end of the region. -/
def LandsClear (t : HmrRdmaTransport) : DataEvent → Prop
  | .send msg _ => hmrMsgReady t msg → ∀ pool, t.normalMempool = some pool →
      StartsClear allocMemSize pool.usedSendRegion (8 + msg.dataSize.toInt)
        (fun task : HmrTask => task.sgeList.addr) {task | task ∈ t.liveSends}
  | _ => True

instance : (e : DataEvent) → Decidable (SendSide e)
  | .send msg _ =>
    inferInstanceAs (Decidable (0 ≤ msg.dataSize.toInt ∧ 8 + msg.dataSize.toInt ≤ allocMemSize))
  | .recvComplete .. => isFalse id
  | .tick _ | .sendComplete .. => isTrue trivial

instance (t : HmrRdmaTransport) : (e : DataEvent) → Decidable (LandsClear t e)
  | .send msg _ =>
    inferInstanceAs (Decidable (hmrMsgReady t msg → ∀ pool ∈ t.normalMempool, ∀ task ∈ t.liveSends,
      ¬(ringPlace allocMemSize pool.usedSendRegion (8 + msg.dataSize.toInt) ≤ task.sgeList.addr ∧
        task.sgeList.addr < ringPlace allocMemSize pool.usedSendRegion (8 + msg.dataSize.toInt) +
          (8 + msg.dataSize.toInt))))
  | .tick _ | .sendComplete .. | .recvComplete .. => isTrue trivial

/-- The send ring with its live tasks. -/
structure SendRing (t : HmrRdmaTransport) (pool : HmrMempool) : Prop where
  hasPool : t.normalMempool = some pool
  cursor : 0 ≤ pool.usedSendRegion ∧ pool.usedSendRegion ≤ allocMemSize
  layout : RingLayout allocMemSize pool.usedSendRegion (fun task : HmrTask => task.sgeList.addr)
    (fun task => task.sgeList.length) {task | task ∈ t.liveSends}
  intact : ∀ task ∈ t.liveSends, (task.frame.length : ℤ) = task.sgeList.length ∧
    ∀ i < task.frame.length, pool.memory (task.sgeList.addr + i) = task.frame.byte i

section Ring

variable {t t' : HmrRdmaTransport} {pool : HmrMempool} {msg : HmrMsg}

/-- The ring with its live tasks keeps their buffers apart. -/
theorem SendRing.apart (h : SendRing t pool) : SendBuffersApart t where
  apart := h.layout.apart
  intact pool' hpool' := by
    obtain rfl := Option.some.inj (h.hasPool.symm.trans hpool')
    exact h.intact

/-- Losing live tasks keeps the ring. -/
theorem SendRing.of_subset (h : SendRing t pool) (hpool : t'.normalMempool = t.normalMempool)
    (hsub : ∀ task ∈ t'.liveSends, task ∈ t.liveSends) : SendRing t' pool where
  hasPool := hpool.trans h.hasPool
  cursor := h.cursor
  layout := h.layout.mono hsub
  intact task htask := h.intact task (hsub task htask)

/-- Creating a task keeps the ring when no live task starts in its range. -/
theorem SendRing.create (h : SendRing t pool) (hfits : msg.FitsRegion) (id : ℕ)
    (hclear : StartsClear allocMemSize pool.usedSendRegion (8 + msg.dataSize.toInt)
      (fun task : HmrTask => task.sgeList.addr) {task | task ∈ t.liveSends})
    (hpool : t'.normalMempool = some (pool.afterSendTask msg))
    (hlive : ∀ task ∈ t'.liveSends, task = acceptedTask pool msg id ∨ task ∈ t.liveSends) :
    SendRing t' (pool.afterSendTask msg) := by
  obtain ⟨haddr, hlength, hcursor'⟩ := acceptedTask_range h.cursor hfits id
  obtain ⟨hpos, hfit⟩ := hfits
  have hencoded : (msg.encodedLength : ℤ) = 8 + msg.dataSize.toInt :=
    encodedLength_eq hpos (by unfold allocMemSize at hfit; omega)
  have hplace := ringPlace_mem h.cursor.1 hfit
  refine ⟨hpool, ?_, ?_, ?_⟩
  · rw [hcursor']
    exact ⟨by omega, hplace.2⟩
  · rw [hcursor']
    exact (h.layout.place (i := acceptedTask pool msg id) h.cursor.1 (by omega) hfit haddr hlength
      hclear).mono hlive
  · intro task htask
    -- the copies went to the new task's range
    have hmemory : (pool.afterSendTask msg).memory =
        Memory.copyAll pool.memory
          (sendTaskCopies (acceptedTask pool msg id).sgeList.addr msg) := rfl
    rcases hlive task htask with rfl | hold
    · refine ⟨hencoded.trans hlength.symm, fun i hi => ?_⟩
      rw [hmemory]
      exact copyAll_sendTask_inside _ _ msg hi
    · obtain ⟨hframe, hbytes⟩ := h.intact task hold
      have hapart := h.layout.placed_apart (by omega) hclear hold
      rw [span_disjoint_iff (h.layout.inside task hold).2.1 (by omega)] at hapart
      refine ⟨hframe, fun i hi => ?_⟩
      rw [hmemory, copyAll_sendTask_outside _ _ (by rw [haddr]; omega)]
      exact hbytes i hi

/-- Each event of the send side that lands clear keeps the ring. -/
theorem SendRing.step {e : DataEvent} (hside : SendSide e) (h : SendRing t pool)
    (hclear : LandsClear t e) (hstep : dataStep t e = some t') :
    ∃ pool', SendRing t' pool' := by
  cases e with
  | send msg o =>
    obtain ⟨r, hsend⟩ := dataStep_send hstep
    cases hsend with
    | refused => exact ⟨pool, h⟩
    | submitted _ hready hsubmit =>
      cases hsubmit with
      | queued pool' hpool _ =>
        obtain rfl := Option.some.inj (h.hasPool.symm.trans hpool)
        refine ⟨_, h.create hside t.nextTask (hclear hready pool hpool) rfl ?_⟩
        simp only [HmrRdmaTransport.liveSends, HmrRdmaTransport.queued, HmrRdmaTransport.created,
          List.mem_append, List.mem_singleton]
        tauto
      | posted pool' hpool _ _ =>
        obtain rfl := Option.some.inj (h.hasPool.symm.trans hpool)
        refine ⟨_, h.create hside t.nextTask (hclear hready pool hpool) rfl ?_⟩
        simp only [HmrRdmaTransport.liveSends, HmrRdmaTransport.postedDirect,
          HmrRdmaTransport.ibvPostSend, HmrRdmaTransport.created, directSendWr, List.map_append,
          List.map_cons, List.map_nil, List.mem_append, List.mem_singleton]
        tauto
      | dropped pool' hpool _ _ =>
        obtain rfl := Option.some.inj (h.hasPool.symm.trans hpool)
        exact ⟨_, h.create hside t.nextTask (hclear hready pool hpool) rfl
          fun task htask => .inr htask⟩
  | tick a =>
    cases dataStep_tick hstep with
    | idle => exact ⟨pool, h⟩
    | flushed =>
      refine ⟨pool, h.of_subset rfl ?_⟩
      simp only [HmrRdmaTransport.liveSends, HmrRdmaTransport.flushed,
        HmrRdmaTransport.ibvPostSend, List.nil_append,
        List.map_append, sendChain_wrId, List.mem_append]
      tauto
    | failed k =>
      refine ⟨pool, h.of_subset rfl ?_⟩
      simp only [HmrRdmaTransport.liveSends, HmrRdmaTransport.flushFailed,
        HmrRdmaTransport.ibvPostSend, List.map_append, List.map_take, sendChain_wrId, List.mem_append]
      rintro task (hlist | hsq | htake)
      · exact .inl hlist
      · exact .inr hsq
      · exact .inl (List.mem_of_mem_take htake)
  | sendComplete i status o =>
    obtain ⟨hpool, hlist, -, hqp⟩ := dataStep_sendComplete_frame hstep
    refine ⟨pool, h.of_subset hpool ?_⟩
    simp only [HmrRdmaTransport.liveSends, hlist, hqp, HmrRdmaTransport.pollSend, List.mem_append,
      List.mem_map]
    rintro task (hold | ⟨wr, hwr, rfl⟩)
    · exact .inl hold
    · exact .inr ⟨wr, List.mem_of_mem_eraseIdx hwr, rfl⟩
  | recvComplete frame status o => exact hside.elim

end Ring

end HmrRpc
