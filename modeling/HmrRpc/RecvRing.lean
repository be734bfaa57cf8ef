import HmrRpc.TransportRun

/-!
# The receive ring

With buffers of one size the receive region is a ring of slots. `hmr_pre_post_recv` fills
all but two of them, and every completion handled posts the slot behind the last: the
outstanding receives are a window that moves one slot at a time, and the two slots
outside it are the buffer being handled and the one handled before.
-/

namespace HmrRpc

open Common

/-- What receiving depends on: the receive cursor, the buffer size and the posted receives. -/
def HmrRdmaTransport.recvSide (t : HmrRdmaTransport) : Option ℤ × ℤ × List IbvRecvWr :=
  (t.normalMempool.map HmrMempool.usedRecvRegion, t.defaultRecvSize, t.qp.rq)

/-- Receives complete successfully and are posted again. -/
def RecvsServed : DataEvent → Prop
  | .recvComplete _ status o => status = .success ∧ o.recvCalloc ∧ o.recvPost
  | _ => True

/-- Whether an event is the completion of a receive. -/
def DataEvent.isRecv : DataEvent → Bool
  | .recvComplete _ _ _ => true
  | _ => false

section Frame

variable {o : Outcomes} {t t' : HmrRdmaTransport}

/-- Sending leaves the receive side alone. -/
theorem SendResult.recvSide {msg : HmrMsg} {r : ℤ} (h : SendResult o t msg r t') :
    t'.recvSide = t.recvSide := by
  apply h.preserves
  intro hsubmit
  cases hsubmit with
  | queued pool hpool | posted pool hpool | dropped pool hpool =>
    simp only [HmrRdmaTransport.recvSide, hpool]
    rfl

/-- So does a tick. -/
theorem TickResult.recvSide {a : Option ℕ} (h : TickResult t a t') : t'.recvSide = t.recvSide := by
  cases h <;> rfl

/-- A completed send leaves the receive side alone. -/
theorem sendComplete_recvSide {i : ℕ} {status : IbvWcStatus}
    (hstep : dataStep t (.sendComplete i status o) = some t') : t'.recvSide = t.recvSide := by
  obtain ⟨wr, -, rfl⟩ := dataStep_sendComplete hstep
  split
  · exact sendCompleted_preserves (f := HmrRdmaTransport.recvSide) (t.pollSend i) _ _
      (fun _ => rfl) (fun _ => rfl) fun _ => rfl
  · rfl

/-- Handling a frame leaves the receive side to the repost. -/
theorem RecvBody.recvSide {bytes : ℕ → UInt8} {taskType : HmrTaskType}
    (h : RecvBody o t bytes taskType t') : t'.recvSide = t.recvSide :=
  h.preserves (fun _ _ => rfl) (fun _ => rfl) (fun _ => rfl) (fun _ _ => rfl) SendResult.recvSide

end Frame

/-- The outstanding receives are the `m` slots from the `k`-th on, and the next one posted takes
the slot behind them. -/
structure RecvSlots (N : ℕ) (size : ℤ) (k m : ℕ) (t : HmrRdmaTransport) : Prop where
  defaultRecvSize : t.defaultRecvSize = size
  cursor : ∃ used, t.normalMempool.map HmrMempool.usedRecvRegion = some used ∧ 0 ≤ used ∧
    used ≤ allocMemSize ∧ ringPlace allocMemSize used size = slotStart N size (k + m)
  posted : t.qp.rq.map (fun wr => (wr.sgList.addr, (wr.sgList.length : ℤ))) =
    (slotWindow N size k m).map fun start => (recvRegion + start, size)

section Slots

variable {N k m : ℕ} {size : ℤ} {o : Outcomes} {t t' : HmrRdmaTransport}

/-- The slots depend on the receive side only. -/
theorem RecvSlots.of_recvSide (h : RecvSlots N size k m t) (hside : t'.recvSide = t.recvSide) :
    RecvSlots N size k m t' := by
  simp only [HmrRdmaTransport.recvSide, Prod.mk.injEq] at hside
  obtain ⟨hcursor, hsize, hrq⟩ := hside
  exact ⟨hsize.trans h.defaultRecvSize, hcursor ▸ h.cursor, hrq ▸ h.posted⟩

/-- Polling a receive takes the first slot out of the window. -/
theorem RecvSlots.poll (h : RecvSlots N size k (m + 1) t) : RecvSlots N size (k + 1) m t.pollRecv where
  defaultRecvSize := h.defaultRecvSize
  cursor := by
    rw [Nat.add_right_comm, Nat.add_assoc]
    exact h.cursor
  posted := by
    have hposted := congrArg List.tail h.posted
    rwa [slotWindow_cons, List.map_cons, List.tail_cons, ← List.map_tail] at hposted

variable (hsize : 0 < size) (hN : 0 < N) (hfit : N * size ≤ allocMemSize)
  (hmax : allocMemSize < (N + 1) * size)

include hsize hN hfit hmax

/-- Posting a receive adds the next slot to the window. -/
theorem RecvSlots.post (h : RecvSlots N size k m t) (hcalloc : o.recvCalloc) (hpost : o.recvPost)
    (hresult : PostRecvResult o t t.defaultRecvSize t') : RecvSlots N size k (m + 1) t' := by
  cases hresult with
  | noMemory hnone => simp [hcalloc] at hnone
  | dropped pool _ _ hdropped => simp [hpost] at hdropped
  | posted pool hpool _ _ =>
    obtain ⟨used, hused, hlo, hhi, hplace⟩ := h.cursor
    rw [hpool] at hused
    obtain rfl : pool.usedRecvRegion = used := Option.some.inj hused
    obtain ⟨hslotLo, hslotHi⟩ := slot_inside hsize hN hfit (k + m)
    have hle : size ≤ allocMemSize := by linarith
    have halloc := allocFrom_eq hlo hhi hsize.le hle
    rw [hplace] at halloc
    have hlength : (cUInt32 size : ℤ) = size :=
      cUInt32_of_range hsize.le (by unfold allocMemSize at hle; omega)
    refine ⟨h.defaultRecvSize, ⟨slotStart N size (k + m) + size, ?_, by omega, hslotHi,
      ringPlace_slot_succ hsize hN hfit hmax (k + m)⟩, ?_⟩
    · simp [HmrRdmaTransport.recvPosted, HmrRdmaTransport.ibvPostRecv, h.defaultRecvSize, halloc]
    · rw [slotWindow_succ, List.map_append, ← h.posted]
      simp [HmrRdmaTransport.recvPosted, HmrRdmaTransport.ibvPostRecv, recvTask, HmrTask.ibvSge,
        hmrMempoolAllocAddr, hmrMempoolAllocRaddr, h.defaultRecvSize, halloc, hlength]

/-- The receives posted up front are the first slots. -/
theorem RecvSlots.postRecvs {o : ℕ → Outcomes} (ho : ∀ i, (o i).recvCalloc ∧ (o i).recvPost)
    (h : RecvSlots N size 0 0 t) {n : ℕ} (hpost : postRecvs o n t = .ok t') :
    RecvSlots N size 0 n t' := by
  induction n generalizing t' with
  | zero =>
    obtain rfl := Except.ok.inj hpost
    exact h
  | succ n ih =>
    obtain ⟨u, hbefore, hlast⟩ := bind_eq_ok hpost
    exact (ih hbefore).post hsize hN hfit hmax (ho n).1 (ho n).2 (hmrPostRecv_cases hlast)

/-- An event keeps the window, moved by one slot if it completes a receive. -/
theorem RecvSlots.step (h : RecvSlots N size k (m + 1) t) {e : DataEvent} (he : RecvsServed e)
    (hstep : dataStep t e = some t') :
    RecvSlots N size (k + if e.isRecv then 1 else 0) (m + 1) t' := by
  cases e with
  | send msg o =>
    obtain ⟨r, hsend⟩ := dataStep_send hstep
    exact h.of_recvSide hsend.recvSide
  | tick a => exact h.of_recvSide (dataStep_tick hstep).recvSide
  | sendComplete i status o => exact h.of_recvSide (sendComplete_recvSide hstep)
  | recvComplete frame status o =>
    cases dataStep_recvComplete hstep with
    | flushed _ _ _ hstatus => exact absurd he.1 hstatus
    | received wr pool u _ _ hpool hbody hrepost =>
      have hwritten : RecvSlots N size (k + 1) m (t.pollRecv.hcaWrite wr.sgList.addr frame) := by
        apply h.poll.of_recvSide
        simp only [HmrRdmaTransport.recvSide, HmrRdmaTransport.hcaWrite, Option.map_map]
        rfl
      exact (hwritten.of_recvSide hbody.recvSide).post hsize hN hfit hmax he.2.1 he.2.2 hrepost

/-- A run moves the window by the receives it completes. -/
theorem RecvSlots.run (h : RecvSlots N size k (m + 1) t) {events : List DataEvent}
    (hevents : ∀ e ∈ events, RecvsServed e) (hrun : runEvents dataStep t events = some t') :
    RecvSlots N size (k + events.countP DataEvent.isRecv) (m + 1) t' := by
  induction events generalizing t k with
  | nil =>
    obtain rfl := Option.some.inj hrun
    exact h
  | cons e events ih =>
    obtain ⟨u, hstep, hrest⟩ := runEvents_cons_eq_some.mp hrun
    have hu := h.step hsize hN hfit hmax (hevents e (by simp)) hstep
    have ht := ih hu (fun f hf => hevents f (by simp [hf])) hrest
    rwa [List.countP_cons, Nat.add_comm (List.countP _ _), ← Nat.add_assoc]

end Slots

/-- Two receives whose buffers are apart. -/
def BuffersApart (a b : IbvRecvWr) : Prop :=
  Disjoint (span a.sgList.addr a.sgList.length) (span b.sgList.addr b.sgList.length)

/-- The discipline of the receive ring. The message of a completed receive stays in its buffer
while `process_resp` sees it, through the repost, and through one more completion. -/
structure RecvDiscipline (size : ℤ) (t : HmrRdmaTransport) : Prop where
  outstanding : (t.qp.rq.length : ℤ) = allocMemSize / size - 2
  inside : ∀ wr ∈ t.qp.rq, recvRegion ≤ wr.sgList.addr ∧
    wr.sgList.addr + wr.sgList.length ≤ recvRegion + allocMemSize
  apart : t.qp.rq.Pairwise BuffersApart
  handled : ∀ wr frame o t' later t'', t.qp.rq.head? = some wr →
    dataStep t (.recvComplete frame .success o) = some t' → o.recvCalloc → o.recvPost →
    (∀ e ∈ later, RecvsServed e) → later.countP DataEvent.isRecv ≤ 1 →
    runEvents dataStep t' later = some t'' →
      (∀ wr' ∈ t.pollRecv.qp.rq, BuffersApart wr wr') ∧ ∀ wr' ∈ t''.qp.rq, BuffersApart wr wr'

section Discipline

variable {N k m : ℕ} {size : ℤ} {t : HmrRdmaTransport}

/-- The buffers of the posted receives, one by one. -/
theorem RecvSlots.mem (h : RecvSlots N size k m t) {wr : IbvRecvWr} (hwr : wr ∈ t.qp.rq) :
    ∃ start ∈ slotWindow N size k m,
      wr.sgList.addr = recvRegion + start ∧ (wr.sgList.length : ℤ) = size := by
  have hmem := List.mem_map_of_mem (f := fun wr : IbvRecvWr =>
    (wr.sgList.addr, (wr.sgList.length : ℤ))) hwr
  rw [h.posted] at hmem
  obtain ⟨start, hstart, heq⟩ := List.mem_map.mp hmem
  obtain ⟨haddr, hlength⟩ := Prod.mk.inj heq
  exact ⟨start, hstart, haddr.symm, hlength.symm⟩

/-- Buffers in disjoint slots are apart. -/
theorem buffersApart_of_slots {a b : IbvRecvWr} {x y : ℤ} (hsize : 0 < size)
    (ha : a.sgList.addr = recvRegion + x ∧ (a.sgList.length : ℤ) = size)
    (hb : b.sgList.addr = recvRegion + y ∧ (b.sgList.length : ℤ) = size)
    (h : Disjoint (span x size) (span y size)) : BuffersApart a b := by
  rw [span_disjoint_iff hsize hsize] at h
  rw [BuffersApart, ha.1, ha.2, hb.1, hb.2, span_disjoint_iff hsize hsize]
  omega

/-- A buffer in a slot before the window, and less than a lap, is apart from all posted ones. -/
theorem RecvSlots.apart_of_before (hsize : 0 < size) (h : RecvSlots N size k m t) {i : ℕ}
    (hlt : i < k) (hlap : k + m ≤ i + N) {wr : IbvRecvWr}
    (hwr : wr.sgList.addr = recvRegion + slotStart N size i ∧ (wr.sgList.length : ℤ) = size) :
    ∀ wr' ∈ t.qp.rq, BuffersApart wr wr' := by
  intro wr' hwr'
  obtain ⟨start, hstart, hbuffer⟩ := h.mem hwr'
  exact buffersApart_of_slots hsize hwr hbuffer (slotWindow_apart hsize hlt hlap start hstart)

/-- Posted buffers are pairwise apart. -/
theorem RecvSlots.pairwise (hsize : 0 < size) (h : RecvSlots N size k m t) (hm : m ≤ N) :
    t.qp.rq.Pairwise BuffersApart := by
  have hslots := slotWindow_pairwise (N := N) hsize k hm
  have hranges : ((slotWindow N size k m).map fun start => (recvRegion + start, size)).Pairwise
      fun p q => Disjoint (span p.1 p.2) (span q.1 q.2) := by
    rw [List.pairwise_map]
    refine hslots.imp fun {x y} hxy => ?_
    rw [span_disjoint_iff hsize hsize] at hxy ⊢
    omega
  rwa [← h.posted, List.pairwise_map] at hranges

/-- A window of all slots but two has the discipline of the ring. -/
theorem RecvSlots.discipline (hsize : 0 < size) (hN : 3 ≤ N) (hdiv : allocMemSize / size = N)
    (h : RecvSlots N size k (N - 3 + 1) t) : RecvDiscipline size t := by
  have hfit : N * size ≤ allocMemSize := hdiv ▸ Int.ediv_mul_le allocMemSize hsize.ne'
  have hmax : allocMemSize < (N + 1) * size := hdiv ▸ Int.lt_ediv_add_one_mul_self allocMemSize hsize
  refine ⟨?_, fun wr hwr => ?_, h.pairwise hsize (by omega), ?_⟩
  · have hlength := congrArg List.length h.posted
    simp only [slotWindow, List.length_map, List.length_range] at hlength
    rw [hdiv, hlength]
    omega
  · obtain ⟨start, hstart, haddr, hlength⟩ := h.mem hwr
    obtain ⟨j, -, rfl⟩ := List.mem_map.mp hstart
    have hslot := slot_inside hsize (by omega) hfit (k + j)
    omega
  · intro wr frame o t' later t'' hhead hstep hcalloc hpost hlater hcount hrun
    have hwr : wr.sgList.addr = recvRegion + slotStart N size k ∧
        (wr.sgList.length : ℤ) = size := by
      have hposted := congrArg List.head? h.posted
      rw [slotWindow_cons, List.map_cons, List.head?_cons, List.head?_map, hhead] at hposted
      exact Prod.mk.inj (Option.some.inj hposted)
    have ht' : RecvSlots N size (k + 1) (N - 3 + 1) t' :=
      h.step hsize (by omega) hfit hmax (e := .recvComplete frame .success o)
        ⟨rfl, hcalloc, hpost⟩ hstep
    have ht'' := ht'.run hsize (by omega) hfit hmax hlater hrun
    exact ⟨h.poll.apart_of_before hsize (Nat.lt_succ_self k) (by omega) hwr,
      ht''.apart_of_before hsize (by omega) (by omega) hwr⟩

end Discipline

/-- With a pool the receives posted up front return. -/
theorem postRecvs_returns (o : ℕ → Outcomes) {t : HmrRdmaTransport}
    (hpool : t.normalMempool.isSome) (n : ℕ) :
    ∃ t', postRecvs o n t = .ok t' ∧ t'.normalMempool.isSome := by
  induction n with
  | zero => exact ⟨t, rfl, hpool⟩
  | succ n ih =>
    obtain ⟨u, hu, hpool'⟩ := ih
    obtain ⟨pool, hpool'⟩ := Option.isSome_iff_exists.mp hpool'
    simp only [postRecvs, hu, Except.bind, hmrPostRecv, hmrRecvTaskCreate, hpool']
    cases (o n).recvCalloc with
    | false => exact ⟨u, rfl, by rw [hpool']; rfl⟩
    | true => cases (o n).recvPost <;> exact ⟨_, rfl, rfl⟩

/-- Receive ring discipline: `hmr_pre_post_recv` on a fresh pool returns, and in every state of
every run behind it whose receives complete successfully and are posted again the ring has its
discipline. -/
theorem recvRing_discipline {size : ℤ} {t₀ : HmrRdmaTransport} {pool : HmrMempool}
    {o : ℕ → Outcomes} (hsize : 1 ≤ size) (hslots : 3 ≤ allocMemSize / size)
    (hpool : t₀.normalMempool = some pool) (hfresh : pool.usedRecvRegion = 0)
    (hrq : t₀.qp.rq = []) (hdefault : t₀.defaultRecvSize = size)
    (ho : ∀ i, (o i).recvCalloc ∧ (o i).recvPost) :
    ∃ t₁, hmrPrePostRecv o t₀ = .ok t₁ ∧ ∀ events t, (∀ e ∈ events, RecvsServed e) →
      runEvents dataStep t₁ events = some t → RecvDiscipline size t := by
  obtain ⟨N, hdiv⟩ := Int.eq_ofNat_of_zero_le (by omega : 0 ≤ allocMemSize / size)
  have hN : 3 ≤ N := by omega
  have hfit : N * size ≤ allocMemSize := hdiv ▸ Int.ediv_mul_le allocMemSize (by omega)
  have hmax : allocMemSize < (N + 1) * size :=
    hdiv ▸ Int.lt_ediv_add_one_mul_self allocMemSize (by omega)
  have hempty : RecvSlots N size 0 0 t₀ := by
    refine ⟨hdefault, ⟨0, by rw [hpool, Option.map_some, hfresh], le_rfl, by decide, ?_⟩, ?_⟩
    · have hfirst := (slot_inside (by omega) (by omega) hfit 0).2
      simp only [slotStart, Nat.zero_mod, Nat.cast_zero, zero_mul, Nat.add_zero] at hfirst ⊢
      rw [ringPlace, if_neg (by omega)]
    · simp [hrq, slotWindow]
  have hcount : prePostCount t₀.defaultRecvSize = N - 3 + 1 := by
    rw [prePostCount, hdefault, hdiv]
    omega
  obtain ⟨t₁, hpre, -⟩ := postRecvs_returns o (t := t₀) (by rw [hpool]; rfl) (N - 3 + 1)
  refine ⟨t₁, by rw [hmrPrePostRecv, hcount, hpre], fun events t hevents hrun => ?_⟩
  have hposted : RecvSlots N size 0 (N - 3 + 1) t₁ :=
    hempty.postRecvs (by omega) (by omega) hfit hmax ho hpre
  exact (hposted.run (by omega) (by omega) hfit hmax hevents hrun).discipline (by omega) hN hdiv

/-- The ring of eight slots that `MAX_RECV_SIZE` gives. -/
theorem recvRing_discipline_default :
    ∃ t₁, hmrPrePostRecv (fun _ => .ok) sampleTransport = .ok t₁ ∧ ∀ events t,
      (∀ e ∈ events, RecvsServed e) → runEvents dataStep t₁ events = some t →
        RecvDiscipline maxRecvSize t :=
  recvRing_discipline (by decide) (by decide) rfl rfl rfl rfl fun _ => ⟨rfl, rfl⟩

end HmrRpc
