import HmrRpc.TransportRun

/-!
# The cursor into the peer's region

Each tick takes the remote addresses of its WRITE requests from `used_normal_size`,
which only ever grows between two MR messages. The region it walks through has the
length the peer announced, so all writes stay inside exactly as long as every tick fits
into what is left.
-/

namespace HmrRpc

open Common

/-- The bytes a request writes to the peer's region. -/
def IbvSendWr.written (wr : IbvSendWr) : ℕ := if wr.opcode = .rdmaWrite then wr.sgList.length else 0

/-- The bytes the requests write to the peer's region. -/
def writtenBytes (wrs : List IbvSendWr) : ℕ := (wrs.map IbvSendWr.written).sum

/-- The bytes the tasks will write to the peer's region. -/
def writeBytes (tasks : List HmrTask) : ℕ := (tasks.map HmrTask.writeLength).sum

/-- The target of a WRITE lies in the region. -/
def IbvMr.Contains (mr : IbvMr) (wr : IbvSendWr) : Prop :=
  (mr.addr.toNat : ℤ) ≤ wr.remoteAddr ∧
    wr.remoteAddr + wr.sgList.length ≤ mr.addr.toNat + mr.length.toNat

/-- Every WRITE posted targets the peer's region, and the cursor is their exact total. -/
structure RemoteWritesInside (t : HmrRdmaTransport) : Prop where
  inside : ∀ wr ∈ t.remoteWrites, t.peerInfo.normalMr.Contains wr
  cursor : t.peerInfo.usedNormalSize = writtenBytes t.remoteWrites

/-- The events after the exchange: posts succeed and no further MR arrives. -/
def AfterExchange : DataEvent → Prop
  | .tick accepted => accepted = none
  | .recvComplete frame _ _ => sizeofMsgType ≤ frame.length ∧ receivedType frame.byte ≠ .mr
  | _ => True

/-- The WRITE tasks a tick finds on the list fit the rest of the peer's region, and of an `int`. -/
def FitsRemote (t : HmrRdmaTransport) : DataEvent → Prop
  | .tick _ => t.peerInfo.usedNormalSize + writeBytes t.sendTaskList ≤
      min (t.peerInfo.normalMr.length.toNat : ℤ) intMax
  | _ => True

instance (t : HmrRdmaTransport) : (e : DataEvent) → Decidable (FitsRemote t e)
  | .tick _ => inferInstanceAs (Decidable (_ ≤ _))
  | .send .. | .sendComplete .. | .recvComplete .. => isTrue trivial

section Fill

variable {peer : HmrPeerInfo} (i : ℕ) (tasks : List HmrTask)

/-- A request writes what its task does. -/
theorem fillSendWrs_written (peer : HmrPeerInfo) :
    (fillSendWrs peer i tasks).1.map IbvSendWr.written = tasks.map HmrTask.writeLength := by
  induction tasks generalizing peer i with
  | nil => rfl
  | cons task rest ih =>
    rw [fillSendWrs, List.map_cons, ih, List.map_cons]
    congr 1
    simp only [IbvSendWr.written, fillSendWr, HmrTask.writeLength, hmrGetOpcodeFromTask_eq_write]

/-- The chain of a list writes what its tasks do. -/
theorem sendChain_written (peer : HmrPeerInfo) :
    writtenBytes (sendChain peer tasks) = writeBytes tasks := by
  rw [writtenBytes, sendChain_eq, map_endChain _ (fun _ => rfl), fillSendWrs_written, writeBytes]

/-- One pass adds the bytes of a WRITE to an `int` cursor. -/
theorem fillSendWr_usedNormalSize (peer : HmrPeerInfo) (task : HmrTask)
    (hint : cInt peer.usedNormalSize = peer.usedNormalSize) :
    (fillSendWr peer i task).2.usedNormalSize = cInt (peer.usedNormalSize + task.writeLength) := by
  simp only [fillSendWr, hmrGetOpcodeFromTask_eq_write, HmrTask.writeLength]
  split
  · rfl
  · rw [Nat.cast_zero, add_zero, hint]

/-- So the loop adds the bytes of all WRITE tasks. -/
theorem fillSendWrs_usedNormalSize (peer : HmrPeerInfo)
    (hint : cInt peer.usedNormalSize = peer.usedNormalSize) :
    (fillSendWrs peer i tasks).2.usedNormalSize =
      cInt (peer.usedNormalSize + writeBytes tasks) := by
  induction tasks generalizing peer i with
  | nil => simp [fillSendWrs, writeBytes, hint]
  | cons task rest ih =>
    have hfirst := fillSendWr_usedNormalSize i peer task hint
    have hint' : cInt (fillSendWr peer i task).2.usedNormalSize =
        (fillSendWr peer i task).2.usedNormalSize := by
      rw [hfirst]
      exact cInt_of_range (cInt_range _).1 (cInt_range _).2
    rw [fillSendWrs]
    dsimp only
    rw [ih _ _ hint', hfirst]
    simp only [writeBytes, List.map_cons, List.sum_cons, Nat.cast_add, cInt]
    omega

/-- One pass advances the cursor by the bytes of the task while that is an `int`. -/
theorem fillSendWr_cursor (peer : HmrPeerInfo) (task : HmrTask)
    (hlo : -2 ^ 31 ≤ peer.usedNormalSize)
    (hhi : peer.usedNormalSize + task.writeLength ≤ intMax) :
    (fillSendWr peer i task).2.usedNormalSize = peer.usedNormalSize + task.writeLength := by
  unfold intMax at hhi
  rw [fillSendWr_usedNormalSize i peer task (cInt_of_range hlo (by omega))]
  exact cInt_of_range (by omega) (by omega)

/-- The loop advances the cursor by the bytes of all tasks while that is an `int`. -/
theorem fillSendWrs_cursor (hlo : -2 ^ 31 ≤ peer.usedNormalSize)
    (hhi : peer.usedNormalSize + writeBytes tasks ≤ intMax) :
    (fillSendWrs peer i tasks).2.usedNormalSize = peer.usedNormalSize + writeBytes tasks := by
  unfold intMax at hhi
  rw [fillSendWrs_usedNormalSize i tasks peer (cInt_of_range hlo (by omega))]
  exact cInt_of_range (by omega) (by omega)

/-- The cursor never leaves the `int` range. -/
theorem fillSendWrs_cursor_le (hhi : peer.usedNormalSize ≤ intMax) :
    (fillSendWrs peer i tasks).2.usedNormalSize ≤ intMax := by
  induction tasks generalizing peer i with
  | nil => exact hhi
  | cons task rest ih =>
    apply ih
    simp only [fillSendWr]
    split
    · have hrange := (cInt_range (peer.usedNormalSize + task.ibvSge.length)).2
      unfold intMax
      omega
    · exact hhi

/-- The request of a WRITE task goes to the region's part at the cursor. -/
theorem fillSendWr_target {task : HmrTask} (hopcode : (fillSendWr peer i task).1.opcode = .rdmaWrite) :
    task.writeLength = (fillSendWr peer i task).1.sgList.length ∧
      (fillSendWr peer i task).1.remoteAddr =
        (peer.normalMr.addr.toNat + peer.usedNormalSize) % 2 ^ 64 := by
  have htype : task.taskType = .write := hmrGetOpcodeFromTask_eq_write.mp hopcode
  simp [fillSendWr, HmrTask.writeLength, htype, hmrGetOpcodeFromTask]

/-- Where the WRITE requests go: to consecutive parts of the region from the cursor on. -/
theorem fillSendWrs_target (hlo : 0 ≤ peer.usedNormalSize)
    (hhi : peer.usedNormalSize + writeBytes tasks ≤ intMax) :
    ∀ wr ∈ (fillSendWrs peer i tasks).1, wr.opcode = .rdmaWrite →
      ∃ offset, peer.usedNormalSize ≤ offset ∧
        offset + wr.sgList.length ≤ peer.usedNormalSize + writeBytes tasks ∧
        wr.remoteAddr = (peer.normalMr.addr.toNat + offset) % 2 ^ 64 := by
  induction tasks generalizing peer i with
  | nil => simp [fillSendWrs]
  | cons task rest ih =>
    simp only [writeBytes, List.map_cons, List.sum_cons, Nat.cast_add] at hhi ih ⊢
    have hcursor := fillSendWr_cursor i peer task (by omega) (by omega)
    intro wr hwr hopcode
    rcases List.mem_cons.mp hwr with rfl | hrest
    · obtain ⟨hlength, htarget⟩ := fillSendWr_target i hopcode
      exact ⟨peer.usedNormalSize, le_rfl, by rw [← hlength]; omega, htarget⟩
    · obtain ⟨offset, hge, hle, htarget⟩ :=
        ih (i + 1) (by rw [hcursor]; omega) (by rw [hcursor]; omega) wr hrest hopcode
      rw [hcursor] at hge hle
      exact ⟨offset, by omega, by omega, htarget⟩

/-- If the tasks write anything, the last part ends at the advanced cursor. -/
theorem fillSendWrs_last (hlo : 0 ≤ peer.usedNormalSize)
    (hhi : peer.usedNormalSize + writeBytes tasks ≤ intMax) :
    writeBytes tasks = 0 ∨ ∃ wr ∈ (fillSendWrs peer i tasks).1, wr.opcode = .rdmaWrite ∧
      ∃ offset, peer.usedNormalSize ≤ offset ∧
        offset + wr.sgList.length = peer.usedNormalSize + writeBytes tasks ∧
        wr.remoteAddr = (peer.normalMr.addr.toNat + offset) % 2 ^ 64 := by
  induction tasks generalizing peer i with
  | nil => exact .inl rfl
  | cons task rest ih =>
    simp only [writeBytes, List.map_cons, List.sum_cons, Nat.cast_add] at hhi ih ⊢
    have hcursor := fillSendWr_cursor i peer task (by omega) (by omega)
    rcases ih (i + 1) (by rw [hcursor]; omega) (by rw [hcursor]; omega) with
      hzero | ⟨wr, hwr, hopcode, offset, hge, hend, htarget⟩
    · by_cases hopcode : (fillSendWr peer i task).1.opcode = .rdmaWrite
      · obtain ⟨hlength, htarget⟩ := fillSendWr_target i hopcode
        exact .inr ⟨_, .head _, hopcode, peer.usedNormalSize, le_rfl, by omega, htarget⟩
      · have htype : task.taskType ≠ .write := fun h =>
          hopcode (hmrGetOpcodeFromTask_eq_write.mpr h)
        exact .inl (by rw [hzero, HmrTask.writeLength, if_neg htype])
    · rw [hcursor] at hge hend
      exact .inr ⟨wr, .tail _ hwr, hopcode, offset, by omega, by omega, htarget⟩

end Fill

/-- The cursor and the writes behind it. -/
structure RemoteCursor (t : HmrRdmaTransport) : Prop where
  region : t.peerInfo.normalMr.addr.toNat + t.peerInfo.normalMr.length.toNat < 2 ^ 64
  room : t.peerInfo.usedNormalSize ≤ min (t.peerInfo.normalMr.length.toNat : ℤ) intMax
  writes : RemoteWritesInside t
  recvs : t.RecvsMatch

section Step

variable {t t' : HmrRdmaTransport}

/-- The WRITE requests among posted ones write what all of them do. -/
theorem writtenBytes_filter (wrs : List IbvSendWr) :
    writtenBytes (wrs.filter fun wr => wr.opcode = .rdmaWrite) = writtenBytes wrs := by
  induction wrs with
  | nil => rfl
  | cons wr rest ih =>
    simp only [writtenBytes] at ih
    by_cases hopcode : wr.opcode = .rdmaWrite
    · simp [writtenBytes, hopcode, ih]
    · simp [writtenBytes, hopcode, ih, IbvSendWr.written]

/-- An event that keeps the peer's information and posts no WRITE keeps the cursor. -/
theorem RemoteCursor.of_same (h : RemoteCursor t) (hpeer : t'.peerInfo = t.peerInfo)
    (hwrites : t'.remoteWrites = t.remoteWrites) (hrecvs : t'.RecvsMatch) : RemoteCursor t' where
  region := hpeer ▸ h.region
  room := hpeer ▸ h.room
  writes := ⟨by rw [hpeer, hwrites]; exact h.writes.inside,
    by rw [hpeer, hwrites]; exact h.writes.cursor⟩
  recvs := hrecvs

/-- Apart from ticks, no event after the exchange moves the cursor or posts a WRITE. -/
theorem afterExchange_frame {e : DataEvent} (h : t.RecvsMatch) (he : AfterExchange e)
    (htick : ∀ a, e ≠ .tick a) (hstep : dataStep t e = some t') :
    t'.peerInfo = t.peerInfo ∧ t'.remoteWrites = t.remoteWrites := by
  cases e with
  | send msg o =>
    obtain ⟨r, hsend⟩ := dataStep_send hstep
    exact ⟨hsend.peerInfo, hsend.remoteWrites⟩
  | tick a => exact absurd rfl (htick a)
  | sendComplete i status o =>
    obtain ⟨-, -, hpeer, hqp⟩ := dataStep_sendComplete_frame hstep
    refine ⟨hpeer, ?_⟩
    rw [HmrRdmaTransport.remoteWrites, hqp]
    rfl
  | recvComplete frame status o =>
    cases dataStep_recvComplete hstep with
    | flushed => exact ⟨rfl, rfl⟩
    | received wr pool u _ hhead hpool hbody hrepost =>
      have hmatch := h wr (List.mem_of_mem_head? hhead)
      have htype := receivedType_of_match hmatch hpool he.1
      rw [htype] at hbody
      refine ⟨hrepost.peerInfo.trans (hbody.peerInfo he.2), ?_⟩
      rw [HmrRdmaTransport.remoteWrites, hrepost.sends.2.2.2]
      exact hbody.remoteWrites

/-- A tick adds the WRITE requests of the list to those posted. -/
theorem flushed_remoteWrites (t : HmrRdmaTransport) :
    t.flushed.remoteWrites = t.remoteWrites ++
      (sendChain t.peerInfo t.sendTaskList).filter fun wr => wr.opcode = .rdmaWrite :=
  List.filter_append _ _

/-- And so their bytes. -/
theorem flushed_writtenBytes (t : HmrRdmaTransport) :
    writtenBytes t.flushed.remoteWrites =
      writtenBytes t.remoteWrites + writeBytes t.sendTaskList := by
  rw [flushed_remoteWrites, writtenBytes, List.map_append, List.sum_append]
  exact congrArg _ ((writtenBytes_filter _).trans (sendChain_written _ _))

/-- A tick that fits keeps the writes inside and the cursor exact. -/
theorem RemoteCursor.flush (h : RemoteCursor t) (hfits : FitsRemote t (.tick none)) :
    RemoteCursor t.flushed := by
  have hnonneg : 0 ≤ t.peerInfo.usedNormalSize := by rw [h.writes.cursor]; positivity
  have hbound : t.peerInfo.usedNormalSize + writeBytes t.sendTaskList ≤
      min (t.peerInfo.normalMr.length.toNat : ℤ) intMax := hfits
  have hcursor : t.flushed.peerInfo.usedNormalSize =
      t.peerInfo.usedNormalSize + writeBytes t.sendTaskList :=
    fillSendWrs_cursor 0 _ (by omega) (hbound.trans (min_le_right _ _))
  have hmr : t.flushed.peerInfo.normalMr = t.peerInfo.normalMr := fillSendWrs_normalMr _ _ _
  refine ⟨by rw [hmr]; exact h.region, by rw [hmr, hcursor]; exact hbound, ⟨?_, ?_⟩, h.recvs⟩
  · rw [hmr, flushed_remoteWrites]
    intro wr hwr
    rcases List.mem_append.mp hwr with hold | hnew
    · exact h.writes.inside wr hold
    · obtain ⟨hmem, hopcode⟩ := List.mem_filter.mp hnew
      have htargets := (forall_sendChain (P := fun wr => wr.opcode = .rdmaWrite →
        t.peerInfo.normalMr.Contains wr) (fun _ => Iff.rfl) _ _).mpr fun wr hwr hopcode => by
          obtain ⟨offset, hge, hle, htarget⟩ := fillSendWrs_target 0 t.sendTaskList hnonneg
            (hbound.trans (min_le_right _ _)) wr hwr hopcode
          have hregion := h.region
          have hlength := hbound.trans (min_le_left _ _)
          rw [Int.emod_eq_of_lt (by omega) (by omega)] at htarget
          exact ⟨by omega, by omega⟩
      exact htargets wr hmem (of_decide_eq_true hopcode)
  · rw [hcursor, h.writes.cursor, flushed_writtenBytes]
    push_cast
    rfl

/-- A tick that keeps them so has fit. -/
theorem RemoteCursor.fits_of_flush (h : RemoteCursor t) (hafter : RemoteWritesInside t.flushed) :
    FitsRemote t (.tick none) := by
  have hnonneg : 0 ≤ t.peerInfo.usedNormalSize := by rw [h.writes.cursor]; positivity
  have hroom := h.room
  have hint : t.peerInfo.usedNormalSize + writeBytes t.sendTaskList ≤ intMax := by
    have hle : t.flushed.peerInfo.usedNormalSize ≤ intMax :=
      fillSendWrs_cursor_le 0 _ (hroom.trans (min_le_right _ _))
    rw [hafter.cursor, flushed_writtenBytes] at hle
    rw [h.writes.cursor]
    exact_mod_cast hle
  refine le_min ?_ hint
  rcases fillSendWrs_last 0 t.sendTaskList hnonneg hint with
    hzero | ⟨wr, hwr, hopcode, offset, hge, hend, htarget⟩
  · rw [hzero]
    simpa using hroom.trans (min_le_left _ _)
  · have hcontains := (forall_sendChain (P := fun wr => wr.opcode = .rdmaWrite →
      t.peerInfo.normalMr.Contains wr) (fun _ => Iff.rfl) t.peerInfo t.sendTaskList).mp
      (fun wr hwr hopcode => by
        rw [← fillSendWrs_normalMr t.peerInfo 0 t.sendTaskList]
        apply hafter.inside wr
        rw [flushed_remoteWrites]
        exact List.mem_append_right _ (List.mem_filter.mpr ⟨hwr, decide_eq_true hopcode⟩)) wr hwr
        hopcode
    -- past the end of the address space the target would be below the region
    obtain ⟨hlow, hhigh⟩ := hcontains
    have hregion := h.region
    unfold intMax at hint
    omega

/-- One event after the exchange keeps the cursor, if a tick fits. -/
theorem RemoteCursor.step {e : DataEvent} (h : RemoteCursor t) (he : AfterExchange e)
    (hfits : FitsRemote t e) (hstep : dataStep t e = some t') : RemoteCursor t' := by
  by_cases htick : ∃ a, e = .tick a
  · obtain ⟨a, rfl⟩ := htick
    obtain rfl : a = none := he
    cases dataStep_tick hstep with
    | idle => exact h
    | flushed => exact h.flush hfits
  · obtain ⟨hpeer, hwrites⟩ :=
      afterExchange_frame h.recvs he (fun a ha => htick ⟨a, ha⟩) hstep
    exact h.of_same hpeer hwrites (dataStep_recvsMatch h.recvs hstep)

/-- An event after which the writes are inside and the cursor exact has fit. -/
theorem RemoteCursor.fits_of_step {e : DataEvent} (h : RemoteCursor t) (he : AfterExchange e)
    (hstep : dataStep t e = some t') (hafter : RemoteWritesInside t') : FitsRemote t e := by
  cases e with
  | tick a =>
    obtain rfl : a = none := he
    cases dataStep_tick hstep with
    | idle _ hempty =>
      rw [FitsRemote, hempty]
      simpa [writeBytes] using h.room
    | flushed => exact h.fits_of_flush hafter
  | _ => trivial

end Step

/-- After the exchange, a run keeps every WRITE inside the peer's region and the cursor exact if
and only if each of its ticks fits what is left. -/
theorem remoteWritesInside_iff {t : HmrRdmaTransport} {events : List DataEvent}
    (hregion : t.peerInfo.normalMr.addr.toNat + t.peerInfo.normalMr.length.toNat < 2 ^ 64)
    (hcursor : t.peerInfo.usedNormalSize = 0) (hwrites : t.remoteWrites = [])
    (hrecvs : t.RecvsMatch) (hevents : ∀ e ∈ events, AfterExchange e) :
    Always dataStep RemoteWritesInside t events ↔ Guarded dataStep FitsRemote t events := by
  have hstart : RemoteCursor t := by
    refine ⟨hregion, ?_, ⟨?_, ?_⟩, hrecvs⟩
    · rw [hcursor]
      exact le_min (by positivity) (by decide)
    · simp [hwrites]
    · rw [hcursor, hwrites]
      rfl
  exact always_iff_guarded (fun _ h => h.writes) (fun _ _ _ he h hfits hstep => h.step he hfits hstep)
    (fun _ _ _ he h hstep hafter => h.fits_of_step he hstep hafter) hevents hstart

/-- Two WRITEs into the sample peer's region, each flushed by a tick of its own. -/
def sampleFlushes : List DataEvent :=
  [.send (sampleMsg .write 92) .ok, .tick none, .send (sampleMsg .write 192) .ok, .tick none]

/-- They go to the first hundred bytes and the two hundred behind them. -/
theorem remoteWritesInside_sample :
    Always dataStep RemoteWritesInside sampleTransport sampleFlushes ∧
      ((runEvents dataStep sampleTransport sampleFlushes).map fun t =>
        t.remoteWrites.map fun wr => (wr.remoteAddr, wr.sgList.length)) =
        some [(2048, 100), (2148, 200)] := by
  refine ⟨(remoteWritesInside_iff (by decide) rfl rfl (fun wr hwr => absurd hwr List.not_mem_nil)
    ?_).mpr ?_, by decide⟩
  · simp only [sampleFlushes, List.mem_cons, List.not_mem_nil, or_false]
    rintro e (rfl | rfl | rfl | rfl)
    · trivial
    · rfl
    · trivial
    · rfl
  · decide

/-- The second of two WRITE frames of 600 bytes leaves the sample peer's region of 1024. -/
theorem remoteWrites_leave :
    ¬∀ (t : HmrRdmaTransport) (events : List DataEvent),
      t.peerInfo.normalMr.addr.toNat + t.peerInfo.normalMr.length.toNat < 2 ^ 64 →
      t.peerInfo.usedNormalSize = 0 → t.remoteWrites = [] → t.RecvsMatch →
      (∀ e ∈ events, AfterExchange e) → Always dataStep RemoteWritesInside t events := by
  intro h
  let events : List DataEvent :=
    [.send (sampleMsg .write 592) .ok, .tick none, .send (sampleMsg .write 592) .ok, .tick none]
  have hevents : ∀ e ∈ events, AfterExchange e := by
    simp only [events, List.mem_cons, List.not_mem_nil, or_false]
    rintro e (rfl | rfl | rfl | rfl)
    · trivial
    · rfl
    · trivial
    · rfl
  have hrun : (runEvents dataStep sampleTransport events).map (fun t => (t.peerInfo.normalMr.addr,
      t.peerInfo.normalMr.length, t.remoteWrites.map fun wr => (wr.remoteAddr, wr.sgList.length))) =
      some (2048, 1024, [(2048, 600), (2648, 600)]) := by decide
  obtain ⟨t, ht, hobs⟩ := Option.map_eq_some_iff.mp hrun
  simp only [Prod.mk.injEq] at hobs
  obtain ⟨haddr, hlength, htargets⟩ := hobs
  have hsecond : ((2648 : ℤ), 600) ∈ t.remoteWrites.map fun wr => (wr.remoteAddr, wr.sgList.length) := by
    rw [htargets]
    exact .tail _ (.head _)
  obtain ⟨wr, hwr, htarget⟩ := List.mem_map.mp hsecond
  obtain ⟨hremote, hsize⟩ := Prod.mk.inj htarget
  have hcontains := ((h sampleTransport events (by decide) rfl rfl
    (fun wr hwr => absurd hwr List.not_mem_nil) hevents).of_run ht).inside wr hwr
  rw [IbvMr.Contains, haddr, hlength, hremote, hsize] at hcontains
  revert hcontains
  decide

end HmrRpc
