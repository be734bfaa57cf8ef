import HmrRpc.Common.Extent
import HmrRpc.FlushChain
import HmrRpc.MrOnce
import HmrRpc.SendSide

/-!
# Flushes that fail part of the way

A failing `ibv_post_send` has accepted the requests in front of the bad one. The handler
leaves the whole list in place and has advanced the cursor for every WRITE of it, so the
list and the cursor stay true to what was accepted only if nothing was, and if no WRITE
moved the cursor.

`FlushHistory` adds to a transport how many WRITE ranges were posted before its peer's
latest MR arrived, as each MR starts the cursor anew.
-/

namespace HmrRpc

open Common

/-- Of the list the first `k` tasks are gone, and the cursor is behind their WRITE requests. -/
structure PrefixFlushed (t t' : HmrRdmaTransport) (k : ℕ) : Prop where
  list : t'.sendTaskList = t.sendTaskList.drop k
  cursor : t'.peerInfo.usedNormalSize =
    t.peerInfo.usedNormalSize + writeBytes (t.sendTaskList.take k)

/-- A post that accepts nothing of a list whose WRITE tasks leave an `int` cursor where it was. -/
def AcceptsNothing (t : HmrRdmaTransport) (k : ℕ) : Prop :=
  k = 0 ∧ 2 ^ 32 ∣ writeBytes t.sendTaskList

/-- A transport, and the number of WRITE ranges posted before the latest MR arrived. -/
structure FlushHistory where
  trans : HmrRdmaTransport
  before : ℕ

/-- The ranges posted since. -/
def FlushHistory.ranges (h : FlushHistory) : List (ℤ × ℕ) := h.trans.writeTargets.drop h.before

/-- One event of a transport's life, with its history. -/
def historyStep (h : FlushHistory) (e : LifecycleEvent) : Option FlushHistory :=
  (lifecycleStep h.trans e).map fun t =>
    ⟨t, if t.mrsReceived = h.trans.mrsReceived then h.before else t.writeTargets.length⟩

/-- The place of an offset into the peer's region. -/
def IbvMr.place (mr : IbvMr) (offset : ℤ) : ℤ := (mr.addr.toNat + offset) % 2 ^ 64

/-- The tasks of the requests accepted. -/
def HmrRdmaTransport.postedIds (t : HmrRdmaTransport) : List ℕ :=
  t.qp.sendLog.map fun wr => wr.wrId.id

/-- No task has been posted twice, those on the list are neither posted nor freed, and the WRITE
ranges posted since the MR fill the peer's region from its start up to the cursor. -/
structure FlushConsistent (h : FlushHistory) : Prop where
  once : h.trans.postedIds.Nodup
  unposted : ∀ task ∈ h.trans.sendTaskList, task.id ∉ h.trans.postedIds
  unfreed : ∀ task ∈ h.trans.sendTaskList, task.id ∉ h.trans.freedTasks
  consecutive : Consecutive h.trans.peerInfo.normalMr.place 0 h.ranges
  cursor : h.trans.peerInfo.usedNormalSize = extent h.ranges

/-- A tick whose post succeeds fits an `int` cursor, and one whose post fails has nothing accepted. -/
def FlushesCleanly (h : FlushHistory) : LifecycleEvent → Prop
  | .data (.tick none) =>
    h.trans.peerInfo.usedNormalSize + writeBytes h.trans.sendTaskList ≤ intMax
  | .data (.tick (some k)) => h.trans.sendTaskList = [] ∨ AcceptsNothing h.trans k
  | _ => True

section Tick

variable {t t' : HmrRdmaTransport} {k : ℕ}

/-- An `int` cursor stays where it was exactly if the bytes added are a multiple of its range. -/
theorem cInt_add_eq_self {used : ℤ} (hint : cInt used = used) (n : ℕ) :
    cInt (used + n) = used ↔ 2 ^ 32 ∣ n := by
  unfold cInt at *
  omega

/-- A list loses no task exactly if none is dropped. -/
theorem drop_eq_self_iff {A : Type*} {l : List A} (hne : l ≠ []) : l.drop k = l ↔ k = 0 := by
  constructor
  · intro h
    have hlength := congrArg List.length h
    have hpos := List.length_pos_of_ne_nil hne
    rw [List.length_drop] at hlength
    omega
  · rintro rfl
    rfl

/-- Behind a failed post the list and the cursor are those of the accepted prefix exactly if there
is none and the cursor has not moved. -/
theorem prefixFlushed_iff (hne : t.sendTaskList ≠ [])
    (hint : cInt t.peerInfo.usedNormalSize = t.peerInfo.usedNormalSize)
    (htick : hmrSendTaskHandler (some k) t = .ok t') :
    PrefixFlushed t t' k ↔ AcceptsNothing t k := by
  cases hmrSendTaskHandler_cases htick with
  | idle _ hempty => exact absurd hempty hne
  | failed =>
    have hcursor : (t.flushFailed k).peerInfo.usedNormalSize =
        cInt (t.peerInfo.usedNormalSize + writeBytes t.sendTaskList) :=
      fillSendWrs_usedNormalSize _ _ _ hint
    constructor
    · rintro ⟨hlist, hsize⟩
      obtain rfl := (drop_eq_self_iff hne).mp hlist.symm
      refine ⟨rfl, (cInt_add_eq_self hint _).mp ?_⟩
      rw [← hcursor, hsize]
      simp [writeBytes]
    · rintro ⟨rfl, hbytes⟩
      refine ⟨rfl, ?_⟩
      rw [hcursor, (cInt_add_eq_self hint _).mpr hbytes]
      simp [writeBytes]

/-- The WRITE requests the loop fills in are consecutive from the cursor on, while it is an `int`. -/
theorem fillSendWrs_consecutive {peer : HmrPeerInfo} (i : ℕ) (tasks : List HmrTask)
    (hlo : 0 ≤ peer.usedNormalSize) (hhi : peer.usedNormalSize + writeBytes tasks ≤ intMax) :
    Consecutive peer.normalMr.place peer.usedNormalSize
      ((fillSendWrs peer i tasks).1.filterMap IbvSendWr.target) := by
  induction tasks generalizing peer i with
  | nil => trivial
  | cons task rest ih =>
    have hbytes : (writeBytes (task :: rest) : ℤ) = task.writeLength + writeBytes rest := by
      simp [writeBytes]
    have hcursor := fillSendWr_cursor i peer task (by omega) (by omega)
    have hrest : Consecutive (fillSendWr peer i task).2.normalMr.place
        (fillSendWr peer i task).2.usedNormalSize
        ((fillSendWrs (fillSendWr peer i task).2 (i + 1) rest).1.filterMap IbvSendWr.target) :=
      ih (i + 1) (by omega) (by omega)
    rw [hcursor] at hrest
    rw [fillSendWrs, List.filterMap_cons]
    cases htarget : (fillSendWr peer i task).1.target with
    | none =>
      have hopcode : hmrGetOpcodeFromTask task ≠ .rdmaWrite := fun hwrite => by
        simp [IbvSendWr.target, fillSendWr, hwrite] at htarget
      have hlength : task.writeLength = 0 :=
        if_neg fun htype => hopcode (hmrGetOpcodeFromTask_eq_write.mpr htype)
      rwa [hlength, Nat.cast_zero, add_zero] at hrest
    | some range =>
      obtain ⟨hopcode, hrange⟩ := Option.ite_none_right_eq_some.mp htarget
      obtain rfl := Option.some.inj hrange
      obtain ⟨hlength, haddr⟩ := fillSendWr_target i hopcode
      exact ⟨haddr, hlength ▸ hrest⟩

/-- The WRITE ranges of requests are as long as what these write. -/
theorem extent_targets (wrs : List IbvSendWr) :
    extent (wrs.filterMap IbvSendWr.target) = writtenBytes wrs := by
  induction wrs with
  | nil => rfl
  | cons wr rest ih =>
    simp only [writtenBytes, List.map_cons, List.sum_cons] at ih ⊢
    by_cases hopcode : wr.opcode = .rdmaWrite
    · simp [IbvSendWr.target, IbvSendWr.written, hopcode, ih]
    · simp [IbvSendWr.target, IbvSendWr.written, hopcode, ih]

/-- A tick posts the ranges of its WRITE tasks. -/
theorem flushed_writeTargets (t : HmrRdmaTransport) :
    t.flushed.writeTargets = t.writeTargets ++
      (fillSendWrs t.peerInfo 0 t.sendTaskList).1.filterMap IbvSendWr.target := by
  rw [← sendChain_targets]
  exact List.filterMap_append

/-- The tasks it posts are those of the list. -/
theorem flushed_postedIds (t : HmrRdmaTransport) :
    t.flushed.postedIds = t.postedIds ++ t.sendTaskList.map HmrTask.id := by
  have hchain : (sendChain t.peerInfo t.sendTaskList).map (fun wr => wr.wrId.id) =
      t.sendTaskList.map HmrTask.id := by
    rw [← sendChain_wrId t.peerInfo t.sendTaskList, List.map_map, sendChain_wrId]
    rfl
  rw [HmrRdmaTransport.postedIds, ← hchain]
  exact List.map_append

/-- If a failing post accepts something, the first task of the list is posted and still there. -/
theorem flushFailed_posted (t : HmrRdmaTransport) (hne : t.sendTaskList ≠ []) :
    ∃ task ∈ (t.flushFailed (k + 1)).sendTaskList, task.id ∈ (t.flushFailed (k + 1)).postedIds := by
  obtain ⟨task, rest, hlist⟩ := List.exists_cons_of_ne_nil hne
  have hchain := sendChain_wrId t.peerInfo t.sendTaskList
  rw [hlist] at hchain
  obtain ⟨wr, wrs, hwrs, htask, -⟩ := List.map_eq_cons_iff.mp hchain
  refine ⟨task, by rw [HmrRdmaTransport.flushFailed]; exact hlist ▸ .head _, ?_⟩
  refine List.mem_map.mpr ⟨wr, List.mem_append_right _ ?_, by rw [htask]⟩
  rw [hlist, hwrs]
  exact .head _

end Tick

/-- Every task is posted or listed at most once, and freed only behind its post. -/
structure TaskOrder (t : HmrRdmaTransport) : Prop where
  ids : (t.postedIds ++ t.sendTaskList.map HmrTask.id).Nodup
  fresh : ∀ id ∈ t.postedIds ++ t.sendTaskList.map HmrTask.id, id < t.nextTask
  freed : t.freedTasks ⊆ t.postedIds
  outstanding : t.qp.sq ⊆ t.qp.sendLog

/-- The ranges posted since the MR lie behind one another up to the cursor, an `int`. -/
structure RangeOrder (h : FlushHistory) : Prop where
  before : h.before ≤ h.trans.writeTargets.length
  consecutive : Consecutive h.trans.peerInfo.normalMr.place 0 h.ranges
  cursor : h.trans.peerInfo.usedNormalSize = extent h.ranges
  room : h.trans.peerInfo.usedNormalSize ≤ intMax

/-- The two together make a consistent state. -/
theorem flushConsistent_of_order {h : FlushHistory} (htasks : TaskOrder h.trans)
    (hranges : RangeOrder h) : FlushConsistent h := by
  obtain ⟨honce, -, hapart⟩ := List.nodup_append'.mp htasks.ids
  have hunposted (task : HmrTask) (hmem : task ∈ h.trans.sendTaskList) :
      task.id ∉ h.trans.postedIds := fun hposted =>
    hapart hposted (List.mem_map_of_mem hmem)
  exact ⟨honce, hunposted, fun task hmem hfreed => hunposted task hmem (htasks.freed hfreed),
    hranges.consecutive, hranges.cursor⟩

section Order

variable {t t' : HmrRdmaTransport}

/-- What keeps the tasks posted and listed, and frees only posted ones, keeps their order. -/
theorem TaskOrder.of_same (h : TaskOrder t) (hlist : t'.sendTaskList = t.sendTaskList)
    (hlog : t'.qp.sendLog = t.qp.sendLog) (hout : SameOutstanding t t')
    (hfreed : t'.freedTasks ⊆ t.postedIds) : TaskOrder t' where
  ids := by
    rw [HmrRdmaTransport.postedIds, hlog, hlist]
    exact h.ids
  fresh id hid := by
    rw [HmrRdmaTransport.postedIds, hlog, hlist] at hid
    exact (h.fresh id hid).trans_le hout.nextTask
  freed := by
    rw [HmrRdmaTransport.postedIds, hlog]
    exact hfreed
  outstanding := by
    rw [hlog]
    exact List.Subset.trans hout.sq h.outstanding

/-- What posts or lists the next task beside those there keeps the order: its id is fresh. -/
theorem TaskOrder.of_fresh (h : TaskOrder t) (hnext : t.nextTask < t'.nextTask)
    (hperm : (t'.postedIds ++ t'.sendTaskList.map HmrTask.id).Perm
      (t.nextTask :: (t.postedIds ++ t.sendTaskList.map HmrTask.id)))
    (hfreed : t'.freedTasks ⊆ t'.postedIds) (hout : t'.qp.sq ⊆ t'.qp.sendLog) : TaskOrder t' where
  ids := by
    have hnew : t.nextTask ∉ t.postedIds ++ t.sendTaskList.map HmrTask.id := fun hmem =>
      lt_irrefl _ (h.fresh _ hmem)
    exact hperm.nodup_iff.mpr (List.nodup_cons.mpr ⟨hnew, h.ids⟩)
  fresh id hid := by
    rcases List.mem_cons.mp (hperm.subset hid) with rfl | hold
    · exact hnext
    · exact (h.fresh id hold).trans hnext
  freed := hfreed
  outstanding := hout

/-- So does an emission. -/
theorem TaskOrder.emit (h : TaskOrder t) (hemits : Emits t t')
    (hfreed : t'.freedTasks = t.freedTasks) : TaskOrder t' := by
  cases hemits with
  | nothing hlist hlog hout => exact h.of_same hlist hlog hout (hfreed ▸ h.freed)
  | queued task hid hlist hlog hsq hnext =>
    have hposted : t'.postedIds = t.postedIds := by
      rw [HmrRdmaTransport.postedIds, hlog]
      rfl
    refine h.of_fresh hnext ?_ ?_ ?_
    · rw [hposted, hlist, List.map_append, List.map_singleton, hid, ← List.append_assoc]
      exact List.perm_append_singleton _ _
    · rw [hfreed, hposted]
      exact h.freed
    · rw [hlog]
      exact List.Subset.trans hsq h.outstanding
  | posted wr hid hopcode hlist hlog hsq hnext =>
    have hposted : t'.postedIds = t.postedIds ++ [t.nextTask] := by
      rw [HmrRdmaTransport.postedIds, hlog, List.map_append, List.map_singleton, hid]
      rfl
    refine h.of_fresh hnext ?_ ?_ ?_
    · rw [hposted, hlist, List.append_assoc]
      exact List.perm_middle
    · rw [hfreed, hposted]
      exact List.subset_append_of_subset_left _ h.freed
    · rw [hlog]
      exact List.Subset.trans hsq (List.append_subset.mpr
        ⟨List.subset_append_of_subset_left _ h.outstanding, List.subset_append_right _ _⟩)

/-- A tick that posts the whole list keeps the order. -/
theorem TaskOrder.flush (h : TaskOrder t) : TaskOrder t.flushed where
  ids := by
    rw [flushed_postedIds]
    simpa [HmrRdmaTransport.flushed] using h.ids
  fresh id hid := by
    rw [flushed_postedIds] at hid
    exact h.fresh id (by simpa [HmrRdmaTransport.flushed] using hid)
  freed := by
    rw [flushed_postedIds]
    exact List.subset_append_of_subset_left _ h.freed
  outstanding := List.append_subset.mpr
    ⟨List.subset_append_of_subset_left _ h.outstanding, List.subset_append_right _ _⟩

/-- An emission posts no WRITE. -/
theorem Emits.writeTargets (h : Emits t t') : t'.writeTargets = t.writeTargets := by
  cases h with
  | nothing _ hlog | queued _ _ _ hlog =>
    rw [HmrRdmaTransport.writeTargets, hlog]
    rfl
  | posted wr _ hopcode _ hlog =>
    rw [HmrRdmaTransport.writeTargets, hlog, List.filterMap_append]
    simp [IbvSendWr.target, hopcode, HmrRdmaTransport.writeTargets]

variable {h : FlushHistory}

/-- What keeps the ranges posted and what is known of the peer keeps the ranges in order. -/
theorem RangeOrder.of_same (hranges : RangeOrder h) (htargets : t'.writeTargets = h.trans.writeTargets)
    (hpeer : t'.peerInfo = h.trans.peerInfo) : RangeOrder ⟨t', h.before⟩ := by
  have hsame : FlushHistory.ranges ⟨t', h.before⟩ = h.ranges := by
    rw [FlushHistory.ranges, htargets]
    rfl
  exact ⟨by rw [htargets]; exact hranges.before, by rw [hsame, hpeer]; exact hranges.consecutive,
    by rw [hsame, hpeer]; exact hranges.cursor, by rw [hpeer]; exact hranges.room⟩

/-- With an MR the ranges start anew. -/
theorem rangeOrder_learned (hcursor : t'.peerInfo.usedNormalSize = 0) :
    RangeOrder ⟨t', t'.writeTargets.length⟩ := by
  have hnil : FlushHistory.ranges ⟨t', t'.writeTargets.length⟩ = [] := List.drop_length
  exact ⟨le_rfl, by rw [hnil]; trivial, by rw [hnil]; exact hcursor, by rw [hcursor]; decide⟩

/-- A flush adds the ranges of its WRITE tasks. -/
theorem flushed_ranges (hranges : RangeOrder h) :
    FlushHistory.ranges ⟨h.trans.flushed, h.before⟩ = h.ranges ++
      (fillSendWrs h.trans.peerInfo 0 h.trans.sendTaskList).1.filterMap IbvSendWr.target := by
  rw [FlushHistory.ranges, flushed_writeTargets, List.drop_append_of_le_length hranges.before]
  rfl

/-- They are as long as the tasks. -/
theorem flushed_extent (hranges : RangeOrder h) :
    (extent (FlushHistory.ranges ⟨h.trans.flushed, h.before⟩) : ℤ) =
      h.trans.peerInfo.usedNormalSize + writeBytes h.trans.sendTaskList := by
  rw [flushed_ranges hranges, extent_append, extent_targets, writtenBytes, fillSendWrs_written,
    Nat.cast_add, ← hranges.cursor]
  rfl

/-- The cursor is an `int`. -/
theorem RangeOrder.cursor_int (hranges : RangeOrder h) :
    cInt h.trans.peerInfo.usedNormalSize = h.trans.peerInfo.usedNormalSize := by
  have hroom := hranges.room
  have hcursor := hranges.cursor
  unfold intMax at hroom
  exact cInt_of_range (by omega) (by omega)

/-- The cursor behind a flush, if the post succeeds or not. -/
theorem rangeOrder_cursor (hranges : RangeOrder h) :
    (fillSendWrs h.trans.peerInfo 0 h.trans.sendTaskList).2.usedNormalSize =
      cInt (h.trans.peerInfo.usedNormalSize + writeBytes h.trans.sendTaskList) :=
  fillSendWrs_usedNormalSize _ _ _ hranges.cursor_int

/-- A tick that posts the whole list and fits the cursor keeps the ranges in order. -/
theorem RangeOrder.flush (hranges : RangeOrder h)
    (hfits : FlushesCleanly h (.data (.tick none))) : RangeOrder ⟨h.trans.flushed, h.before⟩ := by
  have hfits : h.trans.peerInfo.usedNormalSize + writeBytes h.trans.sendTaskList ≤ intMax := hfits
  have hlo : 0 ≤ h.trans.peerInfo.usedNormalSize := by rw [hranges.cursor]; positivity
  have hcursor : h.trans.flushed.peerInfo.usedNormalSize =
      h.trans.peerInfo.usedNormalSize + writeBytes h.trans.sendTaskList :=
    fillSendWrs_cursor 0 _ (by omega) hfits
  have hmr : h.trans.flushed.peerInfo.normalMr = h.trans.peerInfo.normalMr :=
    fillSendWrs_normalMr _ _ _
  refine ⟨?_, ?_, hcursor.trans (flushed_extent hranges).symm, hcursor.trans_le hfits⟩
  · rw [flushed_writeTargets, List.length_append]
    exact hranges.before.trans (Nat.le_add_right _ _)
  · rw [flushed_ranges hranges, hmr, consecutive_append, zero_add, ← hranges.cursor]
    exact ⟨hranges.consecutive, fillSendWrs_consecutive 0 _ hlo hfits⟩

end Order

section Step

variable {h h' : FlushHistory}

/-- A tick that flushes cleanly keeps both orders. -/
theorem tick_order {t' : HmrRdmaTransport} {a : Option ℕ} (htasks : TaskOrder h.trans)
    (hranges : RangeOrder h) (hclean : FlushesCleanly h (.data (.tick a)))
    (htick : TickResult h.trans a t') : TaskOrder t' ∧ RangeOrder ⟨t', h.before⟩ := by
  cases htick with
  | idle => exact ⟨htasks, hranges⟩
  | flushed => exact ⟨htasks.flush, hranges.flush hclean⟩
  | failed k hne =>
    obtain ⟨rfl, hbytes⟩ := hclean.resolve_left hne
    have hcursor : (fillSendWrs h.trans.peerInfo 0 h.trans.sendTaskList).2.usedNormalSize =
        h.trans.peerInfo.usedNormalSize := by
      rw [rangeOrder_cursor hranges, (cInt_add_eq_self hranges.cursor_int _).mpr hbytes]
    have hpeer : (h.trans.flushFailed 0).peerInfo = h.trans.peerInfo :=
      calc
        _ = HmrPeerInfo.mk (fillSendWrs h.trans.peerInfo 0 h.trans.sendTaskList).2.usedNormalSize
            (fillSendWrs h.trans.peerInfo 0 h.trans.sendTaskList).2.normalMr := rfl
        _ = h.trans.peerInfo := by rw [hcursor, fillSendWrs_normalMr]
    have hlog : (h.trans.flushFailed 0).qp.sendLog = h.trans.qp.sendLog := List.append_nil _
    refine ⟨htasks.of_same rfl hlog ⟨?_, le_rfl⟩ htasks.freed, hranges.of_same ?_ hpeer⟩
    · exact List.append_subset.mpr ⟨fun _ hwr => hwr, List.nil_subset _⟩
    · rw [HmrRdmaTransport.writeTargets, hlog]
      rfl

/-- A tick that leaves a consistent state has flushed cleanly. -/
theorem tick_clean {t' : HmrRdmaTransport} {a : Option ℕ} (hranges : RangeOrder h)
    (htick : TickResult h.trans a t') (hafter : FlushConsistent ⟨t', h.before⟩) :
    FlushesCleanly h (.data (.tick a)) := by
  cases htick with
  | idle _ hempty =>
    cases a with
    | none => simpa [FlushesCleanly, hempty, writeBytes] using hranges.room
    | some k => exact .inl hempty
  | flushed =>
    have hcursor : cInt (h.trans.peerInfo.usedNormalSize + writeBytes h.trans.sendTaskList) =
        h.trans.peerInfo.usedNormalSize + writeBytes h.trans.sendTaskList :=
      (rangeOrder_cursor hranges).symm.trans (hafter.cursor.trans (flushed_extent hranges))
    have hrange := (cInt_range (h.trans.peerInfo.usedNormalSize + writeBytes h.trans.sendTaskList)).2
    simp only [FlushesCleanly, intMax]
    omega
  | failed k hne =>
    refine .inr ?_
    cases k with
    | succ k =>
      obtain ⟨task, hmem, hposted⟩ := flushFailed_posted (k := k) h.trans hne
      exact absurd hposted (hafter.unposted task hmem)
    | zero =>
      have hsame : FlushHistory.ranges ⟨h.trans.flushFailed 0, h.before⟩ = h.ranges :=
        congrArg (fun log : List IbvSendWr => (log.filterMap IbvSendWr.target).drop h.before)
          (List.append_nil h.trans.qp.sendLog)
      have hcursor := hafter.cursor
      rw [hsame, ← hranges.cursor] at hcursor
      have hstays := (rangeOrder_cursor hranges).symm.trans hcursor
      exact ⟨rfl, (cInt_add_eq_self hranges.cursor_int _).mp hstays⟩

/-- Every event that flushes cleanly keeps both orders. -/
theorem history_order {e : LifecycleEvent} (htasks : TaskOrder h.trans) (hranges : RangeOrder h)
    (hclean : FlushesCleanly h e) (hstep : historyStep h e = some h') :
    TaskOrder h'.trans ∧ RangeOrder h' := by
  obtain ⟨t', hlife, rfl⟩ := Option.map_eq_some_iff.mp hstep
  cases lifecycleStep_side hlife with
  | emits _ _ _ hemits hfreed hpeer hmrs =>
    rw [if_pos hmrs]
    exact ⟨htasks.emit hemits hfreed, hranges.of_same hemits.writeTargets hpeer⟩
  | learned _ _ _ hemits hfreed hcursor hmrs =>
    rw [if_neg (by omega)]
    exact ⟨htasks.emit hemits hfreed, rangeOrder_learned hcursor⟩
  | completed _ _ _ hlist hlog hout hfreed hpeer hmrs =>
    rw [if_pos hmrs]
    refine ⟨htasks.of_same hlist hlog hout ?_, hranges.of_same ?_ hpeer⟩
    · rcases hfreed with hsame | ⟨wr, hwr, hmore⟩
      · exact hsame ▸ htasks.freed
      · rw [hmore]
        refine List.append_subset.mpr ⟨htasks.freed, List.cons_subset.mpr ⟨?_, List.nil_subset _⟩⟩
        exact List.mem_map_of_mem (htasks.outstanding hwr)
    · rw [HmrRdmaTransport.writeTargets, hlog]
      rfl
  | flushed a _ htick =>
    rw [if_pos htick.mrsReceived]
    exact tick_order htasks hranges hclean htick

/-- An event that leaves a consistent state has flushed cleanly. -/
theorem history_clean {e : LifecycleEvent} (hranges : RangeOrder h)
    (hstep : historyStep h e = some h') (hafter : FlushConsistent h') : FlushesCleanly h e := by
  obtain ⟨t', hlife, rfl⟩ := Option.map_eq_some_iff.mp hstep
  cases lifecycleStep_side hlife with
  | flushed a _ htick =>
    rw [if_pos htick.mrsReceived] at hafter
    exact tick_clean hranges htick hafter
  | emits _ _ hother | learned _ _ hother | completed _ _ hother =>
    cases e with
    | data e =>
      cases e with
      | tick a => exact absurd rfl (hother a)
      | _ => trivial
    | _ => trivial

end Step

/-- A new transport. -/
def freshHistory : FlushHistory := ⟨hmrRdmaCreate, 0⟩

/-- In the life of a transport every state is consistent if and only if every tick flushes cleanly. -/
theorem flushConsistent_iff (events : List LifecycleEvent) :
    Always historyStep FlushConsistent freshHistory events ↔
      Guarded historyStep FlushesCleanly freshHistory events := by
  have hstart : TaskOrder freshHistory.trans ∧ RangeOrder freshHistory := by
    refine ⟨⟨List.nodup_nil, ?_, List.nil_subset _, List.nil_subset _⟩, ⟨le_rfl, trivial, rfl, ?_⟩⟩
    · simp [freshHistory, hmrRdmaCreate, HmrRdmaTransport.postedIds]
    · decide
  exact always_iff_guarded (D := fun _ => True) (fun _ h => flushConsistent_of_order h.1 h.2)
    (fun _ _ _ _ h hclean hstep => history_order h.1 h.2 hclean hstep)
    (fun _ _ _ _ h hstep hafter => history_clean h.2 hstep hafter) (fun _ _ => trivial) hstart

/-- A tick whose post fails leaves the list and the cursor of the accepted prefix if and only if
nothing was accepted and the cursor did not move; and in the life of a transport every state is
consistent if and only if every tick flushes cleanly. -/
theorem failedFlush_iff {t t' : HmrRdmaTransport} {k : ℕ} (hne : t.sendTaskList ≠ [])
    (hint : cInt t.peerInfo.usedNormalSize = t.peerInfo.usedNormalSize)
    (htick : hmrSendTaskHandler (some k) t = .ok t') (events : List LifecycleEvent) :
    (PrefixFlushed t t' k ↔ AcceptsNothing t k) ∧
      (Always historyStep FlushConsistent freshHistory events ↔
        Guarded historyStep FlushesCleanly freshHistory events) :=
  ⟨prefixFlushed_iff hne hint htick, flushConsistent_iff events⟩

/-- Two messages of a client; the post of the first tick accepts one of them. -/
def samplePartial : List LifecycleEvent :=
  [.connect true, .addrResolved true sampleMempoolOutcomes, .routeResolved true true fun _ => .ok,
    .established .ok, .data (.send (sampleMsg .normal 8) .ok),
    .data (.send (sampleMsg .normal 8) .ok), .data (.tick (some 1)), .data (.tick none)]

/-- The sample queue, of which a failing post accepts the first request, and that client. -/
theorem failedFlush_sample :
    (PrefixFlushed sampleQueue (sampleQueue.flushFailed 1) 1 ↔ AcceptsNothing sampleQueue 1) ∧
      (Always historyStep FlushConsistent freshHistory samplePartial ↔
        Guarded historyStep FlushesCleanly freshHistory samplePartial) :=
  failedFlush_iff (by simp [sampleQueue]) (by decide) rfl samplePartial

/-- A task accepted by a post that fails is posted again by the next tick. -/
theorem task_postedTwice :
    ¬∀ events : List LifecycleEvent, Always historyStep FlushConsistent freshHistory events := by
  intro h
  have hrun : (runEvents historyStep freshHistory samplePartial).map (fun h => h.trans.postedIds) =
      some [6, 7, 7, 8] := by decide
  obtain ⟨t, ht, hposted⟩ := Option.map_eq_some_iff.mp hrun
  have honce := ((h samplePartial).of_run ht).once
  rw [hposted] at honce
  exact absurd honce (by decide)

end HmrRpc
