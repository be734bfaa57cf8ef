import HmrRpc.Send

/-!
# The timer flush (`hmr_send_task_handler`)

One tick turns `send_task_list` into an array of linked work requests, posts the chain
that starts at its first element, and empties the list if the whole chain was accepted.
Each request's `next` first points one element ahead, and the last is corrected after
the loop. WRITE requests take their remote address from a cursor that the loop advances.
-/

namespace HmrRpc

open Common

/-- One pass of the loop over `send_task_list`, filling element `i` of the array. -/
def fillSendWr (peer : HmrPeerInfo) (i : ℕ) (task : HmrTask) : IbvSendWr × HmrPeerInfo :=
  let opcode := hmrGetOpcodeFromTask task
  let write := opcode = .rdmaWrite
  ({ wrId := task
     next := some (i + 1)
     sgList := task.ibvSge
     numSge := 1
     opcode := opcode
     signaled := true
     remoteAddr :=
       if write then (peer.normalMr.addr.toNat + peer.usedNormalSize) % 2 ^ 64 else 0
     rkey := if write then peer.normalMr.rkey else 0 },
    { peer with usedNormalSize :=
        if write then cInt (peer.usedNormalSize + task.ibvSge.length) else peer.usedNormalSize })

/-- The whole loop, from element `i` on. -/
def fillSendWrs (peer : HmrPeerInfo) : ℕ → List HmrTask → List IbvSendWr × HmrPeerInfo
  | _, [] => ([], peer)
  | i, task :: rest =>
    let first := fillSendWr peer i task
    let others := fillSendWrs first.2 (i + 1) rest
    (first.1 :: others.1, others.2)

/-- `sw_head--; sw_head->next=NULL;` after the loop. -/
def endChain (wrs : List IbvSendWr) : List IbvSendWr :=
  wrs.modify (wrs.length - 1) fun wr => { wr with next := none }

/-- The requests met when following `next` from an element, for at most `fuel` of them. -/
def followNext (wrs : List IbvSendWr) : ℕ → Option ℕ → List IbvSendWr
  | 0, _ => []
  | _, none => []
  | fuel + 1, some i =>
    match wrs[i]? with
    | none => []
    | some wr => wr :: followNext wrs fuel wr.next

/-- The chain `ibv_post_send` receives with `&send_wr[0]` once the loop has filled the array. -/
def postedChain (wrs : List IbvSendWr) : List IbvSendWr :=
  followNext (endChain wrs) (wrs.length + 1) (some 0)

/-- The chain posted for a list of tasks. -/
def sendChain (peer : HmrPeerInfo) (tasks : List HmrTask) : List IbvSendWr :=
  postedChain (fillSendWrs peer 0 tasks).1

/-- `hmr_send_task_handler`. The post accepts the whole chain (`none`) or fails after
accepting `k` requests (`some k`), and then the list keeps all its tasks. -/
def hmrSendTaskHandler (accepted : Option ℕ) (t : HmrRdmaTransport) :
    Except Stop HmrRdmaTransport :=
  if t.sendTaskList.isEmpty then .ok t
  else if maxSendWr + 1 < t.sendTaskList.length then .error .overrun
  else
    let chain := sendChain t.peerInfo t.sendTaskList
    let t := { t with peerInfo := (fillSendWrs t.peerInfo 0 t.sendTaskList).2 }
    match accepted with
    | none => .ok { t.ibvPostSend chain with sendTaskList := [] }
    | some k => .ok (t.ibvPostSend (chain.take k))

/-- The request has the buffer and the opcode of its task. -/
def IbvSendWr.Filled (wr : IbvSendWr) : Prop :=
  wr.sgList = wr.wrId.ibvSge ∧ wr.opcode = hmrGetOpcodeFromTask wr.wrId

/-- The length a task adds to the remote cursor. -/
def HmrTask.writeLength (task : HmrTask) : ℕ :=
  if task.taskType = .write then task.ibvSge.length else 0

section Fill

variable (peer : HmrPeerInfo) (i : ℕ) (tasks : List HmrTask)

/-- Only the cursor of the peer information moves. -/
theorem fillSendWrs_normalMr : (fillSendWrs peer i tasks).2.normalMr = peer.normalMr := by
  induction tasks generalizing peer i with
  | nil => rfl
  | cons task rest ih =>
    rw [fillSendWrs, ih]
    rfl

/-- The array has the tasks of the list, in order. -/
theorem fillSendWrs_wrId : (fillSendWrs peer i tasks).1.map IbvSendWr.wrId = tasks := by
  induction tasks generalizing peer i with
  | nil => rfl
  | cons task rest ih =>
    rw [fillSendWrs, List.map_cons, ih]
    rfl

/-- Each request has the buffer and the opcode of its task. -/
theorem fillSendWrs_filled : ∀ wr ∈ (fillSendWrs peer i tasks).1, wr.Filled := by
  induction tasks generalizing peer i with
  | nil => simp [fillSendWrs]
  | cons task rest ih =>
    intro wr hwr
    rcases List.mem_cons.mp hwr with rfl | hrest
    · exact ⟨rfl, rfl⟩
    · exact ih _ _ wr hrest

/-- Each element points one ahead. -/
theorem fillSendWrs_next (j : ℕ) (hj : j < (fillSendWrs peer i tasks).1.length) :
    ((fillSendWrs peer i tasks).1[j]).next = some (i + j + 1) := by
  induction tasks generalizing peer i j with
  | nil => simp [fillSendWrs] at hj
  | cons task rest ih =>
    cases j with
    | zero => rfl
    | succ j =>
      simp only [fillSendWrs, List.length_cons, Nat.add_lt_add_iff_right] at hj
      simp only [fillSendWrs, List.getElem_cons_succ]
      rw [ih _ _ _ hj]
      congr 1
      omega

end Fill

/-- Correcting the last `next` changes no other field. -/
theorem map_endChain {B : Type*} (f : IbvSendWr → B)
    (hf : ∀ wr, f { wr with next := none } = f wr) (wrs : List IbvSendWr) :
    (endChain wrs).map f = wrs.map f := by
  apply List.ext_getElem
  · simp [endChain]
  · intro j hj hj'
    simp only [endChain, List.getElem_map, List.getElem_modify]
    split
    · exact hf _
    · rfl

/-- A partial function finds the same in lists with the same images. -/
theorem filterMap_eq_of_map_eq {A B C : Type*} {f : A → Option C} {g : B → Option C} {as : List A}
    {bs : List B} (h : as.map f = bs.map g) : as.filterMap f = bs.filterMap g := by
  have hids := congrArg (List.filterMap id) h
  rw [List.filterMap_map, List.filterMap_map] at hids
  exact hids

/-- Following links that lead to the next element and end at the last visits the rest in order. -/
theorem followNext_eq_drop {wrs : List IbvSendWr}
    (hlink : ∀ j (hj : j < wrs.length), (wrs[j]).next = if j + 1 = wrs.length then none else some (j + 1))
    {fuel j : ℕ} (hj : j < wrs.length) (hfuel : wrs.length ≤ j + fuel) :
    followNext wrs fuel (some j) = wrs.drop j := by
  induction fuel generalizing j with
  | zero => omega
  | succ fuel ih =>
    rw [followNext, List.getElem?_eq_getElem hj, List.drop_eq_getElem_cons hj]
    dsimp only
    rw [hlink j hj]
    by_cases hend : j + 1 = wrs.length
    · have hnil : wrs.drop (j + 1) = [] := List.drop_eq_nil_of_le hend.ge
      rw [if_pos hend, hnil]
      cases fuel <;> rfl
    · rw [if_neg hend, ih (by omega) (by omega)]

/-- Behind the loop each element of such an array points one ahead, and the last ends the chain. -/
theorem endChain_next {wrs : List IbvSendWr}
    (hnext : ∀ j (hj : j < wrs.length), (wrs[j]).next = some (j + 1)) {j : ℕ}
    (hj : j < (endChain wrs).length) :
    ((endChain wrs)[j]).next = if j + 1 = (endChain wrs).length then none else some (j + 1) := by
  have hlen : (endChain wrs).length = wrs.length := by simp [endChain]
  have hj' : j < wrs.length := hlen ▸ hj
  rw [hlen]
  simp only [endChain, List.getElem_modify]
  by_cases hend : wrs.length - 1 = j
  · rw [if_pos hend, if_pos (by omega)]
  · rw [if_neg hend, if_neg (by omega), hnext j hj']

/-- An array whose elements each point one ahead is posted whole. -/
theorem postedChain_eq {wrs : List IbvSendWr}
    (hnext : ∀ j (hj : j < wrs.length), (wrs[j]).next = some (j + 1)) :
    postedChain wrs = endChain wrs := by
  cases wrs with
  | nil => rfl
  | cons wr rest =>
    have hlen : (endChain (wr :: rest)).length = rest.length + 1 := by simp [endChain]
    rw [postedChain, followNext_eq_drop (fun j hj => endChain_next hnext hj) (by omega)
      (by simp [hlen]), List.drop_zero]

/-- The requests posted are those of the array, in order. -/
theorem postedChain_wrId {wrs : List IbvSendWr}
    (hnext : ∀ j (hj : j < wrs.length), (wrs[j]).next = some (j + 1)) :
    (postedChain wrs).map IbvSendWr.wrId = wrs.map IbvSendWr.wrId := by
  rw [postedChain_eq hnext, map_endChain _ fun _ => rfl]

/-- The chain of a list is the whole array filled from it. -/
theorem sendChain_eq (peer : HmrPeerInfo) (tasks : List HmrTask) :
    sendChain peer tasks = endChain (fillSendWrs peer 0 tasks).1 :=
  postedChain_eq fun j hj => by rw [fillSendWrs_next peer 0 tasks j hj, zero_add]

/-- The chain carries the tasks of the list, in order. -/
theorem sendChain_wrId (peer : HmrPeerInfo) (tasks : List HmrTask) :
    (sendChain peer tasks).map IbvSendWr.wrId = tasks := by
  rw [sendChain_eq, map_endChain _ (fun _ => rfl), fillSendWrs_wrId]

/-- What does not depend on `next` holds of the chain when it holds of the array. -/
theorem forall_sendChain {P : IbvSendWr → Prop} (hP : ∀ wr, P { wr with next := none } ↔ P wr)
    (peer : HmrPeerInfo) (tasks : List HmrTask) :
    (∀ wr ∈ sendChain peer tasks, P wr) ↔ ∀ wr ∈ (fillSendWrs peer 0 tasks).1, P wr := by
  have hmap := map_endChain P (fun wr => propext (hP wr)) (fillSendWrs peer 0 tasks).1
  rw [← sendChain_eq] at hmap
  simpa only [List.forall_mem_map] using iff_of_eq (congrArg (fun l => ∀ p ∈ l, p) hmap)

/-- The requests of the chain are filled. -/
theorem sendChain_filled (peer : HmrPeerInfo) (tasks : List HmrTask) :
    ∀ wr ∈ sendChain peer tasks, wr.Filled :=
  (forall_sendChain (fun _ => Iff.rfl) peer tasks).mpr (fillSendWrs_filled peer 0 tasks)

/-- One request for each task. -/
theorem sendChain_length (peer : HmrPeerInfo) (tasks : List HmrTask) :
    (sendChain peer tasks).length = tasks.length := by
  have h := congrArg List.length (sendChain_wrId peer tasks)
  rwa [List.length_map] at h

/-- The transport after a tick whose post accepted the whole chain. -/
def HmrRdmaTransport.flushed (t : HmrRdmaTransport) : HmrRdmaTransport :=
  { HmrRdmaTransport.ibvPostSend
      { t with peerInfo := (fillSendWrs t.peerInfo 0 t.sendTaskList).2 }
      (sendChain t.peerInfo t.sendTaskList) with sendTaskList := [] }

/-- The transport after a tick whose post failed behind `k` requests. -/
def HmrRdmaTransport.flushFailed (t : HmrRdmaTransport) (k : ℕ) : HmrRdmaTransport :=
  HmrRdmaTransport.ibvPostSend
    { t with peerInfo := (fillSendWrs t.peerInfo 0 t.sendTaskList).2 }
    ((sendChain t.peerInfo t.sendTaskList).take k)

/-- What a returning tick did. -/
inductive TickResult (t : HmrRdmaTransport) : Option ℕ → HmrRdmaTransport → Prop
  | idle (a : Option ℕ) (hempty : t.sendTaskList = []) : TickResult t a t
  | flushed (hne : t.sendTaskList ≠ []) (hfit : t.sendTaskList.length ≤ maxSendWr + 1) :
      TickResult t none t.flushed
  | failed (k : ℕ) (hne : t.sendTaskList ≠ []) (hfit : t.sendTaskList.length ≤ maxSendWr + 1) :
      TickResult t (some k) (t.flushFailed k)

/-- A tick receives no MR. -/
theorem TickResult.mrsReceived {a : Option ℕ} {t t' : HmrRdmaTransport} (h : TickResult t a t') :
    t'.mrsReceived = t.mrsReceived := by
  cases h <;> rfl

/-- Every returning tick is one of the listed results. -/
theorem hmrSendTaskHandler_cases {a : Option ℕ} {t t' : HmrRdmaTransport}
    (h : hmrSendTaskHandler a t = .ok t') : TickResult t a t' := by
  unfold hmrSendTaskHandler at h
  split at h
  · rename_i hempty
    obtain rfl := Except.ok.inj h
    exact .idle a (List.isEmpty_iff.mp hempty)
  · rename_i hempty
    have hne : t.sendTaskList ≠ [] := fun hnil => hempty (List.isEmpty_iff.mpr hnil)
    split at h
    · contradiction
    · rename_i hfit
      cases a with
      | none =>
        obtain rfl := Except.ok.inj h
        exact .flushed hne (Nat.le_of_not_lt hfit)
      | some k =>
        obtain rfl := Except.ok.inj h
        exact .failed k hne (Nat.le_of_not_lt hfit)

end HmrRpc
