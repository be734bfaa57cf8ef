import HmrRpc.TransportRun

/-!
# Room in the completion queue

Sends and receives share a completion queue of at most 20 entries. Four places post to
it and none of them counts: the receives posted up front, the batch of a tick, an MR
posted directly, and the answer to the peer's MR. The queue is never overrun exactly
when each of these finds room; every other event only makes some.
-/

namespace HmrRpc

open Common

/-- The size `hmr_cq_get` asks for, given the device's `max_cqe`. -/
def cqCapacity (maxCqe : ℤ) : ℤ := min cqeAllocSize maxCqe

/-- The work requests posted whose completion has not been polled. -/
def HmrRdmaTransport.outstanding (t : HmrRdmaTransport) : ℕ := t.qp.sq.length + t.qp.rq.length

/-- Whether `hmr_post_recv` posts. -/
def postsRecv (o : Outcomes) : Bool := o.recvCalloc && o.recvPost

/-- What an event is about to post beyond what it polls finds room in the queue. -/
def RoomFor (capacity : ℤ) (t : HmrRdmaTransport) : RunEvent → Prop
  | .prePost o =>
    t.outstanding + ((List.range (prePostCount t.defaultRecvSize)).countP fun i => postsRecv (o i)) ≤
      capacity
  | .data (.send msg o) =>
    hmrMsgReady t msg ∧ msg.msgType = .mr ∧ o.sendPost → t.outstanding + 1 ≤ capacity
  | .data (.tick none) => t.outstanding + t.sendTaskList.length ≤ capacity
  | .data (.tick (some k)) => (t.outstanding + min k t.sendTaskList.length : ℕ) ≤ capacity
  | .data (.recvComplete frame status o) =>
    -- the first MR is answered and its receive replaced
    status = .success ∧ t.transState = .connected ∧ t.arrivingType frame = some .mr ∧ o.sendPost ∧
      postsRecv o → t.outstanding + 1 ≤ capacity
  | .data (.sendComplete _ _ _) => True

section Count

variable {o : Outcomes} {t t' : HmrRdmaTransport}

/-- A send posts at once exactly an accepted MR. -/
theorem SendResult.outstanding {msg : HmrMsg} {r : ℤ} (h : SendResult o t msg r t') :
    t'.outstanding = t.outstanding +
      if hmrMsgReady t msg ∧ msg.msgType = .mr ∧ o.sendPost then 1 else 0 := by
  cases h with
  | refused hcheck => simp [not_ready_of_refused hcheck]
  | submitted _ hready hsubmit =>
    cases hsubmit with
    | queued pool _ htype =>
      rw [if_neg fun h => htype h.2.1]
      rfl
    | posted pool _ htype hpost =>
      rw [if_pos ⟨hready, htype, hpost⟩]
      simp [HmrRdmaTransport.outstanding, HmrRdmaTransport.postedDirect,
        HmrRdmaTransport.ibvPostSend, HmrRdmaTransport.created]
      omega
    | dropped pool _ _ hpost =>
      rw [if_neg fun h => by simp [hpost] at h]
      rfl

/-- Posting a receive adds one. -/
theorem PostRecvResult.outstanding {size : ℤ} (h : PostRecvResult o t size t') :
    t'.outstanding = t.outstanding + if postsRecv o then 1 else 0 := by
  cases h with
  | noMemory hcalloc => simp [postsRecv, hcalloc]
  | posted pool _ hcalloc hpost =>
    simp [postsRecv, hcalloc, hpost, HmrRdmaTransport.outstanding, HmrRdmaTransport.recvPosted,
      HmrRdmaTransport.ibvPostRecv]
    omega
  | dropped pool _ _ hpost =>
    rw [if_neg (by simp [postsRecv, hpost])]
    rfl

/-- Before the repost a frame adds one exactly when it is an MR that is answered. -/
theorem RecvBody.outstanding {bytes : ℕ → UInt8} {taskType : HmrTaskType}
    (h : RecvBody o t bytes taskType t') :
    t'.outstanding = t.outstanding +
      if t.transState = .connected ∧ taskType = .mr ∧ o.sendPost then 1 else 0 := by
  cases h with
  | firstMr pool r u hstate _ hsend =>
    have hcount := hsend.outstanding
    have hready : hmrMsgReady (t.learnMr (.decode bytes)) (mrMsg pool.rdmaMr) := by
      simp [hmrMsgReady, mrMsg, HmrRdmaTransport.learnMr, hstate]
    by_cases hpost : o.sendPost
    · rw [if_pos ⟨hready, rfl, hpost⟩] at hcount
      rw [if_pos ⟨hstate, rfl, hpost⟩]
      exact hcount
    · rw [if_neg fun h => hpost h.2.2] at hcount
      rw [if_neg fun h => hpost h.2.2]
      exact hcount
  | laterMr hstate =>
    rw [if_neg fun h => hstate h.1]
    rfl
  | finish r u hsend =>
    have hcount := hsend.outstanding
    rw [if_neg (by simp [closingMsg])] at hcount
    simpa [HmrRdmaTransport.outstanding] using hcount
  | done => simp [HmrRdmaTransport.outstanding]
  | plain _ hmr => simp [HmrRdmaTransport.outstanding, hmr]

/-- The receives posted up front. -/
theorem postRecvs_outstanding {o : ℕ → Outcomes} {n : ℕ} (h : postRecvs o n t = .ok t') :
    t'.outstanding = t.outstanding + (List.range n).countP fun i => postsRecv (o i) := by
  induction n generalizing t' with
  | zero =>
    obtain rfl := Except.ok.inj h
    simp
  | succ n ih =>
    obtain ⟨u, hbefore, hlast⟩ := bind_eq_ok h
    have hcount := (hmrPostRecv_cases hlast).outstanding
    rw [ih hbefore] at hcount
    rw [hcount, List.range_succ, List.countP_append, List.countP_singleton, Nat.add_assoc]

/-- A completed send makes room for one. -/
theorem outstanding_sendComplete {i : ℕ} {status : IbvWcStatus}
    (hstep : dataStep t (.sendComplete i status o) = some t') :
    t'.outstanding + 1 = t.outstanding := by
  obtain ⟨wr, hwr, -⟩ := dataStep_sendComplete hstep
  have hlt : i < t.qp.sq.length := (List.getElem?_eq_some_iff.mp hwr).1
  rw [HmrRdmaTransport.outstanding, (dataStep_sendComplete_frame hstep).2.2.2]
  simp only [HmrRdmaTransport.pollSend, HmrRdmaTransport.outstanding, List.length_eraseIdx, hlt,
    if_true]
  omega

/-- A completed receive makes room for one, which the repost takes and an answered MR exceeds. -/
theorem outstanding_recvComplete {frame : Frame} {status : IbvWcStatus}
    (hstep : dataStep t (.recvComplete frame status o) = some t') :
    t'.outstanding + 1 = t.outstanding +
      if status = .success then
        (if postsRecv o then 1 else 0) +
          if t.transState = .connected ∧ t.arrivingType frame = some .mr ∧ o.sendPost then 1 else 0
      else 0 := by
  have hpolled {wr : IbvRecvWr} (hhead : t.qp.rq.head? = some wr) :
      t.pollRecv.outstanding + 1 = t.outstanding := by
    obtain ⟨rest, hrq⟩ := List.head?_eq_some_iff.mp hhead
    simp [HmrRdmaTransport.outstanding, HmrRdmaTransport.pollRecv, hrq]
    omega
  cases dataStep_recvComplete hstep with
  | flushed wr _ hhead hstatus =>
    rw [if_neg hstatus, hpolled hhead, Nat.add_zero]
  | received wr pool u _ hhead hpool hbody hrepost =>
    have hbefore := hpolled hhead
    have hwritten : (t.pollRecv.hcaWrite wr.sgList.addr frame).outstanding =
      t.pollRecv.outstanding := rfl
    have hstate : (t.pollRecv.hcaWrite wr.sgList.addr frame).transState = t.transState := rfl
    have hcount := hrepost.outstanding
    rw [hbody.outstanding, hwritten, hstate] at hcount
    rw [if_pos rfl, hcount, arrivingType_eq hhead hpool]
    simp only [Option.some.injEq]
    omega

/-- A tick posts what the batch has or the post accepts of it. -/
theorem outstanding_tick {a : Option ℕ} (h : TickResult t a t') :
    t'.outstanding = t.outstanding +
      match a with
      | none => t.sendTaskList.length
      | some k => min k t.sendTaskList.length := by
  cases h with
  | idle a hempty => cases a <;> simp [hempty]
  | flushed =>
    simp [HmrRdmaTransport.outstanding, HmrRdmaTransport.flushed, HmrRdmaTransport.ibvPostSend,
      sendChain_length]
    omega
  | failed k =>
    simp [HmrRdmaTransport.outstanding, HmrRdmaTransport.flushFailed,
      HmrRdmaTransport.ibvPostSend, sendChain_length]
    omega

end Count

section Step

variable {capacity : ℤ} {t t' : HmrRdmaTransport} {e : RunEvent}

/-- What each event adds to the outstanding work requests, beyond what it polls. -/
theorem outstanding_step (h : t.outstanding ≤ capacity) (hstep : runStep t e = some t') :
    t'.outstanding ≤ capacity ↔ RoomFor capacity t e := by
  cases e with
  | prePost o =>
    rw [postRecvs_outstanding (ok_of_toOption hstep), RoomFor]
    push_cast
    rfl
  | data e =>
    cases e with
    | send msg o =>
      obtain ⟨r, hsend⟩ := dataStep_send hstep
      rw [hsend.outstanding, RoomFor]
      split <;> simp_all
    | tick a =>
      rw [outstanding_tick (dataStep_tick hstep)]
      cases a <;> simp [RoomFor]
    | sendComplete i status o =>
      have hcount := outstanding_sendComplete hstep
      simp only [RoomFor, iff_true]
      omega
    | recvComplete frame status o =>
      have hcount := outstanding_recvComplete hstep
      simp only [RoomFor]
      split_ifs at hcount with hsuccess hposts hexchange hexchange
      · constructor
        · intro hle _
          omega
        · intro hroom
          have hle := hroom ⟨hsuccess, hexchange.1, hexchange.2.1, hexchange.2.2, hposts⟩
          omega
      · exact iff_of_true (by omega) fun h => absurd ⟨h.2.1, h.2.2.1, h.2.2.2.1⟩ hexchange
      · exact iff_of_true (by omega) fun h => absurd h.2.2.2.2 hposts
      · exact iff_of_true (by omega) fun h => absurd h.2.2.2.2 hposts
      · exact iff_of_true (by omega) fun h => absurd h.1 hsuccess

end Step

/-- A run from a fresh transport keeps the outstanding work requests within the completion queue
if and only if each of its events finds room for what it posts. -/
theorem outstanding_le_cqCapacity_iff {maxCqe : ℤ} {t : HmrRdmaTransport} {events : List RunEvent}
    (hdevice : 0 ≤ maxCqe) (hsq : t.qp.sq = []) (hrq : t.qp.rq = []) :
    Always runStep (fun t => (t.outstanding : ℤ) ≤ cqCapacity maxCqe) t events ↔
      Guarded runStep (RoomFor (cqCapacity maxCqe)) t events := by
  have hstart : (t.outstanding : ℤ) ≤ cqCapacity maxCqe := by
    simp only [HmrRdmaTransport.outstanding, hsq, hrq, cqCapacity, cqeAllocSize, List.length_nil]
    omega
  exact always_iff_guarded (D := fun _ => True) (fun _ h => h)
    (fun _ _ _ _ h hroom hstep => (outstanding_step h hstep).mpr hroom)
    (fun _ _ _ _ h hstep hafter => (outstanding_step h hstep).mp hafter)
    (fun _ _ => trivial) hstart

/-- The receives posted up front and one message, on a device with room for more. -/
theorem outstanding_le_cqCapacity_sample :
    Always runStep (fun t => (t.outstanding : ℤ) ≤ cqCapacity 4096) sampleTransport
        [.prePost fun _ => .ok, .data (.send (sampleMsg .normal 8) .ok), .data (.tick none)] ↔
      Guarded runStep (RoomFor (cqCapacity 4096)) sampleTransport
        [.prePost fun _ => .ok, .data (.send (sampleMsg .normal 8) .ok), .data (.tick none)] :=
  outstanding_le_cqCapacity_iff (by decide) rfl rfl

/-- Fifteen messages flushed at once join six receives in a queue of twenty. -/
theorem outstanding_overrun :
    ¬∀ (maxCqe : ℤ) (t : HmrRdmaTransport) (events : List RunEvent), 0 ≤ maxCqe →
      t.qp.sq = [] → t.qp.rq = [] →
      Always runStep (fun t => (t.outstanding : ℤ) ≤ cqCapacity maxCqe) t events := by
  intro h
  let events : List RunEvent :=
    .prePost (fun _ => .ok) :: List.replicate 15 (.data (.send (sampleMsg .normal 8) .ok)) ++
      [.data (.tick none)]
  have hrun : (runEvents runStep sampleTransport events).map HmrRdmaTransport.outstanding =
      some 21 := by decide
  obtain ⟨t, ht, hcount⟩ := Option.map_eq_some_iff.mp hrun
  have hle := (h 4096 sampleTransport events (by decide) rfl rfl).of_run ht
  rw [hcount] at hle
  revert hle
  decide

end HmrRpc
