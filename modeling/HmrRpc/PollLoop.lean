import HmrRpc.CompletionChannel
import HmrRpc.TransportRun

/-!
# The loop of `ibv_poll_cq`

Asked for one entry, `ibv_poll_cq` stores a completion and returns 1, returns 0 for an empty
queue, or returns a negative value and leaves `wc` alone. The loop of
`hmr_cq_comp_channel_handler` goes on for every value but 0, so behind an error it dispatches
what `wc` still holds: the completion before, or what was on the stack.
-/

namespace HmrRpc

open Common

/-- What a call of `ibv_poll_cq` for one entry finds. -/
inductive PollResult
  | completion (wc : IbvWc)
  | empty
  /-- The error with the value `-(code + 1)`. -/
  | error (code : ℕ)

/-- The value it returns. -/
def PollResult.retval : PollResult → ℤ
  | .completion _ => 1
  | .empty => 0
  | .error code => -(code + 1)

/-- The contents of `wc` behind it. -/
def PollResult.stored (wc : IbvWc) : PollResult → IbvWc
  | .completion fresh => fresh
  | .empty | .error _ => wc

/-- The completion it returns. -/
def PollResult.completion? : PollResult → Option IbvWc
  | .completion wc => some wc
  | .empty | .error _ => none

/-- A run of the loop: the calls of `ibv_poll_cq`, the completions dispatched, and whether the loop
has been left. -/
structure PollRun where
  polls : ℕ
  dispatched : List IbvWc
  returned : Bool

/-- The loop of `hmr_cq_comp_channel_handler`, with what `wc` holds and the results of the calls to
come. -/
def pollLoop : IbvWc → List PollResult → PollRun
  | _, [] => ⟨0, [], false⟩
  | wc, r :: rest =>
    if r.retval = 0 then ⟨1, [], true⟩
    else
      let run := pollLoop (r.stored wc) rest
      ⟨run.polls + 1, r.stored wc :: run.dispatched, run.returned⟩

/-- The loop as `hmr_cq_comp_channel_handler` reaches it, unless `ibv_get_cq_event` or
`ibv_req_notify_cq` fails. -/
def polledBy (getCqEvent reqNotifyCq : ℤ) (wc : IbvWc) (results : List PollResult) :
    Option PollRun :=
  if getCqEvent ≠ 0 then none
  else if reqNotifyCq ≠ 0 then none
  else some (pollLoop wc results)

/-- The completions returned are dispatched, each once and in order, and the first result that is
not positive is the last one asked for. -/
structure HandledOnce (results : List PollResult) (run : PollRun) : Prop where
  dispatched : run.dispatched = (results.take run.polls).filterMap PollResult.completion?
  stops : ∀ i r, results[i]? = some r → i + 1 < run.polls → 0 < r.retval
  returned : run.returned ↔ ∃ r ∈ results.take run.polls, r.retval ≤ 0

/-- The results up to the first empty queue. -/
def beforeEmpty (results : List PollResult) : List PollResult :=
  results.takeWhile fun r => r.retval ≠ 0

section Loop

/-- A result is a completion exactly if it is positive. -/
theorem PollResult.completion?_isSome (r : PollResult) : r.completion?.isSome ↔ 0 < r.retval := by
  cases r with
  | completion wc => simp [completion?, retval]
  | empty => simp [completion?, retval]
  | error code =>
    simp only [completion?, retval, Option.isSome_none, Bool.false_eq_true, false_iff]
    omega

/-- An error is not zero. -/
theorem PollResult.error_retval (code : ℕ) : (error code).retval < 0 := by
  simp only [retval]
  omega

/-- The loop dispatches once for every result before the first empty queue. -/
theorem pollLoop_dispatched_length (wc : IbvWc) (results : List PollResult) :
    (pollLoop wc results).dispatched.length = (beforeEmpty results).length := by
  induction results generalizing wc with
  | nil => rfl
  | cons r rest ih =>
    by_cases hempty : r.retval = 0
    · simp [pollLoop, beforeEmpty, hempty]
    · simpa [pollLoop, beforeEmpty, hempty] using ih (r.stored wc)

/-- The completions it is given are those before the first empty queue. -/
theorem pollLoop_completions (wc : IbvWc) (results : List PollResult) :
    (results.take (pollLoop wc results).polls).filterMap PollResult.completion? =
      (beforeEmpty results).filterMap PollResult.completion? := by
  induction results generalizing wc with
  | nil => rfl
  | cons r rest ih =>
    by_cases hempty : r.retval = 0
    · have hnone : r.completion? = none := by
        rw [← Option.not_isSome_iff_eq_none, PollResult.completion?_isSome, hempty]
        exact lt_irrefl 0
      simp [pollLoop, beforeEmpty, hempty, hnone]
    · have hrest := ih (r.stored wc)
      unfold beforeEmpty at hrest ⊢
      simp [pollLoop, hempty, List.filterMap_cons, hrest]

/-- Without an error up to the first empty queue every completion is dispatched once. -/
theorem pollLoop_handledOnce {results : List PollResult}
    (h : ∀ r ∈ beforeEmpty results, 0 < r.retval) (wc : IbvWc) :
    HandledOnce results (pollLoop wc results) := by
  induction results generalizing wc with
  | nil => exact ⟨rfl, fun i r hr => by simp at hr, by simp [pollLoop]⟩
  | cons r rest ih =>
    cases r with
    | completion fresh =>
      have hone : (PollResult.completion fresh).retval ≠ 0 := one_ne_zero
      have hrest := ih (fun r hr => h r (by simp [beforeEmpty, hone] at hr ⊢; exact .inr hr)) fresh
      simp only [pollLoop, if_neg hone]
      refine ⟨?_, fun i r hr hi => ?_, ?_⟩
      · simpa [PollResult.stored, PollResult.completion?] using hrest.dispatched
      · cases i with
        | zero =>
          obtain rfl := Option.some.inj hr
          exact one_pos
        | succ i => exact hrest.stops i r hr (Nat.lt_of_succ_lt_succ hi)
      · simpa [PollResult.stored, PollResult.retval] using hrest.returned
    | empty => exact ⟨rfl, fun i r _ hi => by simp [pollLoop, PollResult.retval] at hi, by
        simp [pollLoop, PollResult.retval]⟩
    | error code =>
      have hneg := PollResult.error_retval code
      have hpos := h (.error code) (by simp [beforeEmpty, hneg.ne])
      exact absurd hneg hpos.not_gt

/-- Fed from a queue of completions, the loop is the one of the completion channel. -/
theorem pollLoop_drains {c : CompletionChannel} (hphase : c.phase = .polling) (wc : IbvWc) :
    let run := pollLoop wc (c.cq.map .completion ++ [.empty])
    runEvents channelStep c (List.replicate run.polls .handler) =
      some { c with cq := [], phase := .idle, dispatched := c.dispatched ++ run.dispatched } := by
  have hloop (cq : List IbvWc) (wc : IbvWc) :
      pollLoop wc (cq.map .completion ++ [.empty]) = ⟨cq.length + 1, cq, true⟩ := by
    induction cq generalizing wc with
    | nil => rfl
    | cons fresh cq ih => simp [pollLoop, PollResult.retval, PollResult.stored, ih]
  rw [hloop]
  exact polling_drains hphase

/-- An error behind the completion of a send frees its task a second time. -/
theorem errorBehindSend_freesTwice {o : Outcomes} {t t' : HmrRdmaTransport} {wc sent : IbvWc}
    {code : ℕ} (hstatus : sent.status = .success)
    (hopcode : sent.opcode = .send ∨ sent.opcode = .rdmaWrite)
    (h : (pollLoop wc [.completion sent, .error code]).dispatched.foldlM (handleWc o) t = .ok t') :
    t'.freedTasks = t.freedTasks ++ [sent.wrId.id, sent.wrId.id] := by
  have hrecv : sent.opcode ≠ .recv := by
    rintro hrecv
    simp [hrecv] at hopcode
  have hone {t u : HmrRdmaTransport} (h : handleWc o t sent = .ok u) :
      u.freedTasks = t.freedTasks ++ [sent.wrId.id] := by
    rw [handleWc, if_pos hstatus] at h
    obtain rfl := hmrWcSuccessHandler_sent hrecv h
    rcases hopcode with hopcode | hopcode
    · rw [hopcode]
      simp only [HmrRdmaTransport.sendCompleted, HmrRdmaTransport.freeTask,
        HmrRdmaTransport.sendDone]
      split_ifs <;> rfl
    · rw [hopcode]
      rfl
  have hdispatched : (pollLoop wc [.completion sent, .error code]).dispatched = [sent, sent] := by
    have hcompletion : (PollResult.completion sent).retval ≠ 0 := one_ne_zero
    have herror : (PollResult.error code).retval ≠ 0 := (PollResult.error_retval code).ne
    simp only [pollLoop, if_neg hcompletion, if_neg herror, PollResult.stored]
  rw [hdispatched, List.foldlM_cons] at h
  obtain ⟨u, hfirst, h⟩ := bind_eq_ok h
  obtain ⟨v, hsecond, h⟩ := bind_eq_ok h
  obtain rfl := Except.ok.inj h
  rw [hone hsecond, hone hfirst, List.append_assoc, List.singleton_append]

end Loop

/-- A run of the handler dispatches each completion polled once, and nothing else, if and only if
no poll fails before one finds the queue empty. -/
theorem handledOnce_iff (getCqEvent reqNotifyCq : ℤ) (wc : IbvWc) (results : List PollResult) :
    (∀ run ∈ polledBy getCqEvent reqNotifyCq wc results, HandledOnce results run) ↔
      (getCqEvent = 0 ∧ reqNotifyCq = 0 → ∀ r ∈ beforeEmpty results, 0 < r.retval) := by
  have hreached : getCqEvent = 0 ∧ reqNotifyCq = 0 →
      polledBy getCqEvent reqNotifyCq wc results = some (pollLoop wc results) := by
    rintro ⟨rfl, rfl⟩
    rfl
  constructor
  · intro h hcalls r hr
    have hdispatched := (h _ (hreached hcalls)).dispatched
    rw [pollLoop_completions] at hdispatched
    have hlength : ((beforeEmpty results).filterMap PollResult.completion?).length =
        (beforeEmpty results).length := by
      rw [← hdispatched, pollLoop_dispatched_length]
    exact r.completion?_isSome.mp (List.filterMap_length_eq_length.mp hlength r hr)
  · intro h run hrun
    by_cases hcalls : getCqEvent = 0 ∧ reqNotifyCq = 0
    · obtain rfl := Option.some.inj ((hreached hcalls).symm.trans hrun)
      exact pollLoop_handledOnce (h hcalls) wc
    · have hnone : polledBy getCqEvent reqNotifyCq wc results = none := by
        unfold polledBy
        grind
      rw [hnone] at hrun
      contradiction

/-- An error behind a completion dispatches it again. -/
theorem pollError_redispatches :
    ¬∀ (getCqEvent reqNotifyCq : ℤ) (wc : IbvWc) (results : List PollResult),
      ∀ run ∈ polledBy getCqEvent reqNotifyCq wc results, HandledOnce results run := by
  intro h
  let sent : IbvWc := ⟨sendTask samplePool (sampleMsg .normal 8) 0, .success, .send⟩
  have hdispatched := (h 0 0 sent [.completion sent, .error 0] _ rfl).dispatched
  exact absurd (congrArg List.length hdispatched) (by decide)

end HmrRpc
