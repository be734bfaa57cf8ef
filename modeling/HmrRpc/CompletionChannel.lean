import HmrRpc.Common.Run
import HmrRpc.Completion

/-!
# The completion channel (`hmr_cq_comp_channel_handler`)

A completion that arrives at an armed completion queue disarms it and puts an event on the
channel, which makes the channel's descriptor readable. The handler takes one event,
acknowledges it, arms the queue again and only then polls it empty, so a completion that
arrives between any two of these steps either is polled or leaves an event behind.
-/

namespace HmrRpc

open Common

/-- Where the event thread stands in `hmr_cq_comp_channel_handler`. -/
inductive ChannelPhase
  /-- Outside the handler. -/
  | idle
  /-- Behind `ibv_get_cq_event`. -/
  | taken
  /-- Behind `ibv_ack_cq_events`. -/
  | acked
  /-- In the loop of `ibv_poll_cq`. -/
  | polling
  deriving DecidableEq, Repr

/-- A completion queue and its channel, with the events taken and acknowledged and the completions
dispatched so far. -/
structure CompletionChannel where
  armed : Bool
  events : ℕ
  cq : List IbvWc
  phase : ChannelPhase
  taken : ℕ
  acked : ℕ
  dispatched : List IbvWc

/-- A completion arrives, or the event thread takes its next step. -/
inductive ChannelEvent
  | arrive (wc : IbvWc)
  | handler

/-- The queue and the channel that `hmr_cq_get` leaves. -/
def hmrCqGet : CompletionChannel where
  armed := true
  events := 0
  cq := []
  phase := .idle
  taken := 0
  acked := 0
  dispatched := []

/-- The HCA appends a completion. -/
def CompletionChannel.arrive (c : CompletionChannel) (wc : IbvWc) : CompletionChannel :=
  { c with
    armed := false
    events := if c.armed then c.events + 1 else c.events
    cq := c.cq ++ [wc] }

/-- The next call of `hmr_cq_comp_channel_handler`, with the channel's descriptor nonblocking. -/
def hmrCqCompChannelHandler (c : CompletionChannel) : CompletionChannel :=
  match c.phase with
  | .idle =>
    -- without an event `ibv_get_cq_event` fails and the handler returns
    if c.events = 0 then c else { c with events := c.events - 1, taken := c.taken + 1, phase := .taken }
  | .taken => { c with acked := c.acked + 1, phase := .acked }
  | .acked => { c with armed := true, phase := .polling }
  | .polling =>
    match c.cq with
    | [] => { c with phase := .idle }
    | wc :: rest => { c with cq := rest, dispatched := c.dispatched ++ [wc] }

/-- One step of the HCA or of the event thread. -/
def channelStep (c : CompletionChannel) : ChannelEvent → Option CompletionChannel
  | .arrive wc => some (c.arrive wc)
  | .handler => some (hmrCqCompChannelHandler c)

/-- Outside the handler a nonempty queue has an event pending, and every event taken has been
acknowledged once, but for the one the handler is about to acknowledge. -/
structure NotStranded (c : CompletionChannel) : Prop where
  wakes : c.phase = .idle → c.cq ≠ [] → 0 < c.events
  acks : c.taken = c.acked + if c.phase = .taken then 1 else 0

/-- From the arming on, the next completion finds the queue armed or an event pending. -/
structure ChannelInv (c : CompletionChannel) : Prop where
  notStranded : NotStranded c
  wakeable : c.phase = .idle ∨ c.phase = .polling → c.armed ∨ 0 < c.events

section Step

variable {c : CompletionChannel}

/-- An arrival leaves an event where there was one, and makes one on an armed queue. -/
theorem arrive_events (wc : IbvWc) (h : c.armed ∨ 0 < c.events) : 0 < (c.arrive wc).events := by
  simp only [CompletionChannel.arrive]
  split
  · exact Nat.succ_pos _
  · rename_i harmed
    exact h.resolve_left harmed

/-- An arrival keeps the invariant. -/
theorem ChannelInv.arrive (h : ChannelInv c) (wc : IbvWc) : ChannelInv (c.arrive wc) where
  notStranded :=
    ⟨fun hidle _ => arrive_events wc (h.wakeable (.inl hidle)), h.notStranded.acks⟩
  wakeable hphase := .inr (arrive_events wc (h.wakeable hphase))

/-- So does each step of the handler: arming comes before the loop that drains the queue. -/
theorem ChannelInv.handler (h : ChannelInv c) : ChannelInv (hmrCqCompChannelHandler c) := by
  have hacks := h.notStranded.acks
  unfold hmrCqCompChannelHandler
  cases hphase : c.phase with
  | idle =>
    dsimp only
    split
    · exact h
    · exact ⟨⟨by simp, by simp [hacks, hphase]⟩, by simp⟩
  | taken => exact ⟨⟨by simp, by simp [hacks, hphase]⟩, by simp⟩
  | acked => exact ⟨⟨by simp, by simp [hacks, hphase]⟩, by simp⟩
  | polling =>
    have hwakeable := h.wakeable (.inr hphase)
    dsimp only
    split
    · rename_i hempty
      exact ⟨⟨fun _ hne => absurd hempty hne, by simp [hacks, hphase]⟩, fun _ => hwakeable⟩
    · exact ⟨⟨by simp, by simp [hacks, hphase]⟩, fun _ => hwakeable⟩

/-- Every step keeps the invariant. -/
theorem ChannelInv.step {e : ChannelEvent} {c' : CompletionChannel} (h : ChannelInv c)
    (hstep : channelStep c e = some c') : ChannelInv c' := by
  cases e with
  | arrive wc =>
    obtain rfl := Option.some.inj hstep
    exact h.arrive wc
  | handler =>
    obtain rfl := Option.some.inj hstep
    exact h.handler

/-- The queue that `hmr_cq_get` leaves has it. -/
theorem hmrCqGet_inv : ChannelInv hmrCqGet :=
  ⟨⟨fun _ hne => absurd rfl hne, rfl⟩, fun _ => .inl rfl⟩

end Step

/-- No completion is stranded, and every event taken is acknowledged, in every interleaving of
arriving completions with the steps of the handler. -/
theorem notStranded_run (events : List ChannelEvent) :
    Always channelStep NotStranded hmrCqGet events :=
  always_of_invariant (D := fun _ => True) (fun _ h => h.notStranded)
    (fun _ _ _ _ h hstep => h.step hstep) (fun _ _ => trivial) hmrCqGet_inv

/-- The completions that arrive in a run. -/
def arrivals : List ChannelEvent → List IbvWc
  | [] => []
  | .arrive wc :: es => wc :: arrivals es
  | .handler :: es => arrivals es

/-- The completions dispatched, followed by those still queued, are those that arrived, in order. -/
theorem dispatched_append_cq {c c' : CompletionChannel} {events : List ChannelEvent}
    (hrun : runEvents channelStep c events = some c') :
    c'.dispatched ++ c'.cq = c.dispatched ++ c.cq ++ arrivals events := by
  induction events generalizing c with
  | nil =>
    obtain rfl := Option.some.inj hrun
    rw [arrivals, List.append_nil]
  | cons e es ih =>
    obtain ⟨u, hstep, hrest⟩ := runEvents_cons_eq_some.mp hrun
    rw [ih hrest]
    cases e with
    | arrive wc =>
      obtain rfl := Option.some.inj hstep
      simp [CompletionChannel.arrive, arrivals]
    | handler =>
      obtain rfl := Option.some.inj hstep
      have hsame : (hmrCqCompChannelHandler c).dispatched ++ (hmrCqCompChannelHandler c).cq =
          c.dispatched ++ c.cq := by
        unfold hmrCqCompChannelHandler
        split
        · split <;> rfl
        · rfl
        · rfl
        · split
          · rfl
          · rename_i wc rest hcq
            simp [hcq]
      rw [hsame, arrivals]

/-- The loop of the handler, left alone, dispatches the whole queue and returns. -/
theorem polling_drains {c : CompletionChannel} (hphase : c.phase = .polling) :
    runEvents channelStep c (List.replicate (c.cq.length + 1) .handler) =
      some { c with cq := [], phase := .idle, dispatched := c.dispatched ++ c.cq } := by
  obtain ⟨armed, events, cq, phase, taken, acked, dispatched⟩ := c
  obtain rfl : phase = .polling := hphase
  induction cq generalizing dispatched with
  | nil => simp [runEvents, channelStep, hmrCqCompChannelHandler]
  | cons wc rest ih =>
    rw [List.length_cons, List.replicate_succ, runEvents]
    simp only [channelStep, hmrCqCompChannelHandler, Option.bind_some]
    rw [ih]
    simp

/-- So the run of the handler that a pending event causes empties the queue and leaves it armed. -/
theorem handler_drains {c : CompletionChannel} (hphase : c.phase = .idle) (hevent : 0 < c.events) :
    runEvents channelStep c (List.replicate (c.cq.length + 4) .handler) =
      some { c with
        armed := true
        events := c.events - 1
        cq := []
        taken := c.taken + 1
        acked := c.acked + 1
        dispatched := c.dispatched ++ c.cq } := by
  have hne : c.events ≠ 0 := hevent.ne'
  have hloop := polling_drains (c := { c with
    armed := true
    events := c.events - 1
    taken := c.taken + 1
    acked := c.acked + 1
    phase := .polling }) rfl
  have hsplit : c.cq.length + 4 = 3 + (c.cq.length + 1) := by omega
  rw [hsplit, List.replicate_add, runEvents_append]
  simp only [List.replicate, runEvents, channelStep, hmrCqCompChannelHandler, hphase, hne, if_false,
    Option.bind_some]
  exact hloop

end HmrRpc
