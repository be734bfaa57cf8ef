import HmrRpc.TwoParty

/-!
# The MR exchange in its own terms

A client sends its MR when its ESTABLISHED event is handled, and the server answers the
first one it receives in CONNECTED. Whether it is in CONNECTED then depends on its own
ESTABLISHED event, which nothing orders against the accepting thread's store of
CONNECTING or against the first receive.

The exchange is followed here on states and counts alone. Handled in CONNECTING, the
server's event leads to a completed exchange; handled in any other state, it leads to
one that never completes.
-/

namespace HmrRpc

/-- What the exchange is about: the accepting thread, the two ESTABLISHED events and states, the
MRs handled and under way, and the server's posted sends. -/
structure ExchangeView where
  accept : AcceptPhase
  clientEvent : CmEventStatus
  serverEvent : CmEventStatus
  client : HmrRdmaTransportState
  server : HmrRdmaTransportState
  clientMrs : ℕ
  serverMrs : ℕ
  clientWire : ℕ
  serverWire : ℕ
  serverSq : ℕ
  deriving DecidableEq

/-- A send completion leaves a state or moves it from CONNECTED to SCONNECTED. -/
def SentState (before after : HmrRdmaTransportState) : Prop :=
  after = before ∨ (before = .connected ∧ after = .sconnected)

/-- The MRs sent in answer to one received in a state. -/
def answers (state : HmrRdmaTransportState) : ℕ := if state = .connected then 1 else 0

namespace ExchangeView

variable (v : ExchangeView)

/-- The client's ESTABLISHED event sends its MR. -/
def clientEstablished : ExchangeView :=
  { v with clientEvent := .handled, client := .connected, clientWire := v.clientWire + 1 }

/-- The server's only makes it CONNECTED. -/
def serverEstablished : ExchangeView :=
  { v with serverEvent := .handled, server := .connected }

/-- The client receives an MR. -/
def clientReceived : ExchangeView :=
  { v with
    client := .rconnected
    clientMrs := v.clientMrs + 1
    serverWire := v.serverWire - 1
    clientWire := v.clientWire + answers v.client }

/-- The server receives an MR. -/
def serverReceived : ExchangeView :=
  { v with
    server := .rconnected
    serverMrs := v.serverMrs + 1
    clientWire := v.clientWire - 1
    serverWire := v.serverWire + answers v.server
    serverSq := v.serverSq + answers v.server }

/-- `rdma_accept` makes the events pending. -/
def accepted : ExchangeView :=
  { v with accept := .accepted, clientEvent := .pending, serverEvent := .pending }

/-- The accepting thread stores CONNECTING. -/
def connecting : ExchangeView := { v with accept := .connecting, server := .connecting }

end ExchangeView

/-- The steps of the exchange in which the server's ESTABLISHED event is handled in CONNECTING. -/
inductive ExchangeStep (v : ExchangeView) : ExchangeView → Prop
  | clientEstablished (hevent : v.clientEvent = .pending) : ExchangeStep v v.clientEstablished
  | serverEstablished (hevent : v.serverEvent = .pending) (hstate : v.server = .connecting) :
      ExchangeStep v v.serverEstablished
  | clientSent (state : HmrRdmaTransportState) (hstate : SentState v.client state) :
      ExchangeStep v { v with client := state }
  | serverSent (state : HmrRdmaTransportState) (hstate : SentState v.server state)
      (hsq : 0 < v.serverSq) :
      ExchangeStep v { v with server := state, serverSq := v.serverSq - 1 }
  | clientReceived (hwire : 0 < v.serverWire) : ExchangeStep v v.clientReceived
  | serverReceived (left : ℕ) (hphase : v.accept = .posting left) (hwire : 0 < v.clientWire) :
      ExchangeStep v v.serverReceived
  | accepted (hphase : v.accept = .waiting) : ExchangeStep v v.accepted
  | connecting (hphase : v.accept = .accepted) : ExchangeStep v v.connecting
  | posting (left : ℕ) (hphase : v.accept = .connecting ∨ v.accept = .posting (left + 1)) :
      ExchangeStep v { v with accept := .posting left }

/-- The accepting thread has not stored CONNECTING yet. -/
def AcceptPhase.Early (a : AcceptPhase) : Prop := a = .waiting ∨ a = .accepted

/-- What the exchange keeps: who has sent nothing yet, and what each side is left in once an MR
has arrived. -/
structure ExchangeView.Inv (v : ExchangeView) : Prop where
  waiting : v.accept = .waiting → v.clientEvent = .absent ∧ v.serverEvent = .absent
  raised : v.accept ≠ .waiting → v.clientEvent ≠ .absent ∧ v.serverEvent ≠ .absent
  early : v.accept.Early → v.server ≠ .connecting ∧ v.serverEvent ≠ .handled
  stored : v.serverEvent ≠ .handled → ¬v.accept.Early → v.serverMrs = 0 → v.server = .connecting
  unposted : (∀ left, v.accept ≠ .posting left) → v.serverMrs = 0
  clientSilent : v.clientEvent ≠ .handled → v.clientWire = 0 ∧ v.serverMrs = 0
  clientSent : v.clientEvent = .handled → 0 < v.clientWire ∨ 0 < v.serverMrs
  once : v.clientMrs = 0 → v.clientWire + v.serverMrs ≤ 1
  clientDone : 0 < v.clientMrs → v.client = .rconnected
  serverSilent : v.serverMrs = 0 → v.serverWire = 0 ∧ v.serverSq = 0 ∧ v.clientMrs = 0
  unanswered : v.serverEvent ≠ .handled →
    v.server ≠ .connected ∧ v.serverWire = 0 ∧ v.serverSq = 0 ∧ v.clientMrs = 0
  serverMissed : v.serverEvent ≠ .handled → 0 < v.serverMrs → v.server ≠ .connecting
  serverReady : v.serverEvent = .handled → v.serverMrs = 0 → v.server = .connected
  serverAnswered : v.serverEvent = .handled → 0 < v.serverMrs →
    v.server = .rconnected ∧ (0 < v.serverWire ∨ 0 < v.clientMrs)

namespace ExchangeView

variable {v v' : ExchangeView}

/-- The server sends and posts only behind a received MR and its ESTABLISHED event. -/
theorem Inv.serverActive (h : v.Inv) (hactive : 0 < v.serverWire ∨ 0 < v.serverSq) :
    0 < v.serverMrs ∧ v.serverEvent = .handled := by
  constructor
  · apply Nat.pos_of_ne_zero
    intro hzero
    obtain ⟨hwire, hsq, -⟩ := h.serverSilent hzero
    omega
  · by_contra hne
    obtain ⟨-, hwire, hsq, -⟩ := h.unanswered hne
    omega

/-- The client sends only behind its own. -/
theorem Inv.clientActive (h : v.Inv) (hactive : 0 < v.clientWire ∨ 0 < v.serverMrs) :
    v.clientEvent = .handled := by
  by_contra hne
  obtain ⟨hwire, hmrs⟩ := h.clientSilent hne
  omega

/-- The client's ESTABLISHED event keeps the invariant. -/
theorem Inv.clientEstablished (h : v.Inv) (hevent : v.clientEvent = .pending) :
    v.clientEstablished.Inv := by
  obtain ⟨hwire, hmrs⟩ := h.clientSilent (by simp [hevent])
  have hclientMrs : v.clientMrs = 0 := (h.serverSilent hmrs).2.2
  exact { h with
    waiting := fun hphase => absurd (h.waiting hphase).1 (by simp [hevent])
    raised := fun hphase => ⟨by simp [ExchangeView.clientEstablished], (h.raised hphase).2⟩
    clientSilent := fun hne => absurd rfl hne
    clientSent := fun _ => .inl (Nat.succ_pos _)
    once := fun _ => by simp [ExchangeView.clientEstablished, hwire, hmrs]
    clientDone := fun hpos => absurd hclientMrs hpos.ne' }

/-- So does the server's, in CONNECTING. -/
theorem Inv.serverEstablished (h : v.Inv) (hevent : v.serverEvent = .pending)
    (hstate : v.server = .connecting) : v.serverEstablished.Inv := by
  have hunhandled : v.serverEvent ≠ .handled := by simp [hevent]
  -- an MR received before the event would have left CONNECTING
  have hmrs : v.serverMrs = 0 := by
    by_contra hne
    exact h.serverMissed hunhandled (Nat.pos_of_ne_zero hne) hstate
  exact { h with
    waiting := fun hphase => absurd (h.waiting hphase).2 (by simp [hevent])
    raised := fun hphase => ⟨(h.raised hphase).1, by simp [ExchangeView.serverEstablished]⟩
    early := fun hearly => absurd hstate (h.early hearly).1
    stored := fun hne => absurd rfl hne
    unanswered := fun hne => absurd rfl hne
    serverMissed := fun hne => absurd rfl hne
    serverReady := fun _ _ => rfl
    serverAnswered := fun _ hpos => absurd hmrs hpos.ne' }

/-- So does the completion of a send of the client. -/
theorem Inv.clientSendDone (h : v.Inv) {state : HmrRdmaTransportState}
    (hstate : SentState v.client state) : Inv { v with client := state } := by
  refine { h with clientDone := fun hpos => ?_ }
  rcases hstate with rfl | ⟨hconnected, -⟩
  · exact h.clientDone hpos
  · rw [h.clientDone hpos] at hconnected
    contradiction

/-- So does one of the server, which has left CONNECTED by then. -/
theorem Inv.serverSendDone (h : v.Inv) {state : HmrRdmaTransportState}
    (hstate : SentState v.server state) (hsq : 0 < v.serverSq) :
    Inv { v with server := state, serverSq := v.serverSq - 1 } := by
  obtain ⟨hmrs, hhandled⟩ := h.serverActive (.inr hsq)
  have hdone := h.serverAnswered hhandled hmrs
  have hsame : state = v.server := by
    apply hstate.resolve_right
    rintro ⟨hconnected, -⟩
    rw [hdone.1] at hconnected
    contradiction
  exact { h with
    early := fun hearly => absurd hhandled (h.early hearly).2
    stored := fun hne => absurd hhandled hne
    serverSilent := fun hzero => absurd hzero hmrs.ne'
    unanswered := fun hne => absurd hhandled hne
    serverMissed := fun hne => absurd hhandled hne
    serverReady := fun _ hzero => absurd hzero hmrs.ne'
    serverAnswered := fun _ _ => ⟨hsame.trans hdone.1, hdone.2⟩ }

/-- So does an MR at the client. -/
theorem Inv.clientReceived (h : v.Inv) (hwire : 0 < v.serverWire) : v.clientReceived.Inv := by
  obtain ⟨hmrs, hhandled⟩ := h.serverActive (.inl hwire)
  have hevent : v.clientEvent = .handled := h.clientActive (.inr hmrs)
  exact { h with
    clientSilent := fun hne => absurd hevent hne
    clientSent := fun _ => .inr hmrs
    once := fun hzero => absurd hzero (Nat.succ_ne_zero _)
    clientDone := fun _ => rfl
    serverSilent := fun hzero => absurd hzero hmrs.ne'
    unanswered := fun hne => absurd hhandled hne
    serverAnswered := fun hhandled hpos =>
      ⟨(h.serverAnswered hhandled hpos).1, .inr (Nat.succ_pos _)⟩ }

/-- So does an MR at the server. -/
theorem Inv.serverReceived (h : v.Inv) {left : ℕ} (hphase : v.accept = .posting left)
    (hwire : 0 < v.clientWire) : v.serverReceived.Inv := by
  have hevent : v.clientEvent = .handled := h.clientActive (.inl hwire)
  exact { h with
    early := fun hearly => by
      rcases hearly with hearly | hearly <;>
        simp [ExchangeView.serverReceived, hphase] at hearly
    stored := fun _ _ hzero => absurd hzero (Nat.succ_ne_zero _)
    unposted := fun hne => absurd hphase (hne left)
    clientSilent := fun hne => absurd hevent hne
    clientSent := fun _ => .inr (Nat.succ_pos _)
    once := fun hzero => by
      have hbefore := h.once hzero
      simp only [ExchangeView.serverReceived]
      omega
    serverSilent := fun hzero => absurd hzero (Nat.succ_ne_zero _)
    unanswered := fun hne => by
      obtain ⟨hstate, hserverWire, hsq, hclientMrs⟩ := h.unanswered hne
      simp [ExchangeView.serverReceived, answers, hstate, hserverWire, hsq, hclientMrs]
    serverMissed := fun _ _ => by simp [ExchangeView.serverReceived]
    serverReady := fun _ hzero => absurd hzero (Nat.succ_ne_zero _)
    serverAnswered := fun hhandled _ => by
      refine ⟨rfl, ?_⟩
      -- the first MR is answered, a later one finds the answer under way or arrived
      rcases Nat.eq_zero_or_pos v.serverMrs with hzero | hpos
      · simp [ExchangeView.serverReceived, answers, h.serverReady hhandled hzero]
      · rcases (h.serverAnswered hhandled hpos).2 with hunder | harrived
        · exact .inl (Nat.add_pos_left hunder _)
        · exact .inr harrived }

/-- So does `rdma_accept`. -/
theorem Inv.accepted (h : v.Inv) (hphase : v.accept = .waiting) : v.accepted.Inv := by
  have hmrs := h.unposted (by simp [hphase])
  obtain ⟨hclient, hserver⟩ := h.waiting hphase
  exact { h with
    waiting := fun hne => by simp [ExchangeView.accepted] at hne
    raised := fun _ => by simp [ExchangeView.accepted]
    early := fun _ => ⟨(h.early (.inl hphase)).1, by simp [ExchangeView.accepted]⟩
    stored := fun _ hne => absurd (.inr rfl) hne
    unposted := fun _ => hmrs
    clientSilent := fun _ => h.clientSilent (by simp [hclient])
    clientSent := fun hhandled => by simp [ExchangeView.accepted] at hhandled
    unanswered := fun _ => h.unanswered (by simp [hserver])
    serverMissed := fun _ hpos => absurd hmrs hpos.ne'
    serverReady := fun hhandled => by simp [ExchangeView.accepted] at hhandled
    serverAnswered := fun hhandled => by simp [ExchangeView.accepted] at hhandled }

/-- So does the store of CONNECTING. -/
theorem Inv.connecting (h : v.Inv) (hphase : v.accept = .accepted) : v.connecting.Inv := by
  have hmrs := h.unposted (by simp [hphase])
  have hevent : v.serverEvent ≠ .handled := (h.early (.inr hphase)).2
  exact { h with
    waiting := fun hne => by simp [ExchangeView.connecting] at hne
    raised := fun _ => h.raised (by simp [hphase])
    early := fun hearly => by simp [ExchangeView.connecting, AcceptPhase.Early] at hearly
    stored := fun _ _ _ => rfl
    unposted := fun _ => hmrs
    unanswered := fun hne => ⟨by simp [ExchangeView.connecting], (h.unanswered hne).2⟩
    serverMissed := fun _ hpos => absurd hmrs hpos.ne'
    serverReady := fun hhandled => absurd hhandled hevent
    serverAnswered := fun hhandled => absurd hhandled hevent }

/-- So does the rest of the accepting thread. -/
theorem Inv.posting (h : v.Inv) {left : ℕ}
    (hphase : v.accept = .connecting ∨ v.accept = .posting (left + 1)) :
    Inv { v with accept := .posting left } := by
  have hlate : ¬v.accept.Early := by
    rcases hphase with hphase | hphase <;> simp [hphase, AcceptPhase.Early]
  exact { h with
    waiting := fun hne => by simp at hne
    raised := fun _ => h.raised fun hwaiting => hlate (.inl hwaiting)
    early := fun hearly => by simp [AcceptPhase.Early] at hearly
    stored := fun hne _ => h.stored hne hlate
    unposted := fun hne => absurd rfl (hne left) }

/-- Every step of the exchange keeps the invariant. -/
theorem Inv.step (h : v.Inv) (hstep : ExchangeStep v v') : v'.Inv := by
  cases hstep with
  | clientEstablished hevent => exact h.clientEstablished hevent
  | serverEstablished hevent hstate => exact h.serverEstablished hevent hstate
  | clientSent state hstate => exact h.clientSendDone hstate
  | serverSent state hstate hsq => exact h.serverSendDone hstate hsq
  | clientReceived hwire => exact h.clientReceived hwire
  | serverReceived left hphase hwire => exact h.serverReceived hphase hwire
  | accepted hphase => exact h.accepted hphase
  | connecting hphase => exact h.connecting hphase
  | posting left hphase => exact h.posting hphase

/-- Nothing of the exchange is outstanding: the accepting thread is done, both events are handled,
and no MR is under way. -/
def Quiet (v : ExchangeView) : Prop :=
  v.accept = .posting 0 ∧ v.clientEvent ≠ .pending ∧ v.serverEvent ≠ .pending ∧
    v.clientWire = 0 ∧ v.serverWire = 0

/-- Then both sides have handled an MR and are in RCONNECTED. -/
theorem Inv.completed (h : v.Inv) (hquiet : v.Quiet) :
    (v.client = .rconnected ∧ 0 < v.clientMrs) ∧ (v.server = .rconnected ∧ 0 < v.serverMrs) := by
  obtain ⟨hphase, hclient, hserver, hclientWire, hserverWire⟩ := hquiet
  have handled {event : CmEventStatus} (habsent : event ≠ .absent) (hpending : event ≠ .pending) :
      event = .handled := by
    cases event <;> trivial
  obtain ⟨hclientRaised, hserverRaised⟩ := h.raised (by simp [hphase])
  have hserverMrs : 0 < v.serverMrs :=
    (h.clientSent (handled hclientRaised hclient)).resolve_left (by simp [hclientWire])
  obtain ⟨hdone, hanswer⟩ := h.serverAnswered (handled hserverRaised hserver) hserverMrs
  have hclientMrs : 0 < v.clientMrs := hanswer.resolve_left (by simp [hserverWire])
  exact ⟨⟨h.clientDone hclientMrs, hclientMrs⟩, hdone, hserverMrs⟩

/-- An exchange whose server handled its ESTABLISHED event out of time: it is in CONNECTED only
before the store or behind the one MR the client sends, so it never sends its own. -/
structure Missed (v : ExchangeView) : Prop where
  event : v.serverEvent = .handled
  raised : v.accept ≠ .waiting
  unposted : (∀ left, v.accept ≠ .posting left) → v.serverMrs = 0
  silent : v.serverWire = 0 ∧ v.serverSq = 0 ∧ v.clientMrs = 0
  once : v.clientWire + v.serverMrs ≤ 1
  clientSilent : v.clientEvent ≠ .handled → v.clientWire + v.serverMrs = 0
  deaf : v.server = .connected → v.accept.Early ∨ v.serverMrs = 1

/-- Handling the event out of time misses the exchange. -/
theorem Inv.missed (h : v.Inv) (hevent : v.serverEvent = .pending)
    (hstate : v.server ≠ .connecting) : v.serverEstablished.Missed := by
  have hunhandled : v.serverEvent ≠ .handled := by simp [hevent]
  obtain ⟨-, hsilent⟩ := h.unanswered hunhandled
  have honce := h.once hsilent.2.2
  refine ⟨rfl, fun hphase => ?_, h.unposted, hsilent, honce, fun hne => ?_, fun _ => ?_⟩
  · rw [(h.waiting hphase).2] at hevent
    contradiction
  · obtain ⟨hwire, hmrs⟩ := h.clientSilent hne
    exact Nat.add_eq_zero_iff.mpr ⟨hwire, hmrs⟩
  · by_cases hearly : v.accept.Early
    · exact .inl hearly
    · have hmrs : v.serverMrs ≠ 0 := fun hzero => hstate (h.stored hunhandled hearly hzero)
      exact .inr (show v.serverMrs = 1 by omega)

/-- No later step makes up for it. -/
theorem Missed.step (h : v.Missed) (hstep : ExchangeStep v v') : v'.Missed := by
  obtain ⟨hserverWire, hserverSq, -⟩ := h.silent
  cases hstep with
  | clientEstablished hevent =>
    have hzero := h.clientSilent (by simp [hevent])
    exact { h with
      once := by simp only [ExchangeView.clientEstablished]; omega
      clientSilent := fun hne => absurd rfl hne }
  | serverEstablished hevent =>
    rw [h.event] at hevent
    contradiction
  | clientSent state => exact { h with }
  | serverSent state _ hsq => exact absurd hserverSq hsq.ne'
  | clientReceived hwire => exact absurd hserverWire hwire.ne'
  | serverReceived left hphase hwire =>
    have honce := h.once
    have hstate : v.server ≠ .connected := by
      intro hconnected
      rcases h.deaf hconnected with hearly | hmrs
      · rcases hearly with hearly | hearly <;> simp [hphase] at hearly
      · omega
    have hanswers : answers v.server = 0 := if_neg hstate
    exact { h with
      unposted := fun hne => absurd hphase (hne left)
      silent := by simpa [ExchangeView.serverReceived, hanswers] using h.silent
      once := by simp only [ExchangeView.serverReceived]; omega
      clientSilent := fun hne => by
        have hzero := h.clientSilent hne
        omega
      deaf := fun hconnected => by simp [ExchangeView.serverReceived] at hconnected }
  | accepted hphase => exact absurd hphase h.raised
  | connecting hphase =>
    exact { h with
      raised := by simp [ExchangeView.connecting]
      unposted := fun _ => h.unposted (by simp [hphase])
      deaf := fun hconnected => by simp [ExchangeView.connecting] at hconnected }
  | posting left hphase =>
    exact { h with
      raised := by simp
      unposted := fun hne => absurd rfl (hne left)
      deaf := fun hconnected => by
        apply (h.deaf hconnected).imp_left
        intro hearly
        rcases hphase with hphase | hphase <;> simp [hphase, AcceptPhase.Early] at hearly }

end ExchangeView

end HmrRpc
