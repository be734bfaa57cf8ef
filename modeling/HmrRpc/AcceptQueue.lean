import HmrRpc.Common.Chain
import HmrRpc.Common.Run
import Mathlib.Data.List.Nodup
import Mathlib.Data.List.Perm.Basic
import Mathlib.Tactic.Common

/-!
# Connection requests on their way to `hmr_rdma_accept`

The event thread pushes the transport of a connection request onto a chain that starts in
the listener's `accept_rdma_trans` and goes on through the same field of the transports; the
application's thread pops it. Each thread reads the head and stores it in a later step, and
nothing keeps the other from storing in between: the requests survive exactly as long as
neither thread reads the head within the other's update.
-/

namespace HmrRpc

open Common
open scoped List

/-- Where the event thread stands in `on_cm_connect_request`. -/
inductive PushPhase (A : Type*)
  | idle
  /-- It has read the head for the link of the new transport. -/
  | read (new : A) (head : Option A)
  /-- It has stored the link. -/
  | linked (new : A)
  deriving DecidableEq

/-- Where the application's thread stands in `hmr_rdma_accept`. -/
inductive PopPhase (A : Type*)
  /-- In the loop that waits for a request, or outside. -/
  | waiting
  /-- Behind the loop. -/
  | ready
  /-- It has read the head. -/
  | read (first : A)
  /-- It has read the link of the first transport. -/
  | fetched (first : A) (link : Option A)
  /-- It has stored the new head. -/
  | stored (first : A)
  /-- It has cleared the link, and calls `rdma_accept`. -/
  | cleared (first : A)
  deriving DecidableEq

/-- The listener's head, the links of the transports, both threads, and as history the transports
of all requests and those returned by `hmr_rdma_accept`. -/
structure AcceptQueue (A : Type*) where
  head : Option A
  link : A → Option A
  push : PushPhase A
  pop : PopPhase A
  pushed : List A
  returned : List A

/-- A connection request with its new transport, or the next access of a thread; `ok` is what
`rdma_accept` returns when it is called. -/
inductive AcceptEvent (A : Type*)
  | request (new : A)
  | eventThread
  | appThread (ok : Bool)

/-- The chain of a listener without requests. -/
def AcceptQueue.empty (A : Type*) : AcceptQueue A := ⟨none, fun _ => none, .idle, .waiting, [], []⟩

section Steps

variable {A : Type*} [DecidableEq A]

/-- The next access of the event thread in `on_cm_connect_request`. -/
def pushStep (q : AcceptQueue A) : Option (AcceptQueue A) :=
  match q.push with
  | .idle => none
  | .read new head => some { q with link := Function.update q.link new head, push := .linked new }
  | .linked new => some { q with head := some new, push := .idle }

/-- The next access of the application's thread in `hmr_rdma_accept`. -/
def popStep (q : AcceptQueue A) (ok : Bool) : Option (AcceptQueue A) :=
  match q.pop with
  | .waiting => some (if q.head.isSome then { q with pop := .ready } else q)
  | .ready => q.head.map fun first => { q with pop := .read first }
  | .read first => some { q with pop := .fetched first (q.link first) }
  | .fetched first link => some { q with head := link, pop := .stored first }
  | .stored first => some { q with link := Function.update q.link first none, pop := .cleared first }
  | .cleared first =>
    -- when `rdma_accept` fails, NULL is returned and the transport is given up
    some { q with pop := .waiting, returned := if ok then q.returned ++ [first] else q.returned }

/-- One access of either thread. -/
def acceptStep (q : AcceptQueue A) : AcceptEvent A → Option (AcceptQueue A)
  | .request new =>
    if q.push = .idle ∧ new ∉ q.pushed then
      some { q with push := .read new q.head, pushed := q.pushed ++ [new] }
    else none
  | .eventThread => pushStep q
  | .appThread ok => popStep q ok

end Steps

/-- The transport the event thread has not put on the chain yet. -/
def PushPhase.held {A : Type*} : PushPhase A → List A
  | .idle => []
  | .read new _ | .linked new => [new]

/-- The transport the application's thread has taken off the chain and not returned yet. -/
def PopPhase.held {A : Type*} : PopPhase A → List A
  | .stored first | .cleared first => [first]
  | _ => []

/-- The application's thread has read the head and not stored it. -/
def PopPhase.Updating {A : Type*} : PopPhase A → Prop
  | .read _ | .fetched _ _ => True
  | _ => False

/-- The application's thread is in its loop. -/
def PopPhase.Outside {A : Type*} : PopPhase A → Prop
  | .waiting | .ready => True
  | _ => False

/-- No transport is returned twice, and outside both updates the transports not yet returned are
those reached from the head. -/
structure AcceptedOnce {A : Type*} (q : AcceptQueue A) : Prop where
  once : q.returned.Nodup
  pending : q.push = .idle → q.pop.Outside →
    ∀ a, Reaches q.link q.head a ↔ a ∈ q.pushed ∧ a ∉ q.returned

/-- Neither thread reads the head within the other's update, and `rdma_accept` succeeds. -/
def ReadsApart {A : Type*} (q : AcceptQueue A) : AcceptEvent A → Prop
  | .request _ => ¬q.pop.Updating
  | .eventThread => True
  | .appThread ok => (q.pop = .ready → q.push = .idle) ∧ ((∃ a, q.pop = .cleared a) → ok)

/-- What the event thread has read is still so. -/
def PushPhase.Current {A : Type*} (q : AcceptQueue A) : PushPhase A → Prop
  | .idle => True
  | .read _ head => head = q.head
  | .linked new => q.link new = q.head

/-- What the application's thread has read is still so. -/
def PopPhase.Current {A : Type*} (q : AcceptQueue A) : PopPhase A → Prop
  | .read first => q.head = some first
  | .fetched first link => q.head = some first ∧ link = q.link first
  | _ => True

/-- Every transport is in one place: on the chain, in the hands of one thread, or returned. -/
structure AcceptInv {A : Type*} (chain : List A) (q : AcceptQueue A) : Prop where
  linked : Linked q.link q.head chain
  places : (chain ++ q.push.held ++ q.pop.held ++ q.returned).Perm q.pushed
  fresh : q.pushed.Nodup
  apart : q.push ≠ .idle → ¬q.pop.Updating
  push : q.push.Current q
  pop : q.pop.Current q

section Invariant

variable {A : Type*} {q q' : AcceptQueue A} {chain : List A}

/-- A transport in the hands of the event thread is in no other place. -/
theorem AcceptInv.held_notMem (h : AcceptInv chain q) {a : A}
    (ha : a ∈ q.push.held ∨ a ∈ q.pop.held) : a ∉ chain := by
  intro hchain
  have hnodup := h.places.nodup_iff.mpr h.fresh
  rw [List.append_assoc, List.append_assoc] at hnodup
  refine List.disjoint_of_nodup_append hnodup hchain ?_
  simp only [List.mem_append]
  tauto

/-- The invariant gives the property. -/
theorem AcceptInv.acceptedOnce (h : AcceptInv chain q) : AcceptedOnce q where
  once := ((h.places.nodup_iff.mpr h.fresh).of_append_right)
  pending hpush hpop a := by
    have hheld : q.pop.held = [] := by
      cases hphase : q.pop <;> simp [hphase, PopPhase.Outside, PopPhase.held] at hpop ⊢
    have hplaces := h.places
    simp only [hpush, hheld, PushPhase.held, List.append_nil] at hplaces
    have hdisjoint := List.disjoint_of_nodup_append (hplaces.nodup_iff.mpr h.fresh)
    rw [h.linked.reaches_iff, ← hplaces.mem_iff, List.mem_append]
    constructor
    · exact fun hmem => ⟨.inl hmem, hdisjoint hmem⟩
    · exact fun hmem => hmem.1.resolve_right hmem.2

/-- A request that reads the head outside the application's update keeps the invariant. -/
theorem AcceptInv.request (h : AcceptInv chain q) {new : A} (hidle : q.push = .idle)
    (hnew : new ∉ q.pushed) (hapart : ¬q.pop.Updating) :
    AcceptInv chain { q with push := .read new q.head, pushed := q.pushed ++ [new] } where
  linked := h.linked
  places := by
    have hplaces := h.places
    simp only [hidle, PushPhase.held, List.append_nil] at hplaces ⊢
    calc
      chain ++ [new] ++ q.pop.held ++ q.returned
      _ = chain ++ ([new] ++ (q.pop.held ++ q.returned)) := by simp
      _ ~ chain ++ ((q.pop.held ++ q.returned) ++ [new]) := List.perm_append_comm.append_left chain
      _ = (chain ++ q.pop.held ++ q.returned) ++ [new] := by simp
      _ ~ q.pushed ++ [new] := hplaces.append_right [new]
  fresh := List.nodup_append.mpr ⟨h.fresh, List.nodup_singleton new, fun a ha b hb hab =>
    hnew (List.mem_singleton.mp hb ▸ hab ▸ ha)⟩
  apart _ := hapart
  push := rfl
  pop := by
    have hpop := h.pop
    revert hpop hapart
    cases q.pop <;> simp [PopPhase.Current, PopPhase.Updating]

variable [DecidableEq A]

/-- The accesses of the event thread keep it, and the second puts the transport on the chain. -/
theorem AcceptInv.pushStep (h : AcceptInv chain q) (hstep : pushStep q = some q') :
    ∃ chain', AcceptInv chain' q' := by
  unfold HmrRpc.pushStep at hstep
  cases hpush : q.push with
  | idle => simp [hpush] at hstep
  | read new head =>
    simp only [hpush, Option.some.injEq] at hstep
    subst hstep
    have hnot : new ∉ chain := h.held_notMem (.inl (by simp [hpush, PushPhase.held]))
    have hapart : ¬q.pop.Updating := h.apart (by simp [hpush])
    have hhead : head = q.head := by simpa [hpush, PushPhase.Current] using h.push
    refine ⟨chain, h.linked.update hnot head, ?_, h.fresh, fun _ => hapart, ?_, ?_⟩
    · simpa [hpush, PushPhase.held] using h.places
    · simp [PushPhase.Current, hhead]
    · revert hapart
      cases q.pop <;> simp [PopPhase.Current, PopPhase.Updating]
  | linked new =>
    simp only [hpush, Option.some.injEq] at hstep
    subst hstep
    have hapart : ¬q.pop.Updating := h.apart (by simp [hpush])
    have hlink : q.link new = q.head := by simpa [hpush, PushPhase.Current] using h.push
    refine ⟨new :: chain, ⟨rfl, hlink ▸ h.linked⟩, ?_, h.fresh, by simp, trivial, ?_⟩
    · have hplaces := h.places
      simp only [hpush, PushPhase.held, List.append_nil] at hplaces ⊢
      refine List.Perm.trans ?_ hplaces
      simp only [List.append_assoc, List.cons_append, List.nil_append]
      exact List.perm_middle.symm
    · revert hapart
      cases q.pop <;> simp [PopPhase.Current, PopPhase.Updating]

/-- Storing the link that was read takes the first transport off the chain. -/
theorem AcceptInv.takeHead (h : AcceptInv chain q) {first : A} {link : Option A}
    (hpop : q.pop = .fetched first link) :
    ∃ rest, AcceptInv rest { q with head := link, pop := .stored first } := by
  have hidle : q.push = .idle := by
    by_contra hne
    exact h.apart hne (by simp [hpop, PopPhase.Updating])
  obtain ⟨hhead, rfl⟩ : q.head = some first ∧ link = q.link first := by
    simpa [hpop, PopPhase.Current] using h.pop
  have hplaces := h.places
  have hlinked := h.linked
  rw [hhead] at hlinked
  cases chain with
  | nil => exact absurd hlinked (by simp [Linked])
  | cons a rest =>
    obtain ⟨hfirst, hrest⟩ := hlinked
    obtain rfl := Option.some.inj hfirst
    refine ⟨rest, hrest, ?_, h.fresh, fun hne => absurd hidle hne, ?_, trivial⟩
    · simp only [hpop, hidle, PushPhase.held, PopPhase.held, List.append_nil] at hplaces ⊢
      refine List.Perm.trans ?_ hplaces
      rw [List.append_assoc]
      exact List.perm_middle
    · simp only [hidle]
      trivial

/-- Clearing the link of a transport that was taken off changes no chain. -/
theorem AcceptInv.clearLink (h : AcceptInv chain q) {first : A}
    (hpop : q.pop = .stored first) :
    AcceptInv chain { q with
      link := Function.update q.link first none
      pop := .cleared first } := by
  have hnot : first ∉ chain := h.held_notMem (.inr (by simp [hpop, PopPhase.held]))
  have hplaces := h.places
  rw [hpop] at hplaces
  refine ⟨h.linked.update hnot none, hplaces, h.fresh, fun _ => id, ?_, trivial⟩
  have hpush := h.push
  cases hphase : q.push with
  | idle => trivial
  | read new head => simpa [hphase, PushPhase.Current] using hpush
  | linked new =>
    -- the two threads hold different transports
    have hne : new ≠ first := by
      have hnodup := hplaces.nodup_iff.mpr h.fresh
      simp only [hphase, PushPhase.held, PopPhase.held] at hnodup
      rintro rfl
      rw [List.append_assoc, List.append_assoc] at hnodup
      exact (List.nodup_cons.mp hnodup.of_append_right).1 List.mem_cons_self
    simp only [PushPhase.Current, Function.update_of_ne hne]
    simpa [hphase, PushPhase.Current] using hpush

/-- The accesses of the application's thread keep it when it reads the head outside the event
thread's update and `rdma_accept` succeeds. -/
theorem AcceptInv.popStep (h : AcceptInv chain q) {ok : Bool} (hapart : ReadsApart q (.appThread ok))
    (hstep : popStep q ok = some q') : ∃ chain', AcceptInv chain' q' := by
  have hplaces := h.places
  unfold HmrRpc.popStep at hstep
  cases hpop : q.pop with
  | waiting =>
    simp only [hpop, Option.some.injEq] at hstep
    subst hstep
    split
    · rw [hpop] at hplaces
      exact ⟨chain, h.linked, hplaces, h.fresh, fun _ => id, h.push, trivial⟩
    · exact ⟨chain, h⟩
  | ready =>
    simp only [hpop, Option.map_eq_some_iff] at hstep
    obtain ⟨first, hhead, rfl⟩ := hstep
    rw [hpop] at hplaces
    exact ⟨chain, h.linked, hplaces, h.fresh, fun hne => absurd (hapart.1 hpop) hne, h.push, hhead⟩
  | read first =>
    simp only [hpop, Option.some.injEq] at hstep
    subst hstep
    have hhead : q.head = some first := by simpa [hpop, PopPhase.Current] using h.pop
    rw [hpop] at hplaces
    refine ⟨chain, h.linked, hplaces, h.fresh, fun hne => ?_, h.push, hhead, rfl⟩
    exact fun _ => h.apart hne (by simp [hpop, PopPhase.Updating])
  | fetched first link =>
    simp only [hpop, Option.some.injEq] at hstep
    subst hstep
    exact h.takeHead hpop
  | stored first =>
    simp only [hpop, Option.some.injEq] at hstep
    subst hstep
    exact ⟨chain, h.clearLink hpop⟩
  | cleared first =>
    simp only [hpop, Option.some.injEq] at hstep
    subst hstep
    obtain rfl : ok = true := hapart.2 ⟨first, hpop⟩
    refine ⟨chain, h.linked, ?_, h.fresh, fun _ => id, h.push, trivial⟩
    simp only [hpop, PopPhase.held, List.append_nil, if_true] at hplaces ⊢
    refine List.Perm.trans ?_ hplaces
    rw [List.append_assoc _ [first]]
    exact List.perm_append_comm.append_left _

/-- Every access that meets the condition keeps the invariant. -/
theorem AcceptInv.step {e : AcceptEvent A} (h : AcceptInv chain q) (hapart : ReadsApart q e)
    (hstep : acceptStep q e = some q') : ∃ chain', AcceptInv chain' q' := by
  cases e with
  | request new =>
    obtain ⟨⟨hidle, hnew⟩, hstep⟩ := Option.ite_none_right_eq_some.mp hstep
    obtain rfl := Option.some.inj hstep
    exact ⟨chain, h.request hidle hnew hapart⟩
  | eventThread => exact h.pushStep hstep
  | appThread ok => exact h.popStep hapart hstep

/-- Every request is accepted once, in every state of every run in which neither thread reads the
head within the other's update and every `rdma_accept` succeeds. -/
theorem acceptedOnce_run {events : List (AcceptEvent A)}
    (hapart : Guarded acceptStep ReadsApart (AcceptQueue.empty A) events) :
    Always acceptStep AcceptedOnce (AcceptQueue.empty A) events := by
  have hstart : AcceptInv [] (AcceptQueue.empty A) :=
    ⟨rfl, .refl _, List.nodup_nil, fun hne => absurd rfl hne, trivial, trivial⟩
  apply always_of_guarded (D := fun _ => True) (I := fun q => ∃ chain, AcceptInv chain q) ?_ ?_
    (fun _ _ => trivial) ⟨[], hstart⟩ hapart
  · rintro q ⟨chain, h⟩
    exact h.acceptedOnce
  · rintro q e q' - ⟨chain, h⟩ hc hstep
    exact h.step hc hstep

end Invariant

/-- A request that is pushed and accepted before the next one. -/
theorem acceptedOnce_sample :
    Always acceptStep AcceptedOnce (AcceptQueue.empty ℕ)
      ([.request 0, .eventThread, .eventThread] ++ List.replicate 6 (.appThread true) ++
        [.request 1]) := by
  apply acceptedOnce_run
  simp [Guarded, acceptStep, pushStep, popStep, ReadsApart, AcceptQueue.empty, PopPhase.Updating,
    List.replicate]

/-- A request that is pushed while another one is popped is lost. -/
theorem request_lost :
    ¬∀ events : List (AcceptEvent ℕ),
      Always acceptStep AcceptedOnce (AcceptQueue.empty ℕ) events := by
  intro h
  let events : List (AcceptEvent ℕ) :=
    [.request 0, .eventThread, .eventThread, .appThread true, .appThread true, .appThread true,
      .request 1, .eventThread, .eventThread, .appThread true, .appThread true, .appThread true]
  have hrun : (runEvents acceptStep (AcceptQueue.empty ℕ) events).map
      (fun q => (q.head, q.push, q.pop, q.pushed, q.returned)) =
        some (none, .idle, .waiting, [0, 1], [0]) := by decide
  obtain ⟨q, hq, hobs⟩ := Option.map_eq_some_iff.mp hrun
  simp only [Prod.mk.injEq] at hobs
  obtain ⟨hhead, hpush, hpop, hpushed, hreturned⟩ := hobs
  have hpending := ((h events).of_run hq).pending hpush (by simp [hpop, PopPhase.Outside]) 1
  rw [hpushed, hreturned, hhead] at hpending
  have hreach := hpending.mpr (by decide)
  cases hreach

end HmrRpc
