import Mathlib.Data.List.Basic
import Mathlib.Tactic.Common

/-!
# Runs of an event-driven machine

A machine is a partial step function: `step s e` is the state after the event `e`, or
`none` when `e` cannot be taken in `s`. Nondeterminism lives in the events, so a run is
determined by its events.

`Always` says that a property holds in every state a run passes through, and `Guarded`
that every event taken meets a condition on the state before it. The rules below reduce
statements about whole runs to one step.
-/

namespace HmrRpc.Common

variable {S E : Type*}

/-- The state after a sequence of events, if each of them can be taken. -/
def runEvents (step : S → E → Option S) : S → List E → Option S
  | s, [] => some s
  | s, e :: es => (step s e).bind fun t => runEvents step t es

/-- The property holds at the start and in every state the events pass through. -/
def Always (step : S → E → Option S) (P : S → Prop) : S → List E → Prop
  | s, [] => P s
  | s, e :: es => P s ∧ ∀ t, step s e = some t → Always step P t es

/-- Every event that is taken meets the condition in the state before it. -/
def Guarded (step : S → E → Option S) (C : S → E → Prop) : S → List E → Prop
  | _, [] => True
  | s, e :: es => ∀ t, step s e = some t → C s e ∧ Guarded step C t es

/-- A nonempty run is its first step followed by the remaining run. -/
theorem runEvents_cons_eq_some {step : S → E → Option S} {s t : S} {e : E} {es : List E} :
    runEvents step s (e :: es) = some t ↔
      ∃ u, step s e = some u ∧ runEvents step u es = some t :=
  Option.bind_eq_some_iff

/-- The guard of a run, one step at a time. -/
theorem Guarded.cons {step : S → E → Option S} {C : S → E → Prop} {s t : S} {e : E} {es : List E}
    (hstep : step s e = some t) (hc : C s e) (hrest : Guarded step C t es) :
    Guarded step C s (e :: es) := by
  intro u hu
  obtain rfl := Option.some.inj (hstep.symm.trans hu)
  exact ⟨hc, hrest⟩

/-- So the guard of a run can be computed. -/
instance Guarded.decidable (step : S → E → Option S) (C : S → E → Prop) [∀ s e, Decidable (C s e)] :
    (s : S) → (es : List E) → Decidable (Guarded step C s es)
  | _, [] => isTrue trivial
  | s, e :: es =>
    match hstep : step s e with
    | none => isTrue fun _ ht => nomatch hstep.symm.trans ht
    | some t =>
      haveI := Guarded.decidable step C t es
      decidable_of_iff (C s e ∧ Guarded step C t es)
        ⟨fun h => .cons hstep h.1 h.2, fun h => h t hstep⟩

/-- Two guards of a run guard it together. -/
theorem Guarded.and {step : S → E → Option S} {C C' : S → E → Prop} {s : S} {es : List E}
    (h : Guarded step C s es) (h' : Guarded step C' s es) :
    Guarded step (fun s e => C s e ∧ C' s e) s es := by
  induction es generalizing s with
  | nil => trivial
  | cons e es ih =>
    intro t hstep
    exact ⟨⟨(h t hstep).1, (h' t hstep).1⟩, ih (h t hstep).2 (h' t hstep).2⟩

/-- Events that meet the condition in every state are guarded. -/
theorem Guarded.of_forall {step : S → E → Option S} {C : S → E → Prop} {s : S} {es : List E}
    (h : ∀ e ∈ es, ∀ s, C s e) : Guarded step C s es := by
  induction es generalizing s with
  | nil => trivial
  | cons e es ih =>
    intro t _
    exact ⟨h e (by simp) s, ih fun f hf => h f (by simp [hf])⟩

/-- The guard of a run in two parts. -/
theorem Guarded.append {step : S → E → Option S} {C : S → E → Prop} {s : S} {es fs : List E}
    (hes : Guarded step C s es)
    (hfs : ∀ t, runEvents step s es = some t → Guarded step C t fs) :
    Guarded step C s (es ++ fs) := by
  induction es generalizing s with
  | nil => exact hfs s rfl
  | cons e es ih =>
    intro t ht
    obtain ⟨hc, hrest⟩ := hes t ht
    exact ⟨hc, ih hrest fun u hu => hfs u (runEvents_cons_eq_some.mpr ⟨t, ht, hu⟩)⟩

/-- Runs compose along concatenation of their events. -/
theorem runEvents_append (step : S → E → Option S) (s : S) (es fs : List E) :
    runEvents step s (es ++ fs) = (runEvents step s es).bind fun t => runEvents step t fs := by
  induction es generalizing s with
  | nil => rfl
  | cons e es ih =>
    simp only [List.cons_append, runEvents]
    cases step s e with
    | none => rfl
    | some t => exact ih t

/-- `Always` is the statement about every state that some prefix of the events reaches. -/
theorem always_iff_forall_prefix {step : S → E → Option S} {P : S → Prop} {s : S} {es : List E} :
    Always step P s es ↔ ∀ pre suf t, es = pre ++ suf → runEvents step s pre = some t → P t := by
  induction es generalizing s with
  | nil =>
    constructor
    · intro h pre suf t hsplit hrun
      obtain ⟨rfl, rfl⟩ := List.append_eq_nil_iff.mp hsplit.symm
      exact Option.some.inj hrun ▸ h
    · intro h
      exact h [] [] s rfl rfl
  | cons e es ih =>
    constructor
    · rintro ⟨hs, hrest⟩ pre suf t hsplit hrun
      cases pre with
      | nil => exact Option.some.inj hrun ▸ hs
      | cons e' pre =>
        obtain ⟨rfl, rfl⟩ := List.cons.inj hsplit
        obtain ⟨u, hstep, hrun⟩ := runEvents_cons_eq_some.mp hrun
        exact ih.mp (hrest u hstep) pre suf t rfl hrun
    · intro h
      refine ⟨h [] (e :: es) s rfl rfl, fun u hstep => ih.mpr ?_⟩
      rintro pre suf t rfl hrun
      exact h (e :: pre) suf t rfl (runEvents_cons_eq_some.mpr ⟨u, hstep, hrun⟩)

/-- What holds throughout a run holds at its end. -/
theorem Always.of_run {step : S → E → Option S} {P : S → Prop} {s t : S} {es : List E}
    (h : Always step P s es) (hrun : runEvents step s es = some t) : P t :=
  always_iff_forall_prefix.mp h es [] t es.append_nil.symm hrun

/-- Any two states the run passes through, the earlier one first, are related. -/
def Along (step : S → E → Option S) (R : S → S → Prop) (s : S) (es : List E) : Prop :=
  ∀ pre mid suf t u, es = pre ++ mid ++ suf → runEvents step s pre = some t →
    runEvents step t mid = some u → R t u

/-- A reflexive and transitive relation that each step keeps exactly under a condition holds along
a run exactly if every step meets that condition. -/
theorem along_iff_guarded {step : S → E → Option S} {R : S → S → Prop} {C : S → E → Prop}
    (hrefl : ∀ s, R s s) (htrans : ∀ s t u, R s t → R t u → R s u)
    (hexact : ∀ s e t, step s e = some t → (R s t ↔ C s e)) {s : S} {es : List E} :
    Along step R s es ↔ Guarded step C s es := by
  have hreach {s : S} {es : List E} (h : Guarded step C s es) :
      ∀ pre suf t, es = pre ++ suf → runEvents step s pre = some t →
        R s t ∧ Guarded step C t suf := by
    induction es generalizing s with
    | nil =>
      intro pre suf t hsplit hrun
      obtain ⟨rfl, rfl⟩ := List.append_eq_nil_iff.mp hsplit.symm
      obtain rfl := Option.some.inj hrun
      exact ⟨hrefl s, h⟩
    | cons e es ih =>
      intro pre suf t hsplit hrun
      cases pre with
      | nil =>
        obtain rfl := Option.some.inj hrun
        obtain rfl : e :: es = suf := hsplit
        exact ⟨hrefl s, h⟩
      | cons e' pre =>
        obtain ⟨rfl, rfl⟩ := List.cons.inj hsplit
        obtain ⟨u, hstep, hrun⟩ := runEvents_cons_eq_some.mp hrun
        obtain ⟨hc, hrest⟩ := h u hstep
        obtain ⟨hrel, hguard⟩ := ih hrest pre suf t rfl hrun
        exact ⟨htrans s u t ((hexact s e u hstep).mpr hc) hrel, hguard⟩
  constructor
  · intro h
    induction es generalizing s with
    | nil => trivial
    | cons e es ih =>
      intro t hstep
      have hone : runEvents step s [e] = some t := by simp [runEvents, hstep]
      refine ⟨(hexact s e t hstep).mp (h [] [e] es s t rfl rfl hone), ih ?_⟩
      rintro pre mid suf u v rfl hpre hmid
      exact h (e :: pre) mid suf u v (by simp) (runEvents_cons_eq_some.mpr ⟨t, hstep, hpre⟩) hmid
  · intro h pre mid suf t u hsplit hpre hmid
    obtain ⟨-, hguard⟩ := hreach h pre (mid ++ suf) t (by rw [hsplit, List.append_assoc]) hpre
    exact (hreach hguard mid suf u rfl hmid).1

section Rules

variable {step : S → E → Option S} {D : E → Prop} {C : S → E → Prop} {I P : S → Prop}

/-- An invariant of every step gives the property all along a run. -/
theorem always_of_invariant (hP : ∀ s, I s → P s)
    (hstep : ∀ s e t, D e → I s → step s e = some t → I t)
    {s : S} {es : List E} (hD : ∀ e ∈ es, D e) (hs : I s) : Always step P s es := by
  induction es generalizing s with
  | nil => exact hP s hs
  | cons e es ih =>
    refine ⟨hP s hs, fun t ht => ?_⟩
    exact ih (fun f hf => hD f (by simp [hf])) (hstep s e t (hD e (by simp)) hs ht)

/-- An invariant of the steps that meet the condition gives the property all along a guarded run. -/
theorem always_of_guarded (hP : ∀ s, I s → P s)
    (hstep : ∀ s e t, D e → I s → C s e → step s e = some t → I t)
    {s : S} {es : List E} (hD : ∀ e ∈ es, D e) (hs : I s) (hg : Guarded step C s es) :
    Always step P s es := by
  induction es generalizing s with
  | nil => exact hP s hs
  | cons e es ih =>
    refine ⟨hP s hs, fun t ht => ?_⟩
    obtain ⟨hc, hg'⟩ := hg t ht
    exact ih (fun f hf => hD f (by simp [hf])) (hstep s e t (hD e (by simp)) hs hc ht) hg'

/-- If missing the condition leads into states that are never left, a run that ends outside them
met the condition throughout. -/
theorem guarded_of_trap {J : S → Prop} (hstep : ∀ s e t, D e → I s → C s e → step s e = some t → I t)
    (hmiss : ∀ s e t, D e → I s → ¬C s e → step s e = some t → J t)
    (htrap : ∀ s e t, D e → J s → step s e = some t → J t)
    {s t : S} {es : List E} (hD : ∀ e ∈ es, D e) (hs : I s) (hrun : runEvents step s es = some t)
    (ht : ¬J t) : Guarded step C s es := by
  induction es generalizing s with
  | nil => trivial
  | cons e es ih =>
    obtain ⟨u, hu, hrest⟩ := runEvents_cons_eq_some.mp hrun
    have hDe : D e := hD e (by simp)
    have hDes : ∀ f ∈ es, D f := fun f hf => hD f (by simp [hf])
    by_cases hc : C s e
    · exact .cons hu hc (ih hDes (hstep s e u hDe hs hc hu) hrest)
    · have hJ : Always step J u es :=
        always_of_invariant (fun _ h => h) htrap hDes (hmiss s e u hDe hs hc hu)
      exact absurd (hJ.of_run hrest) ht

/-- The condition is exact in the runs that keep an assumption: if moreover a step that misses it
loses the property, then such a run keeps the property exactly when all its steps meet it. -/
theorem always_iff_guarded_within {G : S → E → Prop} (hP : ∀ s, I s → P s)
    (hstep : ∀ s e t, D e → I s → G s e → C s e → step s e = some t → I t)
    (hexact : ∀ s e t, D e → I s → G s e → step s e = some t → P t → C s e)
    {s : S} {es : List E} (hD : ∀ e ∈ es, D e) (hs : I s) (hG : Guarded step G s es) :
    Always step P s es ↔ Guarded step C s es := by
  induction es generalizing s with
  | nil => exact iff_of_true (hP s hs) trivial
  | cons e es ih =>
    have hDe : D e := hD e (by simp)
    have hDes : ∀ f ∈ es, D f := fun f hf => hD f (by simp [hf])
    constructor
    · rintro ⟨-, hrest⟩ t ht
      obtain ⟨hg, hG'⟩ := hG t ht
      have hPt : P t := by
        cases es with
        | nil => exact hrest t ht
        | cons f es => exact (hrest t ht).1
      have hc : C s e := hexact s e t hDe hs hg ht hPt
      exact ⟨hc, (ih hDes (hstep s e t hDe hs hg hc ht) hG').mp (hrest t ht)⟩
    · intro hguard
      refine ⟨hP s hs, fun t ht => ?_⟩
      obtain ⟨hg, hG'⟩ := hG t ht
      obtain ⟨hc, hrest⟩ := hguard t ht
      exact (ih hDes (hstep s e t hDe hs hg hc ht) hG').mpr hrest

/-- Without an assumption, the condition is exact in every run. -/
theorem always_iff_guarded (hP : ∀ s, I s → P s)
    (hstep : ∀ s e t, D e → I s → C s e → step s e = some t → I t)
    (hexact : ∀ s e t, D e → I s → step s e = some t → P t → C s e)
    {s : S} {es : List E} (hD : ∀ e ∈ es, D e) (hs : I s) :
    Always step P s es ↔ Guarded step C s es :=
  always_iff_guarded_within (G := fun _ _ => True) hP
    (fun s e t hDe hIs _ => hstep s e t hDe hIs)
    (fun s e t hDe hIs _ => hexact s e t hDe hIs) hD hs (.of_forall fun _ _ _ => trivial)

/-- In the states of an invariant one condition may imply another. -/
theorem Guarded.of_invariant {C' : S → E → Prop}
    (hstep : ∀ s e t, I s → C s e → step s e = some t → I t ∧ C' s e) {s : S} {es : List E} (hs : I s)
    (h : Guarded step C s es) : Guarded step C' s es := by
  induction es generalizing s with
  | nil => trivial
  | cons e es ih =>
    intro t ht
    obtain ⟨hc, hrest⟩ := h t ht
    obtain ⟨hinv, hc'⟩ := hstep s e t hs hc ht
    exact ⟨hc', ih hinv hrest⟩

end Rules

end HmrRpc.Common
