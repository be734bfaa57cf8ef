import HmrRpc.Common.Run

/-!
# Two machines in lockstep

A machine tracks another if behind every prefix of the events either both are stuck, or both
have come through with related states. The rule below asks for one step at a time, and is
exact: where a step that misses a condition loses the relation, the machines stay together in
just those runs whose steps all meet it.
-/

namespace HmrRpc.Common

variable {S T E : Type*}

/-- Behind every prefix of the events both machines are stuck, or in related states. -/
def Tracks (stepS : S → E → Option S) (stepT : T → E → Option T) (R : S → T → Prop) (s : S) (t : T)
    (es : List E) : Prop :=
  ∀ pre, pre <+: es → Option.Rel R (runEvents stepS s pre) (runEvents stepT t pre)

section Rules

variable {stepS : S → E → Option S} {stepT : T → E → Option T} {R : S → T → Prop} {s s' : S}
  {t t' : T} {e : E} {es : List E}

/-- Related results of a step that is taken are states. -/
theorem rel_some_right (h : Option.Rel R (stepS s e) (stepT t e)) (hstep : stepT t e = some t') :
    ∃ s', stepS s e = some s' ∧ R s' t' := by
  rw [hstep] at h
  cases hs : stepS s e with
  | none =>
    rw [hs] at h
    nomatch h
  | some s' =>
    rw [hs] at h
    cases h with
    | some hrel => exact ⟨s', rfl, hrel⟩

/-- The states before the events are related. -/
theorem Tracks.start (h : Tracks stepS stepT R s t es) : R s t := by
  cases h [] List.nil_prefix with
  | some hrel => exact hrel

/-- Tracking goes on behind the first event. -/
theorem tracks_cons (hs : stepS s e = some s') (ht : stepT t e = some t') :
    Tracks stepS stepT R s t (e :: es) ↔ R s t ∧ Tracks stepS stepT R s' t' es := by
  constructor
  · intro h
    refine ⟨h.start, fun pre hpre => ?_⟩
    simpa [runEvents, hs, ht] using h (e :: pre) (List.cons_prefix_cons.mpr ⟨rfl, hpre⟩)
  · rintro ⟨hrel, hrest⟩ pre hpre
    cases pre with
    | nil => exact .some hrel
    | cons f pre =>
      obtain ⟨rfl, hsuf⟩ := List.cons_prefix_cons.mp hpre
      simpa [runEvents, hs, ht] using hrest pre hsuf

/-- An event that neither machine takes ends both. -/
theorem tracks_stuck (hrel : R s t) (hs : stepS s e = none) (ht : stepT t e = none) :
    Tracks stepS stepT R s t (e :: es) := by
  intro pre hpre
  cases pre with
  | nil => exact .some hrel
  | cons f pre =>
    obtain ⟨rfl, -⟩ := List.cons_prefix_cons.mp hpre
    simp [runEvents, hs, ht]

/-- If in the states of an invariant a step keeps the machines together exactly if it meets the
condition, then they stay together through the runs whose steps all do. -/
theorem tracks_iff_guarded {I : T → Prop} {C : T → E → Prop}
    (hinv : ∀ t e t', I t → stepT t e = some t' → I t')
    (hstuck : ∀ s t e, I t → R s t → stepT t e = none → stepS s e = none)
    (hstep : ∀ s t e t', I t → R s t → stepT t e = some t' →
      ((∃ s', stepS s e = some s' ∧ R s' t') ↔ C t e)) (ht : I t) (hrel : R s t) :
    Tracks stepS stepT R s t es ↔ Guarded stepT C t es := by
  induction es generalizing s t with
  | nil =>
    refine iff_of_true (fun pre hpre => ?_) trivial
    obtain rfl := List.prefix_nil.mp hpre
    exact .some hrel
  | cons e es ih =>
    cases hnext : stepT t e with
    | none =>
      refine iff_of_true (tracks_stuck hrel (hstuck s t e ht hrel hnext) hnext) fun u hu => ?_
      simp [hnext] at hu
    | some t' =>
      constructor
      · intro h u hu
        obtain rfl := Option.some.inj (hnext.symm.trans hu)
        have hone := h [e] (List.cons_prefix_cons.mpr ⟨rfl, List.nil_prefix⟩)
        simp only [runEvents, Option.bind_fun_some] at hone
        obtain ⟨s', hs', hrel'⟩ := rel_some_right hone hnext
        have hrest := ((tracks_cons hs' hnext).mp h).2
        exact ⟨(hstep s t e t' ht hrel hnext).mp ⟨s', hs', hrel'⟩,
          (ih (hinv t e t' ht hnext) hrel').mp hrest⟩
      · intro h
        obtain ⟨hc, hrest⟩ := h t' hnext
        obtain ⟨s', hs', hrel'⟩ := (hstep s t e t' ht hrel hnext).mpr hc
        exact (tracks_cons hs' hnext).mpr ⟨hrel, (ih (hinv t e t' ht hnext) hrel').mpr hrest⟩

end Rules

end HmrRpc.Common
