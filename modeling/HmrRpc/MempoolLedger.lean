import HmrRpc.Common.PinnedHeap
import HmrRpc.Common.Run
import HmrRpc.TransportRun

/-!
# What pools hold (`hmr_mem.c`)

A pool holds a struct, a block with its three regions, and a registration of each region.
`hmr_mempool_create` takes them one by one and goes back through its labels when a call
fails; `hmr_mempool_release` gives back the registrations and the block. Two things go
wrong: the label behind the third registration names the registration that failed instead
of the second, and the struct is never freed.
-/

namespace HmrRpc

open Common

/-- What a created pool points to. -/
structure PoolHandles where
  self : ℕ
  sendRegion : ℕ
  sendMr : Pin
  recvMr : Pin
  rdmaMr : Pin
  onRegion : sendMr.block = sendRegion ∧ recvMr.block = sendRegion ∧ rdmaMr.block = sendRegion

/-- The blocks of a pool: the struct, and the regions, which are one block. -/
def PoolHandles.blocks (p : PoolHandles) : Multiset ℕ := {p.sendRegion, p.self}

/-- Its registrations. -/
def PoolHandles.pins (p : PoolHandles) : Multiset Pin := {p.sendMr, p.recvMr, p.rdmaMr}

/-- The regions and the struct, put in front of other blocks. -/
theorem PoolHandles.blocks_add (p : PoolHandles) (live : Multiset ℕ) :
    p.blocks + live = p.sendRegion ::ₘ p.self ::ₘ live := by
  simp [blocks]

/-- The registrations, put in front of others. -/
theorem PoolHandles.pins_add (p : PoolHandles) (registered : Multiset Pin) :
    p.pins + registered = p.sendMr ::ₘ p.recvMr ::ₘ p.rdmaMr ::ₘ registered := by
  simp [pins]

/-- From the label `cleanmempool` on. -/
def cleanmempool (self : ℕ) (h : PinnedHeap) : PinnedHeap := h.free self

/-- From the label `cleansendregion` on. -/
def cleansendregion (self sendRegion : ℕ) (h : PinnedHeap) : PinnedHeap :=
  cleanmempool self (h.free sendRegion)

/-- From the label `cleansendmr` on. -/
def cleansendmr (self sendRegion : ℕ) (sendMr : Option Pin) (h : PinnedHeap) : PinnedHeap :=
  cleansendregion self sendRegion (h.deregister sendMr)

/-- From the label `cleanrecvmr` on, which passes `rdma_mr` to `ibv_dereg_mr`. -/
def cleanrecvmr (self sendRegion : ℕ) (sendMr rdmaMr : Option Pin) (h : PinnedHeap) : PinnedHeap :=
  cleansendmr self sendRegion sendMr (h.deregister rdmaMr)

/-- `hmr_mempool_create` as the heap and the HCA see it. -/
def heapMempoolCreate (o : MempoolOutcomes) (h : PinnedHeap) : Option PoolHandles × PinnedHeap :=
  if !o.callocOk then (none, h)
  else
    let self := h.alloc
    if o.malloc.isNone then (none, cleanmempool self.1 self.2)
    else
      let region := self.2.alloc
      if o.sendMr.isNone then (none, cleansendregion self.1 region.1 region.2)
      else
        let sendMr := region.2.register region.1
        if o.recvMr.isNone then (none, cleansendmr self.1 region.1 (some sendMr.1) sendMr.2)
        else
          let recvMr := sendMr.2.register region.1
          if o.rdmaMr.isNone then
            (none, cleanrecvmr self.1 region.1 (some sendMr.1) none recvMr.2)
          else
            let rdmaMr := recvMr.2.register region.1
            (some ⟨self.1, region.1, sendMr.1, recvMr.1, rdmaMr.1, rfl, rfl, rfl⟩, rdmaMr.2)

/-- `hmr_mempool_release` as the heap and the HCA see it. -/
def heapMempoolRelease (pool : Option PoolHandles) (h : PinnedHeap) : PinnedHeap :=
  match pool with
  | none => h
  | some p =>
    (((h.deregister (some p.sendMr)).deregister (some p.recvMr)).deregister (some p.rdmaMr)).free
      p.sendRegion

/-- The heap, the pools created and not released, and those released. -/
structure MempoolState where
  heap : PinnedHeap
  pools : List PoolHandles
  released : List PoolHandles

/-- A call of `hmr_mempool_create`, of `hmr_mempool_release` for the `i`-th pool not yet released,
or of `hmr_mempool_release` for `NULL`. -/
inductive MempoolEvent
  | create (o : MempoolOutcomes)
  | release (i : ℕ)
  | releaseNull

/-- One call. -/
def mempoolStep (s : MempoolState) : MempoolEvent → Option MempoolState
  | .create o =>
    let call := heapMempoolCreate o s.heap
    some { s with heap := call.2, pools := call.1.toList ++ s.pools }
  | .release i =>
    s.pools[i]?.map fun p =>
      ⟨heapMempoolRelease (some p) s.heap, s.pools.eraseIdx i, p :: s.released⟩
  | .releaseNull => some { s with heap := heapMempoolRelease none s.heap }

/-- No pool yet. -/
def noMempools : MempoolState := ⟨.empty, [], []⟩

/-- The blocks of some pools. -/
def blocksOf (pools : List PoolHandles) : Multiset ℕ :=
  (pools : Multiset PoolHandles).bind PoolHandles.blocks

/-- The registrations of some pools. -/
def pinsOf (pools : List PoolHandles) : Multiset Pin :=
  (pools : Multiset PoolHandles).bind PoolHandles.pins

/-- Every registration removed was there, no block was freed under one, and the blocks and
registrations are exactly those of the pools not yet released. -/
structure AllOrNothing (s : MempoolState) : Prop where
  faults : s.heap.faults = []
  blocks : s.heap.blocks = blocksOf s.pools
  pins : s.heap.pins = pinsOf s.pools

/-- The third registration is the one that fails. -/
def ThirdFails (o : MempoolOutcomes) : Prop :=
  o.callocOk ∧ o.malloc.isSome ∧ o.sendMr.isSome ∧ o.recvMr.isSome ∧ o.rdmaMr.isNone

instance (o : MempoolOutcomes) : Decidable (ThirdFails o) :=
  inferInstanceAs (Decidable (_ ∧ _ ∧ _ ∧ _ ∧ _))

/-- The call neither fails at the third registration nor releases a pool. -/
def KeepsExact (_ : MempoolState) : MempoolEvent → Prop
  | .create o => ¬ThirdFails o
  | .release _ => False
  | .releaseNull => True

instance (s : MempoolState) : (e : MempoolEvent) → Decidable (KeepsExact s e)
  | .create o => inferInstanceAs (Decidable ¬ThirdFails o)
  | .release _ => inferInstanceAs (Decidable False)
  | .releaseNull => inferInstanceAs (Decidable True)

/-- What remains allocated: everything of the pools not yet released, and the structs of the
others. -/
def MempoolState.Accounted (s : MempoolState) : Prop :=
  s.heap.Holds (blocksOf s.pools + (s.released.map PoolHandles.self : List ℕ)) (pinsOf s.pools)

section Pools

@[simp] theorem blocksOf_nil : blocksOf [] = 0 := rfl

@[simp] theorem pinsOf_nil : pinsOf [] = 0 := rfl

@[simp] theorem blocksOf_cons (p : PoolHandles) (pools : List PoolHandles) :
    blocksOf (p :: pools) = p.blocks + blocksOf pools := by
  rw [blocksOf, ← Multiset.cons_coe, Multiset.cons_bind, blocksOf]

@[simp] theorem pinsOf_cons (p : PoolHandles) (pools : List PoolHandles) :
    pinsOf (p :: pools) = p.pins + pinsOf pools := by
  rw [pinsOf, ← Multiset.cons_coe, Multiset.cons_bind, pinsOf]

/-- A pool can be taken out of the list first. -/
theorem pools_eraseIdx {pools : List PoolHandles} {i : ℕ} {p : PoolHandles}
    (h : pools[i]? = some p) :
    blocksOf pools = p.blocks + blocksOf (pools.eraseIdx i) ∧
      pinsOf pools = p.pins + pinsOf (pools.eraseIdx i) := by
  obtain ⟨hi, rfl⟩ := List.getElem?_eq_some_iff.mp h
  have hperm : (pools : Multiset PoolHandles) = (pools[i] :: pools.eraseIdx i : List PoolHandles) :=
    Multiset.coe_eq_coe.mpr (List.getElem_cons_eraseIdx_perm hi).symm
  rw [← blocksOf_cons, ← pinsOf_cons, blocksOf, pinsOf, hperm]
  exact ⟨rfl, rfl⟩

/-- The registrations of some pools are over their regions. -/
theorem pinsOf_over {pools : List PoolHandles} {pin : Pin} (h : pin ∈ pinsOf pools) :
    pin.block ∈ blocksOf pools := by
  obtain ⟨p, hp, hpin⟩ := Multiset.mem_bind.mp h
  refine Multiset.mem_bind.mpr ⟨p, hp, ?_⟩
  obtain ⟨hsend, hrecv, hrdma⟩ := p.onRegion
  simp only [PoolHandles.pins, Multiset.insert_eq_cons, Multiset.mem_cons,
    Multiset.mem_singleton] at hpin
  rcases hpin with rfl | rfl | rfl
  · simp [PoolHandles.blocks, hsend]
  · simp [PoolHandles.blocks, hrecv]
  · simp [PoolHandles.blocks, hrdma]

end Pools

section Calls

variable {o : MempoolOutcomes} {h : PinnedHeap} {live : Multiset ℕ} {registered : Multiset Pin}

/-- Behind the label `cleanrecvmr`, reached without an MR, there has been a fault. -/
theorem faults_cleanrecvmr (self sendRegion : ℕ) (sendMr : Option Pin) (h : PinnedHeap) :
    (cleanrecvmr self sendRegion sendMr none h).faults ≠ [] := by
  have hremain := ((PinnedHeap.faults_deregister (h.deregister none) sendMr).trans
    (PinnedHeap.faults_free _ sendRegion)).trans (PinnedHeap.faults_free _ self)
  intro hnil
  rw [cleanrecvmr, cleansendmr, cleansendregion, cleanmempool] at hnil
  rw [hnil, List.prefix_nil] at hremain
  exact absurd hremain (by simp [PinnedHeap.deregister])

/-- A pool is returned exactly if the transport gets one. -/
theorem heapMempoolCreate_isSome (o : MempoolOutcomes) (h : PinnedHeap) :
    (heapMempoolCreate o h).1.isSome = (hmrMempoolCreate o).isSome := by
  obtain ⟨callocOk, malloc, sendMr, recvMr, rdmaMr⟩ := o
  cases callocOk <;> cases malloc <;> cases sendMr <;> cases recvMr <;> cases rdmaMr <;> rfl

/-- Unless the third registration fails, the heap gains what the pool holds, or nothing. -/
theorem heapMempoolCreate_holds (hh : h.Holds live registered) (hthird : ¬ThirdFails o) :
    (heapMempoolCreate o h).2.Holds (blocksOf (heapMempoolCreate o h).1.toList + live)
      (pinsOf (heapMempoolCreate o h).1.toList + registered) := by
  have hself := hh.alloc
  have hregion := hself.alloc
  have hmem : h.alloc.2.alloc.1 ∈ h.alloc.2.alloc.1 ::ₘ h.alloc.1 ::ₘ live :=
    Multiset.mem_cons_self _ _
  have hsend := hregion.register hmem
  have hrdma := (hsend.register hmem).register hmem
  have hcleanmempool : (cleanmempool h.alloc.1 h.alloc.2).Holds live registered :=
    hself.free hh.block_ne_alloc
  have hcleansendregion :
      (cleansendregion h.alloc.1 h.alloc.2.alloc.1 h.alloc.2.alloc.2).Holds live registered :=
    (hregion.free hself.block_ne_alloc).free hh.block_ne_alloc
  have hcleansendmr : (cleansendmr h.alloc.1 h.alloc.2.alloc.1
      (some (h.alloc.2.alloc.2.register h.alloc.2.alloc.1).1)
      (h.alloc.2.alloc.2.register h.alloc.2.alloc.1).2).Holds live registered :=
    (hsend.deregister.free hself.block_ne_alloc).free hh.block_ne_alloc
  unfold heapMempoolCreate
  dsimp only
  split_ifs with hcalloc hmalloc hsendMr hrecvMr hrdmaMr
  · simpa using hh
  · simpa using hcleanmempool
  · simpa using hcleansendregion
  · simpa using hcleansendmr
  · simp only [ThirdFails, Option.isSome_iff_ne_none] at hthird
    simp_all
  · have hreverse (a b c : Pin) :
        a ::ₘ b ::ₘ c ::ₘ registered = c ::ₘ b ::ₘ a ::ₘ registered := by
      rw [Multiset.cons_swap a b, Multiset.cons_swap a c, Multiset.cons_swap b c]
    rw [hreverse] at hrdma
    simpa [PoolHandles.blocks_add, PoolHandles.pins_add] using hrdma

/-- If it does, the heap is misused. -/
theorem heapMempoolCreate_faults (h : PinnedHeap) (hthird : ThirdFails o) :
    (heapMempoolCreate o h).2.faults ≠ [] := by
  obtain ⟨hcalloc, hmalloc, hsendMr, hrecvMr, hrdmaMr⟩ := hthird
  have hsome {A : Type} {x : Option A} (hx : x.isSome) : ¬x.isNone := by
    obtain ⟨a, rfl⟩ := Option.isSome_iff_exists.mp hx
    exact Bool.false_ne_true
  unfold heapMempoolCreate
  dsimp only
  rw [if_neg (by simp [hcalloc]), if_neg (hsome hmalloc), if_neg (hsome hsendMr),
    if_neg (hsome hrecvMr), if_pos hrdmaMr]
  exact faults_cleanrecvmr _ _ _ _

/-- A release takes the registrations and the regions of its pool, and leaves the struct. -/
theorem heapMempoolRelease_holds {p : PoolHandles}
    (hh : h.Holds (p.blocks + live) (p.pins + registered))
    (hover : ∀ pin ∈ registered, pin.block ∈ live) :
    (heapMempoolRelease (some p) h).Holds (p.self ::ₘ live) registered := by
  rw [p.blocks_add, p.pins_add] at hh
  have hregion := (Multiset.nodup_cons.mp hh.nodup).1
  refine hh.deregister.deregister.deregister.free fun pin hpin heq => hregion ?_
  rw [← heq]
  exact Multiset.mem_cons_of_mem (hover pin hpin)

end Calls

section Steps

variable {s t : MempoolState} {e : MempoolEvent}

/-- A call whose third registration does not fail keeps the account. -/
theorem accounted_step (hs : s.Accounted) (hthird : ∀ o, e = .create o → ¬ThirdFails o)
    (hstep : mempoolStep s e = some t) : t.Accounted := by
  cases e with
  | create o =>
    obtain rfl := Option.some.inj hstep
    have hcreate := heapMempoolCreate_holds hs (hthird o rfl)
    cases hpool : (heapMempoolCreate o s.heap).1 with
    | none => simpa [MempoolState.Accounted, hpool] using hcreate
    | some p => simpa [MempoolState.Accounted, hpool, add_assoc] using hcreate
  | release i =>
    obtain ⟨p, hp, rfl⟩ := Option.map_eq_some_iff.mp hstep
    obtain ⟨hblocks, hpins⟩ := pools_eraseIdx hp
    rw [MempoolState.Accounted, hblocks, hpins, add_assoc] at hs
    have hrelease := heapMempoolRelease_holds hs fun pin hpin =>
      Multiset.mem_add.mpr (.inl (pinsOf_over hpin))
    simpa [MempoolState.Accounted, ← Multiset.cons_coe, Multiset.add_cons] using hrelease
  | releaseNull =>
    obtain rfl := Option.some.inj hstep
    exact hs

/-- An account without released pools is exact. -/
theorem MempoolState.Accounted.allOrNothing (hs : s.Accounted) (hreleased : s.released = []) :
    AllOrNothing s where
  faults := hs.faults
  blocks := by simpa [hreleased] using hs.blocks
  pins := hs.pins

/-- An exact account has no released pools. -/
theorem MempoolState.Accounted.released_eq_nil (hs : s.Accounted) (hexact : AllOrNothing s) :
    s.released = [] := by
  have hblocks := hs.blocks
  rw [hexact.blocks, left_eq_add, Multiset.coe_eq_zero, List.map_eq_nil_iff] at hblocks
  exact hblocks

/-- Before the first pool nothing is held. -/
theorem noMempools_accounted : noMempools.Accounted := by
  simpa [MempoolState.Accounted, noMempools] using PinnedHeap.empty_holds

end Steps

/-- In every sequence of calls in which no third registration fails, what is allocated is what the
pools not yet released hold, and a struct for each released one. -/
theorem accounted_run {events : List MempoolEvent}
    (hthird : ∀ o, .create o ∈ events → ¬ThirdFails o) :
    Always mempoolStep MempoolState.Accounted noMempools events :=
  always_of_invariant (D := fun e => ∀ o, e = .create o → ¬ThirdFails o) (fun _ hs => hs)
    (fun _ _ _ he hs hstep => accounted_step hs he hstep)
    (fun _ he o ho => hthird o (ho ▸ he)) noMempools_accounted

/-- Creation is all or nothing, along with release, exactly in the sequences of calls in which no
third registration fails and no pool is released. -/
theorem allOrNothing_iff (events : List MempoolEvent) :
    Always mempoolStep AllOrNothing noMempools events ↔
      Guarded mempoolStep KeepsExact noMempools events := by
  refine always_iff_guarded (D := fun _ => True) (I := fun s => s.Accounted ∧ s.released = [])
    (fun s hs => hs.1.allOrNothing hs.2) ?_ ?_ (fun _ _ => trivial)
    ⟨noMempools_accounted, rfl⟩
  · rintro s e t - ⟨hs, hreleased⟩ hkeeps hstep
    refine ⟨accounted_step hs (fun o ho => by subst ho; exact hkeeps) hstep, ?_⟩
    cases e with
    | create o =>
      obtain rfl := Option.some.inj hstep
      exact hreleased
    | release i => exact hkeeps.elim
    | releaseNull =>
      obtain rfl := Option.some.inj hstep
      exact hreleased
  · rintro s e t - ⟨hs, -⟩ hstep hexact
    cases e with
    | create o =>
      intro hthird
      obtain rfl := Option.some.inj hstep
      exact heapMempoolCreate_faults s.heap hthird hexact.faults
    | release i =>
      have ht := accounted_step hs (fun o ho => by contradiction) hstep
      obtain ⟨p, -, rfl⟩ := Option.map_eq_some_iff.mp hstep
      exact absurd (ht.released_eq_nil hexact) (List.cons_ne_nil _ _)
    | releaseNull => trivial

/-- A pool, a release of `NULL`, and a creation that fails at its second call. -/
example : Guarded mempoolStep KeepsExact noMempools
    [.create sampleMempoolOutcomes, .releaseNull, .create ⟨true, none, none, none, none⟩] := by
  decide

/-- When the third registration fails, `ibv_dereg_mr` is called with `NULL`. -/
theorem thirdRegistration_deregistersNull :
    ¬∀ events, Always mempoolStep AllOrNothing noMempools events := by
  intro h
  have hguard := (h [.create { sampleMempoolOutcomes with rdmaMr := none }]).2 _ rfl
  exact absurd hguard.faults (by decide)

end HmrRpc
