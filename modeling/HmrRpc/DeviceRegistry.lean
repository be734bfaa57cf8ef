import HmrRpc.Devices

/-!
# What the registry of devices finds

The array of `rdma_get_devices` becomes the list of the devices that `hmr_rdma_dev_init` could
make, and a lookup is the search of that list. Both lose sight of failures:
`ibv_query_device` reports one by a positive number, which is taken for success, and
`rdma_num_devices` counts the contexts rather than the devices made for them.
-/

namespace HmrRpc

open Common

/-- The devices on the list, which is well formed, are all that is in memory, and come before the
next one. -/
structure DeviceState.Holds {Attr : Type} (d : DeviceState Attr) (devs : List ℕ) : Prop where
  list : d.heads.Circular .devList (devs.map .entry)
  live : ∀ node, d.heads.live node → node ∈ .devList :: devs.map .entry
  fresh : ∀ dev ∈ devs, dev < d.nextDev

section Registry

variable {Attr : Type}

/-- `hmr_rdma_dev_init` makes a device of the context. -/
def DevOutcomes.Usable (o : DevOutcomes Attr) : Prop :=
  o.calloc ∧ 0 ≤ o.queryDevice ∧ o.allocPd.isSome

instance (o : DevOutcomes Attr) : Decidable o.Usable := inferInstanceAs (Decidable (_ ∧ _ ∧ _))

/-- The device it makes. -/
def CtxEntry.device? (ctx : CtxEntry Attr) : Option (HmrDevice Attr) :=
  ctx.verbs.bind fun verbs =>
    if ctx.outcomes.Usable then some ⟨some verbs, ctx.outcomes.allocPd, ctx.outcomes.queried⟩
    else none

/-- The steps of `hmr_rdma_dev_init` succeed for a context that is there. -/
def CtxEntry.Succeeds (ctx : CtxEntry Attr) : Prop :=
  ctx.verbs.isSome ∧ ctx.outcomes.calloc ∧ ctx.outcomes.queryDevice = 0 ∧
    ctx.outcomes.allocPd.isSome

instance (ctx : CtxEntry Attr) : Decidable ctx.Succeeds :=
  inferInstanceAs (Decidable (_ ∧ _ ∧ _ ∧ _))

/-- A context whose steps succeed gets its device, with the attributes reported for it. -/
theorem CtxEntry.Succeeds.device? {ctx : CtxEntry Attr} (h : ctx.Succeeds) :
    ctx.device? = some ⟨ctx.verbs, ctx.outcomes.allocPd, some ctx.outcomes.deviceAttr⟩ := by
  obtain ⟨hverbs, hcalloc, hquery, hpd⟩ := h
  obtain ⟨verbs, hverbs⟩ := Option.isSome_iff_exists.mp hverbs
  have husable : ctx.outcomes.Usable := ⟨hcalloc, Int.le_of_eq hquery.symm, hpd⟩
  simp [CtxEntry.device?, hverbs, husable, DevOutcomes.queried, hquery]

/-- Every device is one of its context. -/
theorem CtxEntry.device?_verbs {ctx : CtxEntry Attr} {device : HmrDevice Attr}
    (h : ctx.device? = some device) : device.verbs = ctx.verbs ∧ ctx.verbs.isSome := by
  obtain ⟨verbs, hverbs, hdevice⟩ := Option.bind_eq_some_iff.mp h
  obtain ⟨-, hdevice⟩ := Option.ite_none_right_eq_some.mp hdevice
  obtain rfl := Option.some.inj hdevice
  simp [hverbs]

/-- There are as many devices as contexts exactly if each context got one. -/
theorem length_devices_iff (ctxs : List (CtxEntry Attr)) :
    ((ctxs.filterMap CtxEntry.device?).length : ℤ) =
        ctxs.length - ctxs.countP (fun ctx => ctx.verbs = none) ↔
      ∀ ctx ∈ ctxs, ctx.verbs.isSome → ctx.device?.isSome := by
  have hsplit := List.length_eq_countP_add_countP (l := ctxs) fun ctx => decide (ctx.verbs = none)
  have hmade : (ctxs.filterMap CtxEntry.device?).length =
      (ctxs.filter fun ctx => ¬ctx.verbs = none).countP fun ctx => ctx.device?.isSome := by
    rw [List.length_filterMap_eq_countP, List.countP_filter]
    refine List.countP_congr fun ctx _ => ?_
    cases hdevice : ctx.device? with
    | none => simp
    | some device => simpa using Option.isSome_iff_ne_none.mp (CtxEntry.device?_verbs hdevice).2
  have hcontexts : (ctxs.filter fun ctx => ¬ctx.verbs = none).length +
      ctxs.countP (fun ctx => ctx.verbs = none) = ctxs.length := by
    rw [← List.countP_eq_length_filter]
    simp only [decide_eq_true_eq] at hsplit
    omega
  calc
    _ ↔ (ctxs.filterMap CtxEntry.device?).length =
        (ctxs.filter fun ctx => ¬ctx.verbs = none).length := by omega
    _ ↔ ∀ ctx ∈ ctxs.filter fun ctx => ¬ctx.verbs = none, ctx.device?.isSome := by
      rw [hmade, List.countP_eq_length]
    _ ↔ _ := by simp [Option.isSome_iff_ne_none]

end Registry

section Init

variable {Attr : Type} {d d' : DeviceState Attr} {devs : List ℕ}

/-- The state with a new device of a context. -/
def DeviceState.made (d : DeviceState Attr) (verbs : ℕ) (o : DevOutcomes Attr) :
    DeviceState Attr :=
  { d with
    heads := (d.heads.alloc (.entry d.nextDev)).link (.entry d.nextDev) (.entry d.nextDev)
    device := Function.update d.device d.nextDev ⟨some verbs, o.allocPd, o.queried⟩
    nextDev := d.nextDev + 1 }

/-- The state behind a device that was freed again. -/
def DeviceState.discarded (d : DeviceState Attr) (o : DevOutcomes Attr) : DeviceState Attr :=
  { d with
    heads := (d.heads.alloc (.entry d.nextDev)).free (.entry d.nextDev)
    device := Function.update d.device d.nextDev ⟨none, none, o.queried⟩
    nextDev := d.nextDev + 1
    calls := d.calls ++ [.free d.nextDev] }

/-- `hmr_rdma_dev_init` makes a device unless a step fails, and tells failures by negative numbers. -/
theorem hmrRdmaDevInit_eq (verbs : ℕ) (o : DevOutcomes Attr) (d : DeviceState Attr) :
    hmrRdmaDevInit verbs o d = some (
      if o.Usable then (some d.nextDev, d.made verbs o)
      else (none, if o.calloc then d.discarded o else d)) := by
  have hlive : (d.heads.alloc (.entry d.nextDev)).live (.entry d.nextDev) :=
    Function.update_self ..
  cases hcalloc : o.calloc with
  | false => simp [hmrRdmaDevInit, DevOutcomes.Usable, hcalloc]
  | true =>
    by_cases hquery : o.queryDevice < 0
    · have hnot : ¬o.Usable := fun h => absurd h.2.1 (Int.not_le.mpr hquery)
      simp [hmrRdmaDevInit, hcalloc, hnot, DeviceState.calloc, hlive, hquery, DeviceState.discarded]
    · cases hpd : o.allocPd with
      | none =>
        have hnot : ¬o.Usable := fun h => by simpa [hpd] using h.2.2
        simp [hmrRdmaDevInit, hcalloc, hnot, DeviceState.calloc, hlive, hquery, hpd,
          DeviceState.discarded]
      | some pd =>
        have husable : o.Usable := ⟨hcalloc, Int.not_lt.mp hquery, by simp [hpd]⟩
        simp [hmrRdmaDevInit, hcalloc, husable, DeviceState.calloc, hlive, hquery, hpd,
          initListHead_eq, DeviceState.made]

/-- The next device is not on the list. -/
theorem DeviceState.Holds.notMem (h : d.Holds devs) :
    DeviceNode.entry d.nextDev ∉ .devList :: devs.map .entry := by
  simpa using fun hmem => lt_irrefl _ (h.fresh _ hmem)

/-- With the next device in memory, nothing else is there that is not on the list. -/
theorem DeviceState.Holds.mem_of_alloc (h : d.Holds devs) {node : DeviceNode}
    (hnode : (d.heads.alloc (.entry d.nextDev)).live node) :
    node ∈ .devList :: (d.nextDev :: devs).map .entry := by
  by_cases hnew : node = .entry d.nextDev
  · simp [hnew]
  · have hold : d.heads.live node := by simpa [NodeHeap.alloc, hnew] using hnode
    rw [List.map_cons, List.mem_cons, List.mem_cons]
    exact (List.mem_cons.mp (h.live node hold)).imp_right .inr

/-- Freed again, it leaves nothing behind. -/
theorem DeviceState.Holds.mem_of_free (h : d.Holds devs) {node : DeviceNode}
    (hnode : ((d.heads.alloc (.entry d.nextDev)).free (.entry d.nextDev)).live node) :
    node ∈ .devList :: devs.map .entry := by
  have hnew : node ≠ .entry d.nextDev := by
    rintro rfl
    simp [NodeHeap.free] at hnode
  have hold : d.heads.live node := by simpa [NodeHeap.free, NodeHeap.alloc, hnew] using hnode
  exact h.live node hold

/-- What is done to the next device leaves those on the list. -/
theorem DeviceState.Holds.device_update (h : d.Holds devs) (device : HmrDevice Attr) :
    devs.map (Function.update d.device d.nextDev device) = devs.map d.device :=
  List.map_congr_left fun dev hdev => Function.update_of_ne (h.fresh dev hdev).ne ..

/-- The registry behind an entry of the array: its device in front, if it got one. -/
theorem initContext_holds (h : d.Holds devs) (ctx : CtxEntry Attr) :
    ∃ d' devs', initContext d ctx = some d' ∧ d'.Holds devs' ∧
      devs'.map d'.device = ctx.device?.toList ++ devs.map d.device ∧
      d'.rdmaNumDevices = d.rdmaNumDevices - if ctx.verbs = none then 1 else 0 := by
  have hfresh : ∀ dev ∈ devs, dev < d.nextDev + 1 := fun dev hdev =>
    Nat.lt_succ_of_lt (h.fresh dev hdev)
  cases hverbs : ctx.verbs with
  | none =>
    refine ⟨{ d with rdmaNumDevices := d.rdmaNumDevices - 1 }, devs, by simp [initContext, hverbs],
      ⟨h.list, h.live, h.fresh⟩, by simp [CtxEntry.device?, hverbs], by simp⟩
  | some verbs =>
    by_cases husable : ctx.outcomes.Usable
    · have hmade := (h.list.alloc h.notMem).link h.notMem h.notMem
      obtain ⟨heads, hadd, hlist, hlive⟩ :=
        listAdd_circular hmade (Function.update_self ..) h.notMem
      refine ⟨{ d.made verbs ctx.outcomes with heads }, d.nextDev :: devs, ?_,
        ⟨hlist, fun node hnode => ?_, ?_⟩, ?_, ?_⟩
      · simp [initContext, hverbs, hmrRdmaDevInit_eq, husable, DeviceState.made, hadd]
      · exact h.mem_of_alloc (hlive ▸ hnode)
      · exact List.forall_mem_cons.mpr ⟨Nat.lt_succ_self _, hfresh⟩
      · simp [CtxEntry.device?, hverbs, husable, DeviceState.made, h.device_update]
      · simp [DeviceState.made]
    · have hdevice : ctx.device? = none := by simp [CtxEntry.device?, hverbs, husable]
      cases hcalloc : ctx.outcomes.calloc with
      | false =>
        refine ⟨d, devs, ?_, h, by simp [hdevice], by simp⟩
        simp [initContext, hverbs, hmrRdmaDevInit_eq, husable, hcalloc]
      | true =>
        refine ⟨d.discarded ctx.outcomes, devs, ?_,
          ⟨(h.list.alloc h.notMem).free h.notMem, fun node hnode => ?_, hfresh⟩, ?_, ?_⟩
        · simp [initContext, hverbs, hmrRdmaDevInit_eq, husable, hcalloc]
        · exact h.mem_of_free hnode
        · simp [hdevice, DeviceState.discarded, h.device_update]
        · simp [DeviceState.discarded]

/-- So behind the whole array the list has the devices made, the last one in front, and every
context counts that is there. -/
theorem foldlM_initContext_holds (h : d.Holds devs) (ctxs : List (CtxEntry Attr)) :
    ∃ d' devs', ctxs.foldlM initContext d = some d' ∧ d'.Holds devs' ∧
      devs'.map d'.device = (ctxs.filterMap CtxEntry.device?).reverse ++ devs.map d.device ∧
      d'.rdmaNumDevices = d.rdmaNumDevices - ctxs.countP fun ctx => ctx.verbs = none := by
  induction ctxs generalizing d devs with
  | nil => exact ⟨d, devs, rfl, h, by simp, by simp⟩
  | cons ctx rest ih =>
    obtain ⟨u, devs', hfirst, hu, hdevices, hcount⟩ := initContext_holds h ctx
    obtain ⟨d', devs'', hrest, hd', hdevices', hcount'⟩ := ih hu
    refine ⟨d', devs'', ?_, hd', ?_, ?_⟩
    · simp [List.foldlM_cons, hfirst, hrest]
    · rw [hdevices', hdevices]
      cases hdevice : ctx.device? with
      | none => simp [hdevice]
      | some device => simp [hdevice]
    · rw [hcount', hcount, List.countP_cons]
      by_cases hnull : ctx.verbs = none
      · simp only [hnull, if_true, decide_true]
        omega
      · simp [hnull]

end Init

section Lookup

variable {Attr : Type} {d : DeviceState Attr} {devs before rest : List ℕ}

/-- The loop searches the rest of the list, once it has fuel for it. -/
theorem lookupLoop_eq (h : d.heads.Circular .devList ((before ++ rest).map .entry))
    (verbs : Option ℕ) {fuel : ℕ} (hfuel : rest.length < fuel) :
    lookupLoop d verbs fuel (some ((rest.map .entry).headD .devList)) =
      some (rest.find? fun dev => (d.device dev).verbs = verbs) := by
  induction rest generalizing before fuel with
  | nil =>
    cases fuel with
    | zero => contradiction
    | succ fuel => rfl
  | cons dev rest ih =>
    cases fuel with
    | zero => contradiction
    | succ fuel =>
      have hlive : d.heads.live (.entry dev) := h.live _ (by simp)
      have hnext : d.heads.next (.entry dev) = some ((rest.map .entry).headD .devList) := by
        rw [List.map_append, List.map_cons] at h
        exact h.next
      have hsplit : d.heads.Circular .devList ((before ++ [dev] ++ rest).map .entry) := by
        simpa using h
      have hrest := ih hsplit (Nat.lt_of_succ_lt_succ hfuel)
      by_cases hverbs : (d.device dev).verbs = verbs
      · simp [lookupLoop, hlive, hverbs]
      · simp only [lookupLoop, List.map_cons, List.headD_cons, load_of_live hlive,
          NodeHeap.readNext_some hlive, hnext, hverbs, Option.bind_eq_bind, Option.bind_some,
          if_false, hrest, List.find?_cons, decide_false]

/-- A lookup returns the first device of the context. -/
theorem hmrDeviceLookup_eq (h : d.heads.Circular .devList (devs.map .entry)) (verbs : Option ℕ)
    {fuel : ℕ} (hfuel : devs.length < fuel) :
    hmrDeviceLookup fuel d verbs = some (devs.find? fun dev => (d.device dev).verbs = verbs) := by
  simp only [hmrDeviceLookup, h.readNext_head, Option.bind_eq_bind, Option.bind_some]
  have hall : d.heads.Circular .devList (([] ++ devs).map .entry) := h
  exact lookupLoop_eq hall verbs hfuel

end Lookup

/-- A lookup finds a device with the attributes and the PD of its context if and only if every step
succeeded for that context, and nothing otherwise; and the count is the one of the devices on the
list. -/
structure RegistryExact {Attr : Type} (ctxs : List (CtxEntry Attr)) (d : DeviceState Attr) :
    Prop where
  found : ∀ ctx ∈ ctxs, ctx.Succeeds → ∃ dev fuel, d.device dev =
    ⟨ctx.verbs, ctx.outcomes.allocPd, some ctx.outcomes.deviceAttr⟩ ∧
      ∀ n ≥ fuel, hmrDeviceLookup n d ctx.verbs = some (some dev)
  missing : ∀ verbs, (∀ ctx ∈ ctxs, ctx.verbs = verbs → ¬ctx.Succeeds) →
    ∃ fuel, ∀ n ≥ fuel, hmrDeviceLookup n d verbs = some none
  count : ∃ devs : List ℕ, d.heads.Circular .devList (devs.map .entry) ∧
    d.rdmaNumDevices = devs.length

section Exact

variable {Attr : Type} {ctxs : List (CtxEntry Attr)} {d : DeviceState Attr} {devs : List ℕ}

/-- Distinct contexts are in the array once. -/
theorem eq_of_verbs_eq (hdistinct : (ctxs.filterMap CtxEntry.verbs).Nodup) {ctx ctx' : CtxEntry Attr}
    (hctx : ctx ∈ ctxs) (hctx' : ctx' ∈ ctxs) (hsome : ctx.verbs.isSome)
    (heq : ctx.verbs = ctx'.verbs) : ctx = ctx' := by
  by_contra hne
  let Differ (ctx ctx' : CtxEntry Attr) : Prop :=
    ∀ v, ctx.verbs = some v → ∀ v', ctx'.verbs = some v' → v ≠ v'
  have hsymm : Std.Symm Differ := ⟨fun _ _ h v hv v' hv' => (h v' hv' v hv).symm⟩
  have hdiffer : Differ ctx ctx' := (List.pairwise_filterMap.mp hdistinct).forall hctx hctx' hne
  obtain ⟨v, hv⟩ := Option.isSome_iff_exists.mp hsome
  exact hdiffer v hv v (heq ▸ hv) rfl

/-- The list of the devices made, as `hmr_rdma_init_handle` leaves it. -/
structure Registers (ctxs : List (CtxEntry Attr)) (d : DeviceState Attr) (devs : List ℕ) : Prop where
  list : d.heads.Circular .devList (devs.map .entry)
  live : ∀ node, d.heads.live node → node ∈ .devList :: devs.map .entry
  devices : devs.map d.device = (ctxs.filterMap CtxEntry.device?).reverse
  count : d.rdmaNumDevices = ctxs.length - ctxs.countP fun ctx => ctx.verbs = none

/-- `hmr_rdma_init_handle` returns, whatever the array. -/
theorem hmrRdmaInitHandle_registers (ctxs : List (CtxEntry Attr)) :
    ∃ d devs, hmrRdmaInitHandle (some ctxs) (.start Attr) = some d ∧ Registers ctxs d devs := by
  have hstart : DeviceState.Holds { DeviceState.start Attr with rdmaNumDevices := ctxs.length } [] :=
    ⟨⟨List.nodup_singleton _, .cons_cons ⟨rfl, rfl⟩ (.singleton _), by simp [DeviceState.start]⟩,
      fun node hnode => by simpa [DeviceState.start] using hnode,
      fun dev hdev => absurd hdev List.not_mem_nil⟩
  obtain ⟨d, devs, hinit, hholds, hdevices, hcount⟩ := foldlM_initContext_holds hstart ctxs
  exact ⟨d, devs, hinit, hholds.list, hholds.live, by simpa using hdevices, hcount⟩

/-- A device made is on the list. -/
theorem Registers.mem (h : Registers ctxs d devs) {ctx : CtxEntry Attr} (hctx : ctx ∈ ctxs)
    {device : HmrDevice Attr} (hdevice : ctx.device? = some device) :
    ∃ dev ∈ devs, d.device dev = device := by
  rw [← List.mem_map, h.devices, List.mem_reverse]
  exact List.mem_filterMap.mpr ⟨ctx, hctx, hdevice⟩

/-- And every device on the list was made. -/
theorem Registers.made (h : Registers ctxs d devs) {dev : ℕ} (hdev : dev ∈ devs) :
    ∃ ctx ∈ ctxs, ctx.device? = some (d.device dev) := by
  rw [← List.mem_filterMap, ← List.mem_reverse, ← h.devices]
  exact List.mem_map_of_mem hdev

/-- Made of distinct contexts that all succeed where they are there, the registry is exact. -/
theorem Registers.exact (h : Registers ctxs d devs)
    (hdistinct : (ctxs.filterMap CtxEntry.verbs).Nodup)
    (hsucceeds : ∀ ctx ∈ ctxs, ctx.verbs.isSome → ctx.Succeeds) : RegistryExact ctxs d where
  found ctx hctx hctxSucceeds := by
    obtain ⟨dev, hdev, hdevice⟩ := h.mem hctx hctxSucceeds.device?
    have hfind : (devs.find? fun dev => (d.device dev).verbs = ctx.verbs).isSome :=
      List.find?_isSome.mpr ⟨dev, hdev, by simp [hdevice]⟩
    obtain ⟨first, hfirst⟩ := Option.isSome_iff_exists.mp hfind
    have hverbs : (d.device first).verbs = ctx.verbs := by simpa using List.find?_some hfirst
    obtain ⟨ctx', hctx', hmade⟩ := h.made (List.mem_of_find?_eq_some hfirst)
    obtain rfl := eq_of_verbs_eq hdistinct hctx hctx' hctxSucceeds.1
      (hverbs.symm.trans (CtxEntry.device?_verbs hmade).1)
    refine ⟨first, devs.length + 1, ?_, fun n hn => ?_⟩
    · exact Option.some.inj (hmade.symm.trans hctxSucceeds.device?)
    · rw [hmrDeviceLookup_eq h.list ctx.verbs hn, hfirst]
  missing verbs hverbs := by
    refine ⟨devs.length + 1, fun n hn => ?_⟩
    rw [hmrDeviceLookup_eq h.list verbs hn, Option.some.injEq, List.find?_eq_none]
    intro dev hdev
    obtain ⟨ctx, hctx, hmade⟩ := h.made hdev
    obtain ⟨hsame, hsome⟩ := CtxEntry.device?_verbs hmade
    have hne : ctx.verbs ≠ verbs := fun heq => hverbs ctx hctx heq (hsucceeds ctx hctx hsome)
    simpa [hsame] using hne
  count := by
    refine ⟨devs, h.list, ?_⟩
    have hlength := congrArg List.length h.devices
    rw [List.length_map, List.length_reverse] at hlength
    rw [h.count, hlength, (length_devices_iff ctxs).mpr fun ctx hctx hsome => ?_]
    simp [(hsucceeds ctx hctx hsome).device?]

/-- An exact registry has a device for every context that is there, and finds none for a context
with a failure. -/
theorem Registers.succeeds (h : Registers ctxs d devs)
    (hdistinct : (ctxs.filterMap CtxEntry.verbs).Nodup) (hexact : RegistryExact ctxs d) :
    ∀ ctx ∈ ctxs, ctx.verbs.isSome → ctx.Succeeds := by
  intro ctx hctx hsome
  obtain ⟨devs', hlist, hcount⟩ := hexact.count
  obtain rfl := List.map_injective_iff.mpr (fun _ _ => DeviceNode.entry.inj) (hlist.unique h.list)
  have hlength : devs'.length = (ctxs.filterMap CtxEntry.device?).length := by
    rw [← List.length_map d.device, h.devices, List.length_reverse]
  have hall := (length_devices_iff ctxs).mp (by rw [← hlength, ← hcount, h.count])
  obtain ⟨device, hdevice⟩ := Option.isSome_iff_exists.mp (hall ctx hctx hsome)
  obtain ⟨dev, hdev, hmade⟩ := h.mem hctx hdevice
  by_contra hfails
  obtain ⟨fuel, hlookup⟩ := hexact.missing ctx.verbs fun ctx' hctx' heq hsucceeds =>
    hfails (eq_of_verbs_eq hdistinct hctx hctx' hsome heq.symm ▸ hsucceeds)
  have hnone := hlookup (max fuel (devs'.length + 1)) (le_max_left ..)
  rw [hmrDeviceLookup_eq h.list ctx.verbs (Nat.lt_of_succ_le (le_max_right ..)),
    Option.some.injEq, List.find?_eq_none] at hnone
  exact hnone dev hdev (by simp [hmade, (CtxEntry.device?_verbs hdevice).1])

/-- Whatever fails, `hmr_rdma_release_handle` gives back every device made: `dev_list` is all that is
left in memory, and each PD was deallocated and each device freed once. -/
theorem Registers.released (h : Registers ctxs d devs) :
    ∃ d', Released d devs d' ∧ (∀ node, d'.heads.live node ↔ node = .devList) ∧
      ∀ fuel, ctxs.length < fuel → hmrRdmaReleaseHandle fuel d = some d' := by
  obtain ⟨d', hreleased, hloop⟩ := releaseLoop_released h.list
  have hlength : devs.length ≤ ctxs.length := by
    rw [← List.length_map d.device, h.devices, List.length_reverse]
    exact List.length_filterMap_le ..
  refine ⟨d', hreleased, fun node => ⟨fun hnode => ?_, ?_⟩, fun fuel hfuel => ?_⟩
  · obtain ⟨hlive, hout⟩ := (hreleased.live node).mp hnode
    exact (List.mem_cons.mp (h.live node hlive)).resolve_right hout
  · rintro rfl
    exact hreleased.empty.live _ (.head _)
  · rw [hmrRdmaReleaseHandle_eq h.list]
    exact hloop fuel (by omega)

end Exact

/-- `hmr_rdma_init_handle` leaves an exact registry of distinct contexts exactly if every step
succeeds for each of them. -/
theorem registryExact_iff {Attr : Type} {ctxs : List (CtxEntry Attr)}
    (hdistinct : (ctxs.filterMap CtxEntry.verbs).Nodup) :
    (∃ d, hmrRdmaInitHandle (some ctxs) (.start Attr) = some d ∧ RegistryExact ctxs d) ↔
      ∀ ctx ∈ ctxs, ctx.verbs.isSome → ctx.Succeeds := by
  obtain ⟨d, devs, hinit, hregisters⟩ := hmrRdmaInitHandle_registers ctxs
  constructor
  · rintro ⟨d', hinit', hexact⟩
    obtain rfl := Option.some.inj (hinit.symm.trans hinit')
    exact hregisters.succeeds hdistinct hexact
  · intro hsucceeds
    exact ⟨d, hinit, hregisters.exact hdistinct hsucceeds⟩

/-- Two contexts and no context between them. -/
theorem registryExact_sample :
    let ctxs : List (CtxEntry Bool) :=
      [⟨some 4, ⟨true, 0, true, some 1⟩⟩, ⟨none, ⟨true, 0, true, none⟩⟩,
        ⟨some 2, ⟨true, 0, false, some 3⟩⟩]
    (∃ d, hmrRdmaInitHandle (some ctxs) (.start Bool) = some d ∧ RegistryExact ctxs d) ↔
      ∀ ctx ∈ ctxs, ctx.verbs.isSome → ctx.Succeeds :=
  registryExact_iff (by decide)

/-- A context whose `ibv_query_device` fails with `EIO` is found, without attributes. -/
theorem queryError_registers :
    let ctxs : List (CtxEntry Unit) := [⟨some 4, ⟨true, 5, (), some 1⟩⟩]
    ∃ d, hmrRdmaInitHandle (some ctxs) (.start Unit) = some d ∧
      (∀ fuel ≥ 2, hmrDeviceLookup fuel d (some 4) = some (some 0)) ∧
      (d.device 0).deviceAttr = none ∧ ¬RegistryExact ctxs d := by
  intro ctxs
  obtain ⟨d, devs, hinit, hregisters⟩ := hmrRdmaInitHandle_registers ctxs
  refine ⟨d, hinit, fun fuel hfuel => ?_, ?_, fun hexact => ?_⟩
  · obtain ⟨n, rfl⟩ := Nat.exists_eq_add_of_le' hfuel
    obtain rfl := Option.some.inj hinit
    rfl
  · obtain rfl := Option.some.inj hinit
    rfl
  · have hsucceeds := hregisters.succeeds (by decide) hexact _ List.mem_cons_self rfl
    exact absurd hsucceeds.2.2.1 (by decide)

end HmrRpc
