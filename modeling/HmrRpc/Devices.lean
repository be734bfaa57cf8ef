import HmrRpc.LinuxList
import Mathlib.Data.Int.Notation

/-!
# The devices (`hmr_rdma_transport.c`)

`hmr_rdma_init_handle` puts a device for each context it can use on `dev_list`,
`hmr_device_lookup` looks one up, and `hmr_rdma_release_handle` gives them all back. The
loops follow the pointers of the list for as long as their fuel lasts; without a result the
fuel has run out, or a device was accessed that is not in memory.
-/

namespace HmrRpc

open Common

/-- `dev_list`, or the `dev_list_entry` of a device, its first field. -/
inductive DeviceNode
  | devList
  | entry (dev : ℕ)
  deriving DecidableEq, Repr

/-- `struct hmr_device` behind its list entry. Contexts and PDs are numbered, and the attributes are
there once `ibv_query_device` has filled them in. -/
structure HmrDevice (Attr : Type) where
  verbs : Option ℕ
  pd : Option ℕ
  deviceAttr : Option Attr

/-- The calls that give a device back. -/
inductive DeviceCall
  | ibvDeallocPd (pd : Option ℕ)
  | free (dev : ℕ)
  deriving DecidableEq, Repr

/-- The lists' nodes and the devices in memory, with the next one `calloc` returns, the count
`rdma_num_devices`, and as history the calls that gave devices back. -/
structure DeviceState (Attr : Type) where
  heads : NodeHeap DeviceNode
  device : ℕ → HmrDevice Attr
  nextDev : ℕ
  rdmaNumDevices : ℤ
  calls : List DeviceCall

/-- The results of the library calls of `hmr_rdma_dev_init`; `ibv_query_device` returns zero or an
error number. -/
structure DevOutcomes (Attr : Type) where
  calloc : Bool
  queryDevice : ℤ
  deviceAttr : Attr
  allocPd : Option ℕ

/-- An entry of the array of `rdma_get_devices`, with what becomes of its context. -/
structure CtxEntry (Attr : Type) where
  verbs : Option ℕ
  outcomes : DevOutcomes Attr

section Functions

variable {Attr : Type}

/-- Before `hmr_rdma_init`: `LIST_HEAD(dev_list)`. -/
def DeviceState.start (Attr : Type) : DeviceState Attr where
  heads := NodeHeap.link ⟨fun _ => none, fun _ => none, fun node => node = .devList⟩ .devList .devList
  device := fun _ => ⟨none, none, none⟩
  nextDev := 0
  rdmaNumDevices := 0
  calls := []

/-- A zeroed device of `calloc`. -/
def DeviceState.calloc (d : DeviceState Attr) : ℕ × DeviceState Attr :=
  (d.nextDev, { d with
    heads := d.heads.alloc (.entry d.nextDev)
    device := Function.update d.device d.nextDev ⟨none, none, none⟩
    nextDev := d.nextDev + 1 })

/-- `free` of a device. -/
def DeviceState.free (d : DeviceState Attr) (dev : ℕ) : Option (DeviceState Attr) :=
  (d.heads.deref (some (.entry dev))).map fun node =>
    { d with heads := d.heads.free node, calls := d.calls ++ [.free dev] }

/-- Read a device. -/
def DeviceState.load (d : DeviceState Attr) (dev : ℕ) : Option (HmrDevice Attr) :=
  (d.heads.deref (some (.entry dev))).map fun _ => d.device dev

/-- Write a device. -/
def DeviceState.store (d : DeviceState Attr) (dev : ℕ) (device : HmrDevice Attr) :
    Option (DeviceState Attr) :=
  (d.heads.deref (some (.entry dev))).map fun _ =>
    { d with device := Function.update d.device dev device }

/-- What `ibv_query_device` leaves in the attributes of a zeroed device. -/
def DevOutcomes.queried (o : DevOutcomes Attr) : Option Attr :=
  if o.queryDevice = 0 then some o.deviceAttr else none

/-- `hmr_rdma_dev_init`. -/
def hmrRdmaDevInit (verbs : ℕ) (o : DevOutcomes Attr) (d : DeviceState Attr) :
    Option (Option ℕ × DeviceState Attr) :=
  if o.calloc then do
    let (dev, d) := d.calloc
    let d ← d.store dev ⟨none, none, o.queried⟩
    -- an error number is positive and passes
    if o.queryDevice < 0 then
      let d ← d.free dev
      some (none, d)
    else
      let d ← d.store dev ⟨none, o.allocPd, o.queried⟩
      if o.allocPd = none then
        let d ← d.free dev
        some (none, d)
      else
        let d ← d.store dev ⟨some verbs, o.allocPd, o.queried⟩
        let heads ← initListHead d.heads (some (.entry dev))
        some (some dev, { d with heads })
  else some (none, d)

/-- The loop body of `hmr_rdma_init_handle`. -/
def initContext (d : DeviceState Attr) (ctx : CtxEntry Attr) : Option (DeviceState Attr) :=
  match ctx.verbs with
  | none => some { d with rdmaNumDevices := d.rdmaNumDevices - 1 }
  | some verbs => do
    let (dev, d) ← hmrRdmaDevInit verbs ctx.outcomes d
    match dev with
    | none => some d
    | some dev =>
      let heads ← listAdd d.heads (some (.entry dev)) (some .devList)
      some { d with heads }

/-- `hmr_rdma_init_handle` for the array that `rdma_get_devices` returns, if it returns one. -/
def hmrRdmaInitHandle (ctxList : Option (List (CtxEntry Attr))) (d : DeviceState Attr) :
    Option (DeviceState Attr) :=
  match ctxList with
  | none => some d
  | some ctxs => ctxs.foldlM initContext { d with rdmaNumDevices := ctxs.length }

/-- The loop of `hmr_device_lookup`. -/
def lookupLoop (d : DeviceState Attr) (verbs : Option ℕ) :
    ℕ → Option DeviceNode → Option (Option ℕ)
  | 0, _ => none
  | _, none => none
  | _, some .devList => some none
  | fuel + 1, some (.entry dev) => do
    let device ← d.load dev
    if device.verbs = verbs then some (some dev)
    else lookupLoop d verbs fuel (← d.heads.readNext (some (.entry dev)))

/-- `hmr_device_lookup`. -/
def hmrDeviceLookup (fuel : ℕ) (d : DeviceState Attr) (verbs : Option ℕ) : Option (Option ℕ) := do
  lookupLoop d verbs fuel (← d.heads.readNext (some .devList))

/-- `ibv_dealloc_pd`, whose result is not looked at. -/
def DeviceState.ibvDeallocPd (d : DeviceState Attr) (pd : Option ℕ) : DeviceState Attr :=
  { d with calls := d.calls ++ [.ibvDeallocPd pd] }

/-- `hmr_rdma_dev_release`. -/
def hmrRdmaDevRelease (d : DeviceState Attr) (dev : ℕ) : Option (DeviceState Attr) := do
  let heads ← listDel d.heads (some (.entry dev))
  let device ← { d with heads }.load dev
  ({ d with heads }.ibvDeallocPd device.pd).free dev

/-- The loop of `hmr_rdma_release_handle`, with `dev` and `next`. -/
def releaseLoop : ℕ → Option DeviceNode → Option DeviceNode → DeviceState Attr →
    Option (DeviceState Attr)
  | 0, _, _, _ => none
  | _, none, _, _ => none
  | _, some .devList, _, d => some d
  | fuel + 1, some (.entry dev), next, d => do
    let heads ← listDelInit d.heads (some (.entry dev))
    let d ← hmrRdmaDevRelease { d with heads } dev
    releaseLoop fuel next (← d.heads.readNext next) d

/-- `hmr_rdma_release_handle`. -/
def hmrRdmaReleaseHandle (fuel : ℕ) (d : DeviceState Attr) : Option (DeviceState Attr) := do
  let dev ← d.heads.readNext (some .devList)
  releaseLoop fuel dev (← d.heads.readNext dev) d

end Functions

section Access

variable {Attr : Type} {d : DeviceState Attr} {dev : ℕ} {device : HmrDevice Attr}

@[simp] theorem load_of_live (h : d.heads.live (.entry dev)) : d.load dev = some (d.device dev) := by
  simp [DeviceState.load, h]

@[simp] theorem store_of_live (h : d.heads.live (.entry dev)) :
    d.store dev device = some { d with device := Function.update d.device dev device } := by
  simp [DeviceState.store, h]

@[simp] theorem free_of_live (h : d.heads.live (.entry dev)) :
    d.free dev = some { d with
      heads := d.heads.free (.entry dev)
      calls := d.calls ++ [.free dev] } := by
  simp [DeviceState.free, h]

end Access

section Release

variable {Attr : Type} {d : DeviceState Attr} {dev : ℕ} {devs rest : List ℕ}

/-- Taken off the list twice and freed, the first device leaves the others as they were. -/
theorem release_first (h : d.heads.Circular .devList ((dev :: rest).map .entry)) :
    ∃ heads d', listDelInit d.heads (some (.entry dev)) = some heads ∧
      hmrRdmaDevRelease { d with heads } dev = some d' ∧
      d'.heads.Circular .devList (rest.map .entry) ∧
      d'.heads.live = Function.update d.heads.live (.entry dev) false ∧
      d'.device = d.device ∧
      d'.calls = d.calls ++ [.ibvDeallocPd (d.device dev).pd, .free dev] := by
  have hdev : d.heads.live (.entry dev) := h.live _ (by simp)
  have hfirst : d.heads.Circular .devList ([] ++ .entry dev :: rest.map .entry) := h
  have hout : DeviceNode.entry dev ∉ .devList :: rest.map .entry := hfirst.notMem
  obtain ⟨heads, hinit, hlist, hself, hlive⟩ := listDelInit_circular hfirst
  obtain ⟨heads', hdel, hlist', hlive'⟩ := listDel_circular hlist hself (hlive ▸ hdev) hout
  have hdev' : heads'.live (.entry dev) := by rw [hlive', hlive, hdev]
  refine ⟨heads, { d with
    heads := heads'.free (.entry dev)
    calls := d.calls ++ [.ibvDeallocPd (d.device dev).pd, .free dev] }, hinit, ?_,
    hlist'.free hout, ?_, rfl, rfl⟩
  · simp [hmrRdmaDevRelease, hdel, DeviceState.ibvDeallocPd, hdev']
  · rw [NodeHeap.free, hlive', hlive]

/-- What `hmr_rdma_release_handle` leaves of a list of devices: the empty list, each device gone from
memory and nothing else, with its PD deallocated and itself freed once, in the order of the list. -/
structure Released (d : DeviceState Attr) (devs : List ℕ) (d' : DeviceState Attr) : Prop where
  empty : d'.heads.Circular .devList []
  once : devs.Nodup
  live : ∀ node, d'.heads.live node ↔ d.heads.live node ∧ node ∉ devs.map .entry
  calls : d'.calls =
    d.calls ++ devs.flatMap fun dev => [.ibvDeallocPd (d.device dev).pd, .free dev]

/-- The loop, from the first device on and with the saved pointer to the second, releases the list
as soon as it has fuel for it. -/
theorem releaseLoop_released (h : d.heads.Circular .devList (devs.map .entry)) :
    ∃ d', Released d devs d' ∧ ∀ fuel, devs.length < fuel →
      releaseLoop fuel (some ((devs.map .entry).headD .devList))
        (some ((devs.map .entry).tail.headD .devList)) d = some d' := by
  induction devs generalizing d with
  | nil =>
    refine ⟨d, ⟨h, List.nodup_nil, by simp, by simp⟩, fun fuel hfuel => ?_⟩
    cases fuel with
    | zero => contradiction
    | succ fuel => rfl
  | cons dev rest ih =>
    obtain ⟨heads, u, hinit, hrelease, hlist, hlive, hdevice, hcalls⟩ := release_first h
    obtain ⟨d', hreleased, hloop⟩ := ih hlist
    refine ⟨d', ⟨hreleased.empty, h.nodup.of_cons.of_map _, fun node => ?_, ?_⟩,
      fun fuel hfuel => ?_⟩
    · rw [hreleased.live, hlive]
      by_cases heq : node = .entry dev
      · simp [heq]
      · simp [heq]
    · rw [hreleased.calls, hcalls, hdevice]
      simp
    · cases fuel with
      | zero => contradiction
      | succ fuel =>
        simp only [releaseLoop, List.map_cons, List.headD_cons, List.tail_cons, hinit, hrelease,
          hlist.readNext_first, Option.bind_eq_bind, Option.bind_some]
        exact hloop fuel (Nat.lt_of_succ_lt_succ hfuel)

/-- `hmr_rdma_release_handle` starts the loop with the first device and saves the second. -/
theorem hmrRdmaReleaseHandle_eq (h : d.heads.Circular .devList (devs.map .entry)) (fuel : ℕ) :
    hmrRdmaReleaseHandle fuel d =
      releaseLoop fuel (some ((devs.map .entry).headD .devList))
        (some ((devs.map .entry).tail.headD .devList)) d := by
  simp only [hmrRdmaReleaseHandle, h.readNext_head, h.readNext_first, Option.bind_eq_bind,
    Option.bind_some]

end Release

/-- `hmr_rdma_release_handle` returns, for a list of any devices, and has released each of them. -/
theorem hmrRdmaReleaseHandle_releases {Attr : Type} {d : DeviceState Attr} {devs : List ℕ}
    (h : d.heads.Circular .devList (devs.map .entry)) :
    ∃ d', Released d devs d' ∧ ∀ fuel, devs.length < fuel →
      hmrRdmaReleaseHandle fuel d = some d' := by
  obtain ⟨d', hreleased, hloop⟩ := releaseLoop_released h
  refine ⟨d', hreleased, fun fuel hfuel => ?_⟩
  rw [hmrRdmaReleaseHandle_eq h]
  exact hloop fuel hfuel

/-- Two devices on the list. -/
def sampleDevices : DeviceState Unit where
  heads := (((NodeHeap.link ⟨fun _ => none, fun _ => none, fun _ => true⟩ .devList (.entry 1)).link
    (.entry 1) (.entry 0)).link (.entry 0) .devList)
  device := fun dev => ⟨some dev, some dev, some ()⟩
  nextDev := 2
  rdmaNumDevices := 2
  calls := []

/-- They are released in the order of the list. -/
theorem hmrRdmaReleaseHandle_sample :
    ∃ d', Released sampleDevices [1, 0] d' ∧ ∀ fuel, 2 < fuel →
      hmrRdmaReleaseHandle fuel sampleDevices = some d' :=
  hmrRdmaReleaseHandle_releases ⟨by decide,
    .cons_cons ⟨rfl, rfl⟩ (.cons_cons ⟨rfl, rfl⟩ (.cons_cons ⟨rfl, rfl⟩ (.singleton _))), by decide⟩

end HmrRpc
