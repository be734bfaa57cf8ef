import HmrRpc.Common.Decimal
import HmrRpc.ConnectAttempt
import Mathlib.Data.List.TakeWhile

/-!
# The endpoint of `hmr_rdma_connect`

The strings for address and port go through `atoi`, `htons` and `inet_pton` into
`peer_addr`. Of the three only `inet_pton` reports a malformed string, and the zero it
reports it with is not taken for a failure. Until a step fails, the fields of the transport
are already being written.
-/

namespace HmrRpc

open Common

/-- `struct in_addr`, in network order. -/
structure InAddr where
  b1 : UInt8
  b2 : UInt8
  b3 : UInt8
  b4 : UInt8
  deriving DecidableEq, Repr

/-- The dotted quad of an address. -/
def InAddr.text (addr : InAddr) : List Char :=
  ['.'].intercalate (([addr.b1, addr.b2, addr.b3, addr.b4]).map fun b => Nat.toDigits 10 b.toNat)

/-- `struct sockaddr_in`; the two bytes of the port are in network order. -/
structure SockaddrIn where
  sinFamily : ℕ
  sinPort : UInt8 × UInt8
  sinAddr : InAddr
  deriving DecidableEq, Repr

/-- The port number of an address. -/
def SockaddrIn.port (addr : SockaddrIn) : ℕ := 256 * addr.sinPort.1.toNat + addr.sinPort.2.toNat

/-- `AF_INET`. -/
def afInet : ℕ := 2

/-- `isspace`. -/
def isspace (c : Char) : Bool := c.toNat = 32 ∨ 9 ≤ c.toNat ∧ c.toNat ≤ 13

/-- `strtol` in base ten: blanks, a sign, and the digits up to the first other character. -/
def strtol (s : List Char) : ℤ :=
  let digits (s : List Char) : ℤ := numeralValue (s.takeWhile Char.isDigit)
  match s.dropWhile isspace with
  | '-' :: rest => max (-digits rest) (-2 ^ 63)
  | '+' :: rest => min (digits rest) (2 ^ 63 - 1)
  | s => min (digits s) (2 ^ 63 - 1)

/-- `atoi`. -/
def atoi (s : List Char) : ℤ := cInt (strtol s)

/-- `htons` of the low 16 bits. -/
def htons (n : ℤ) : UInt8 × UInt8 :=
  let n := (n % 2 ^ 16).toNat
  (.ofNat (n / 256), .ofNat (n % 256))

/-- A part of a dotted quad. -/
def parseOctet (cs : List Char) : Option UInt8 :=
  if IsNumeral cs ∧ cs.length ≤ 3 ∧ NoLeadingZero cs ∧ numeralValue cs ≤ 255 then
    some (.ofNat (numeralValue cs))
  else none

/-- The address a dotted quad stands for. -/
def parseQuad (s : List Char) : Option InAddr :=
  match s.splitOn '.' with
  | [p, q, r, s] => do some ⟨← parseOctet p, ← parseOctet q, ← parseOctet r, ← parseOctet s⟩
  | _ => none

/-- `inet_pton` for `AF_INET`: its return value, and the address behind the call. -/
def inetPton (s : List Char) (addr : InAddr) : ℤ × InAddr :=
  match parseQuad s with
  | some addr => (1, addr)
  | none => (0, addr)

/-- The fields of the transport that `hmr_rdma_connect` writes; `cm_id` is numbered. -/
structure ConnectFields where
  peerAddr : SockaddrIn
  cmId : Option ℕ
  transState : HmrRdmaTransportState
  isClient : Bool
  deriving DecidableEq

/-- The return values of `rdma_create_id` and `rdma_resolve_addr`, and the identifier created. -/
structure CmIdOutcomes where
  createId : ℤ
  id : ℕ
  resolveAddr : ℤ

/-- A call of `hmr_rdma_connect`: the value returned, the address passed to `rdma_resolve_addr`, and
the fields left behind. -/
structure ConnectCall where
  retval : ℤ
  resolved : Option SockaddrIn
  fields : ConnectFields

/-- `hmr_port_uri_init`. -/
def hmrPortUriInit (t : ConnectFields) (url port : List Char) : ℤ × ConnectFields :=
  let iport := atoi port
  let peerAddr : SockaddrIn := ⟨afInet, htons iport, ⟨0, 0, 0, 0⟩⟩
  let call := inetPton url peerAddr.sinAddr
  if call.1 ≤ 0 then (call.1, t)
  else (call.1, { t with peerAddr := { peerAddr with sinAddr := call.2 } })

/-- `hmr_rdma_connect` on the strings it is given. -/
def hmrRdmaConnectTo (o : CmIdOutcomes) (url port : Option (List Char)) (t : ConnectFields) :
    ConnectCall :=
  match url, port with
  | some url, some port =>
    let init := hmrPortUriInit t url port
    -- a malformed address comes back as zero and passes
    if init.1 < 0 then ⟨init.1, none, init.2⟩
    else if o.createId ≠ 0 then ⟨o.createId, none, { init.2 with cmId := none }⟩
    else if o.resolveAddr ≠ 0 then
      ⟨o.resolveAddr, some init.2.peerAddr, { init.2 with cmId := none }⟩
    else
      ⟨o.resolveAddr, some init.2.peerAddr,
        { init.2 with cmId := some o.id, transState := .connecting, isClient := true }⟩
  | _, _ => ⟨-1, none, t⟩

/-- The strings ask for this address and this port. -/
structure Requests (url port : Option (List Char)) (ip : InAddr) (n : ℕ) : Prop where
  url : url = some ip.text
  port : ∃ cs, port = some cs ∧ IsNumeral cs ∧ numeralValue cs = n
  range : 1 ≤ n ∧ n ≤ 65535

/-- A call that succeeds resolves exactly the endpoint asked for, and one that fails changes
nothing. -/
structure ConnectsExactly (url port : Option (List Char)) (t : ConnectFields) (call : ConnectCall) :
    Prop where
  exact : call.retval = 0 → ∃ ip n addr, Requests url port ip n ∧ call.resolved = some addr ∧
    addr.sinFamily = afInet ∧ addr.sinAddr = ip ∧ addr.port = n
  unchanged : call.retval ≠ 0 → call.fields = t

/-- Either a string is missing; or both calls succeed and the strings ask for an endpoint; or one of
the calls fails for a transport without an identifier that, if the address is well formed, already
has it and the port. -/
def EndpointSound (o : CmIdOutcomes) (t : ConnectFields) :
    Option (List Char) → Option (List Char) → Prop
  | some url, some port =>
    if o.createId = 0 ∧ o.resolveAddr = 0 then ∃ ip n, Requests (some url) (some port) ip n
    else
      t.cmId = none ∧
        ∀ ip : InAddr, url = ip.text → t.peerAddr = ⟨afInet, htons (atoi port), ip⟩
  | _, _ => True

section Strings

/-- A part of a dotted quad is what is written for it. -/
theorem parseOctet_eq_some {cs : List Char} {b : UInt8} :
    parseOctet cs = some b ↔ cs = Nat.toDigits 10 b.toNat := by
  have hb : b.toNat < 256 := b.toNat_lt
  constructor
  · intro h
    obtain ⟨⟨hnumeral, -, hzero, hvalue⟩, h⟩ := Option.ite_none_right_eq_some.mp h
    have htoNat : b.toNat = numeralValue cs := by
      rw [← Option.some.inj h]
      exact UInt8.toNat_ofNat_of_lt (Nat.lt_succ_of_le hvalue)
    rw [htoNat, hnumeral.toDigits_value hzero]
  · rintro rfl
    have hlength : (Nat.toDigits 10 b.toNat).length ≤ 3 :=
      (Nat.length_toDigits_le_iff (by decide) (by decide)).mpr (by omega)
    have hvalue := numeralValue_toDigits b.toNat
    rw [parseOctet, if_pos ⟨isNumeral_toDigits _, hlength, noLeadingZero_toDigits _, by omega⟩,
      hvalue]
    simp

/-- The parts contain no point. -/
theorem splitOn_text (addr : InAddr) :
    addr.text.splitOn '.' =
      [addr.b1, addr.b2, addr.b3, addr.b4].map fun b => Nat.toDigits 10 b.toNat := by
  refine List.splitOn_intercalate '.' (fun cs hcs hpoint => ?_) (List.cons_ne_nil _ _)
  obtain ⟨b, -, rfl⟩ := List.mem_map.mp hcs
  exact absurd ((isNumeral_toDigits b.toNat).digits _ hpoint) (by decide)

/-- An address is read exactly from its dotted quad. -/
theorem parseQuad_eq_some {s : List Char} {addr : InAddr} :
    parseQuad s = some addr ↔ s = addr.text := by
  constructor
  · intro h
    unfold parseQuad at h
    split at h
    · rename_i p q r s' hsplit
      simp only [Option.bind_eq_bind, Option.bind_eq_some_iff, Option.some.injEq] at h
      obtain ⟨b1, hp, b2, hq, b3, hr, b4, hs, rfl⟩ := h
      have hjoin : ['.'].intercalate (s.splitOn '.') = s := List.intercalate_splitOn '.'
      rw [← hjoin, hsplit, InAddr.text, parseOctet_eq_some.mp hp,
        parseOctet_eq_some.mp hq, parseOctet_eq_some.mp hr, parseOctet_eq_some.mp hs]
      rfl
    · contradiction
  · rintro rfl
    have hoctet (b : UInt8) : parseOctet (Nat.toDigits 10 b.toNat) = some b :=
      parseOctet_eq_some.mpr rfl
    simp [parseQuad, splitOn_text, hoctet]

/-- A numeral is read whole. -/
theorem strtol_numeral {cs : List Char} (h : IsNumeral cs) :
    strtol cs = min (numeralValue cs : ℤ) (2 ^ 63 - 1) := by
  cases cs with
  | nil => exact absurd rfl h.nonempty
  | cons c cs =>
    have hc := h.digits c (by simp)
    have hspace : (c :: cs).dropWhile isspace = c :: cs := by
      obtain ⟨hlo, hhi⟩ := isDigit_toNat hc
      have hc : isspace c = false := by
        simp only [isspace, decide_eq_false_iff_not]
        omega
      simp [hc]
    have htake : (c :: cs).takeWhile Char.isDigit = c :: cs :=
      List.takeWhile_eq_self_iff.mpr h.digits
    unfold strtol
    rw [hspace]
    split
    · rename_i hsign
      obtain rfl := (List.cons.inj hsign).1
      contradiction
    · rename_i hsign
      obtain rfl := (List.cons.inj hsign).1
      contradiction
    · dsimp only
      rw [htake]

/-- A numeral of an `int` is converted to its value. -/
theorem atoi_numeral {cs : List Char} (h : IsNumeral cs) (hint : numeralValue cs < 2 ^ 31) :
    atoi cs = numeralValue cs := by
  rw [atoi, strtol_numeral h, min_eq_left (by omega)]
  exact cInt_of_range (by omega) (by omega)

/-- The port number behind `htons` is the low 16 bits. -/
theorem htons_port (n : ℤ) (sinFamily : ℕ) (addr : InAddr) :
    ((SockaddrIn.mk sinFamily (htons n) addr).port : ℤ) = n % 2 ^ 16 := by
  obtain ⟨k, hk⟩ : ∃ k : ℕ, n % 2 ^ 16 = k := ⟨(n % 2 ^ 16).toNat, by omega⟩
  have hlt : k < 2 ^ 16 := by omega
  simp only [SockaddrIn.port, htons, hk, Int.toNat_natCast, UInt8.toNat_ofNat']
  omega

end Strings

section Calls

variable {o : CmIdOutcomes} {t : ConnectFields} {url port : List Char}

/-- `hmr_port_uri_init` of a dotted quad. -/
theorem hmrPortUriInit_text (t : ConnectFields) (ip : InAddr) (port : List Char) :
    hmrPortUriInit t ip.text port = (1, { t with peerAddr := ⟨afInet, htons (atoi port), ip⟩ }) := by
  have hquad : parseQuad ip.text = some ip := parseQuad_eq_some.mpr rfl
  simp [hmrPortUriInit, inetPton, hquad]

/-- `hmr_port_uri_init` of any other string. -/
theorem hmrPortUriInit_other (t : ConnectFields) (port : List Char)
    (h : ∀ ip : InAddr, url ≠ ip.text) :
    hmrPortUriInit t url port = (0, t) := by
  have hquad : parseQuad url = none :=
    Option.eq_none_iff_forall_ne_some.mpr fun ip hip => h ip (parseQuad_eq_some.mp hip)
  simp [hmrPortUriInit, inetPton, hquad]

/-- It never returns a negative value, whatever the strings. -/
theorem hmrPortUriInit_nonneg (t : ConnectFields) (url port : List Char) :
    0 ≤ (hmrPortUriInit t url port).1 := by
  by_cases hurl : ∃ ip : InAddr, url = ip.text
  · obtain ⟨ip, rfl⟩ := hurl
    rw [hmrPortUriInit_text]
    exact zero_le_one
  · rw [hmrPortUriInit_other t port (not_exists.mp hurl)]

/-- The fields it leaves, without an identifier, are those before exactly if there was none and a
well-formed address is the one already there. -/
theorem hmrPortUriInit_unchanged :
    { (hmrPortUriInit t url port).2 with cmId := none } = t ↔
      t.cmId = none ∧
        ∀ ip : InAddr, url = ip.text → t.peerAddr = ⟨afInet, htons (atoi port), ip⟩ := by
  obtain ⟨peerAddr, cmId, transState, isClient⟩ := t
  by_cases hurl : ∃ ip : InAddr, url = ip.text
  · obtain ⟨ip, rfl⟩ := hurl
    have hip (ip' : InAddr) : ip.text = ip'.text ↔ ip' = ip := by
      rw [← parseQuad_eq_some, parseQuad_eq_some.mpr rfl, Option.some_inj, eq_comm]
    simp only [hmrPortUriInit_text, ConnectFields.mk.injEq, hip, forall_eq, and_true]
    rw [eq_comm (a := none), eq_comm (b := peerAddr), and_comm]
  · rw [hmrPortUriInit_other _ port (not_exists.mp hurl)]
    simp only [ConnectFields.mk.injEq, true_and, and_true]
    rw [eq_comm]
    exact (and_iff_left fun ip hip => absurd ⟨ip, hip⟩ hurl).symm

/-- With both calls succeeding `hmr_rdma_connect` returns zero for whatever address is there. -/
theorem hmrRdmaConnectTo_succeeds (hcreate : o.createId = 0) (hresolve : o.resolveAddr = 0) :
    hmrRdmaConnectTo o (some url) (some port) t =
      ⟨0, some (hmrPortUriInit t url port).2.peerAddr,
        { (hmrPortUriInit t url port).2 with
          cmId := some o.id, transState := .connecting, isClient := true }⟩ := by
  have hnonneg := hmrPortUriInit_nonneg t url port
  simp [hmrRdmaConnectTo, hcreate, hresolve, hnonneg.not_gt]

/-- With one of them failing it returns another value and clears the identifier. -/
theorem hmrRdmaConnectTo_fails (t : ConnectFields) (url port : List Char)
    (hcalls : ¬(o.createId = 0 ∧ o.resolveAddr = 0)) :
    (hmrRdmaConnectTo o (some url) (some port) t).retval ≠ 0 ∧
      (hmrRdmaConnectTo o (some url) (some port) t).fields =
        { (hmrPortUriInit t url port).2 with cmId := none } := by
  have hnonneg := hmrPortUriInit_nonneg t url port
  simp only [hmrRdmaConnectTo, if_neg hnonneg.not_gt]
  by_cases hcreate : o.createId = 0
  · have hresolve : o.resolveAddr ≠ 0 := fun h => hcalls ⟨hcreate, h⟩
    rw [if_neg (not_not.mpr hcreate), if_pos hresolve]
    exact ⟨hresolve, rfl⟩
  · rw [if_pos hcreate]
    exact ⟨hcreate, rfl⟩

/-- What it returns is what the attempt sees, and the state and the role follow it. -/
theorem hmrRdmaConnectTo_attempt (o : CmIdOutcomes) (url port : Option (List Char))
    (t : ConnectFields) (u : HmrRdmaTransport) (hstate : u.transState = t.transState)
    (hrole : u.isClient = t.isClient) :
    let call := hmrRdmaConnectTo o url port t
    let attempt : ConnectOutcomes :=
      ⟨url.isSome && port.isSome, (hmrPortUriInit t (url.getD []) (port.getD [])).1, o.createId,
        o.resolveAddr⟩
    call.retval = attempt.retval ∧
      (hmrRdmaConnect (attempt.retval = 0) u).transState = call.fields.transState ∧
      (hmrRdmaConnect (attempt.retval = 0) u).isClient = call.fields.isClient := by
  have hmissing : (hmrRdmaConnect ((-1 : ℤ) = 0) u).transState = t.transState ∧
      (hmrRdmaConnect ((-1 : ℤ) = 0) u).isClient = t.isClient := ⟨hstate, hrole⟩
  cases url with
  | none => exact ⟨rfl, hmissing⟩
  | some url =>
    cases port with
    | none => exact ⟨rfl, hmissing⟩
    | some port =>
      have hnonneg := hmrPortUriInit_nonneg t url port
      have hkept : (hmrPortUriInit t url port).2.transState = t.transState ∧
          (hmrPortUriInit t url port).2.isClient = t.isClient := by
        unfold hmrPortUriInit
        dsimp only
        split <;> exact ⟨rfl, rfl⟩
      dsimp only [Option.getD_some, ConnectOutcomes.retval]
      by_cases hcalls : o.createId = 0 ∧ o.resolveAddr = 0
      · simp [hmrRdmaConnectTo_succeeds hcalls.1 hcalls.2, hcalls.1, hcalls.2, hnonneg.not_gt,
          hmrRdmaConnect]
      · obtain ⟨hretval, hfields⟩ := hmrRdmaConnectTo_fails t url port hcalls
        have hattempt : (hmrRdmaConnectTo o (some url) (some port) t).retval =
            if o.createId ≠ 0 then o.createId else o.resolveAddr := by
          simp only [hmrRdmaConnectTo, if_neg hnonneg.not_gt]
          split_ifs <;> rfl
        rw [hattempt] at hretval
        simp only [Option.isSome_some, Bool.and_self, not_true_eq_false, if_false,
          if_neg hnonneg.not_gt, hattempt, hfields, hmrRdmaConnect, hretval, decide_false,
          Bool.false_eq_true, hstate, hrole, hkept, and_self]

end Calls

/-- A call connects to exactly the endpoint asked for, or changes nothing, if and only if its strings
and the state before it are sound. -/
theorem connectsExactly_iff (o : CmIdOutcomes) (url port : Option (List Char)) (t : ConnectFields) :
    ConnectsExactly url port t (hmrRdmaConnectTo o url port t) ↔ EndpointSound o t url port := by
  have hmissing : ConnectsExactly url port t ⟨-1, none, t⟩ :=
    ⟨fun h => absurd h (by decide : (-1 : ℤ) ≠ 0), fun _ => rfl⟩
  cases url with
  | none => exact iff_of_true hmissing trivial
  | some url =>
    cases port with
    | none => exact iff_of_true hmissing trivial
    | some port =>
      rw [EndpointSound]
      split
      · rename_i hcalls
        rw [hmrRdmaConnectTo_succeeds hcalls.1 hcalls.2]
        constructor
        · intro h
          obtain ⟨ip, n, -, hrequests, -⟩ := h.exact rfl
          exact ⟨ip, n, hrequests⟩
        · rintro ⟨ip, n, hrequests⟩
          refine ⟨fun _ => ⟨ip, n, _, hrequests, rfl, ?_⟩, fun h => absurd rfl h⟩
          obtain ⟨cs, hcs, hnumeral, hvalue⟩ := hrequests.port
          obtain rfl := Option.some.inj hcs
          obtain rfl := Option.some.inj hrequests.url
          have hrange := hrequests.range
          rw [hmrPortUriInit_text]
          refine ⟨rfl, rfl, ?_⟩
          dsimp only
          have hport := htons_port (atoi port) afInet ip
          rw [atoi_numeral hnumeral (by omega), hvalue] at hport ⊢
          omega
      · rename_i hcalls
        obtain ⟨hretval, hfields⟩ := hmrRdmaConnectTo_fails t url port hcalls
        rw [← hmrPortUriInit_unchanged, ← hfields]
        exact ⟨fun h => h.unchanged hretval, fun h => ⟨fun hzero => absurd hzero hretval, fun _ => h⟩⟩

/-- A port of 65616 connects to port 80. -/
theorem largePort_connects :
    ¬∀ (o : CmIdOutcomes) (url port : Option (List Char)) (t : ConnectFields),
      ConnectsExactly url port t (hmrRdmaConnectTo o url port t) := by
  intro h
  have hexact := (h ⟨0, 1, 0⟩ (some "10.0.0.1".toList) (some "65616".toList)
    ⟨⟨0, (0, 0), ⟨0, 0, 0, 0⟩⟩, none, .init, false⟩).exact
    (congrArg ConnectCall.retval (hmrRdmaConnectTo_succeeds rfl rfl))
  obtain ⟨ip, n, addr, hrequests, -⟩ := hexact
  obtain ⟨cs, hcs, -, hvalue⟩ := hrequests.port
  obtain rfl := Option.some.inj hcs
  have hlarge : numeralValue "65616".toList = 65616 := by decide
  have hrange := hrequests.range
  omega

end HmrRpc
