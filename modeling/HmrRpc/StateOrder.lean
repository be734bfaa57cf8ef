import HmrRpc.Lifecycle

/-!
# The order of the transport states

`hmr_msg_check` decides by the number of `trans_state` whether to spin, to send or to fail, so
the states are meant to be passed through in their order. The handlers that store a state
without a test of the old one keep that order only when they run in their turn.
-/

namespace HmrRpc

open Common

/-- The second state is not before the first, and an error stays one. -/
def Advances (t t' : HmrRdmaTransport) : Prop :=
  t.transState.toNat ≤ t'.transState.toNat ∧ (t.transState = .error → t'.transState = .error)

/-- The transport has not come past the given state. -/
def HmrRdmaTransport.UpTo (t : HmrRdmaTransport) (s : HmrRdmaTransportState) : Prop :=
  t.transState.toNat ≤ s.toNat

/-- The events that store a state find the transport in no later one. -/
def KeepsOrder (t : HmrRdmaTransport) : LifecycleEvent → Prop
  | .connect ok => ok → t.UpTo .connecting
  | .listen ok => ok → t.UpTo .listen
  | .acceptConnecting => t.UpTo .connecting
  | .established _ => t.UpTo .connected
  | .data (.recvComplete frame status _) =>
    status = .success → t.arrivingType frame = some .mr → t.UpTo .rconnected
  | _ => True

section Step

variable {t t' t'' : HmrRdmaTransport}

/-- A state kept is no step back. -/
theorem Advances.of_eq (h : t'.transState = t.transState) : Advances t t' :=
  ⟨by rw [h], fun herror => h.trans herror⟩

/-- The order is transitive. -/
theorem Advances.trans (h : Advances t t') (h' : Advances t' t'') : Advances t t'' :=
  ⟨h.1.trans h'.1, fun herror => h'.2 (h.2 herror)⟩

/-- A stored state is no step back exactly from the states up to it: ERROR is the last one. -/
theorem advances_iff_upTo {s : HmrRdmaTransportState} (h : t'.transState = s) :
    Advances t t' ↔ t.UpTo s := by
  unfold Advances HmrRdmaTransport.UpTo
  rw [h]
  refine and_iff_left_of_imp fun hle herror => ?_
  rw [herror] at hle
  cases s with
  | error => rfl
  | _ => simp [HmrRdmaTransportState.toNat] at hle

/-- ERROR is never a step back. -/
theorem Advances.of_error (h : t'.transState = .error) : Advances t t' := by
  rw [advances_iff_upTo h, HmrRdmaTransport.UpTo]
  cases t.transState <;> simp [HmrRdmaTransportState.toNat]

/-- An event of the connection is no step back exactly if an arriving MR is none. -/
theorem advances_data {e : DataEvent} (hstep : dataStep t e = some t') :
    Advances t t' ↔ KeepsOrder t (.data e) := by
  cases e with
  | send msg o =>
    obtain ⟨r, hsend⟩ := dataStep_send hstep
    exact iff_of_true (.of_eq hsend.transState) trivial
  | tick a => cases dataStep_tick hstep <;> exact iff_of_true (.of_eq rfl) trivial
  | sendComplete i status o =>
    refine iff_of_true ?_ trivial
    rcases (dataStep_sendComplete_state hstep).2.2 with hstate | ⟨hbefore, hafter⟩
    · exact .of_eq hstate
    · rw [advances_iff_upTo hafter, HmrRdmaTransport.UpTo, hbefore]
      decide
  | recvComplete frame status o =>
    cases dataStep_recvComplete hstep with
    | flushed _ _ _ hstatus =>
      exact iff_of_true (.of_eq rfl) fun hsuccess => absurd hsuccess hstatus
    | received wr pool u _ hhead hpool hbody hrepost =>
      have hstate := hrepost.transState.trans hbody.transState
      simp only [KeepsOrder, arrivingType_eq hhead hpool, Option.some.injEq, true_implies]
      by_cases hmr : receivedType (pool.memory.bytesAt wr.wrId.sgeList.addr) = .mr
      · rw [if_pos hmr] at hstate
        rw [advances_iff_upTo hstate]
        simp [hmr]
      · rw [if_neg hmr] at hstate
        exact iff_of_true (.of_eq hstate) fun h => absurd h hmr

/-- An event is no step back exactly if it finds the transport in its turn. -/
theorem advances_step {e : LifecycleEvent} (hstep : lifecycleStep t e = some t') :
    Advances t t' ↔ KeepsOrder t e := by
  cases e with
  | connect ok =>
    obtain rfl := Option.some.inj hstep
    cases ok with
    | false => exact iff_of_true (.of_eq rfl) (by simp [KeepsOrder])
    | true => exact (advances_iff_upTo (s := .connecting) rfl).trans (by simp [KeepsOrder])
  | listen ok =>
    obtain rfl := Option.some.inj hstep
    cases ok with
    | false => exact iff_of_true (.of_eq rfl) (by simp [KeepsOrder])
    | true => exact (advances_iff_upTo (s := .listen) rfl).trans (by simp [KeepsOrder])
  | addrResolved deviceFound m =>
    obtain rfl := Option.some.inj hstep
    refine iff_of_true (.of_eq ?_) trivial
    cases deviceFound <;> rfl
  | routeResolved qpOk connectOk o =>
    refine iff_of_true ?_ trivial
    rcases onCmRouteResolved_cases (ok_of_toOption hstep) with
      ⟨-, rfl⟩ | ⟨-, -, rfl⟩ | ⟨-, -, hposts⟩
    · exact .of_eq rfl
    · exact .of_error rfl
    · exact .of_eq (postRecvs_resources hposts).2
  | connectRequest deviceFound qpOk =>
    obtain rfl := Option.some.inj hstep
    refine iff_of_true (.of_eq ?_) trivial
    unfold onCmConnectRequest
    split <;> rfl
  | acceptConnecting =>
    obtain rfl := Option.some.inj hstep
    exact advances_iff_upTo rfl
  | acceptMempool m =>
    obtain rfl := Option.some.inj hstep
    exact iff_of_true (.of_eq rfl) trivial
  | acceptPosts o => exact iff_of_true (.of_eq (postRecvs_resources (ok_of_toOption hstep)).2) trivial
  | established o => exact advances_iff_upTo (onCmEstablished_frame (ok_of_toOption hstep)).1
  | disconnected =>
    exact iff_of_true (.of_eq (onCmDisconnected_transState (ok_of_toOption hstep))) trivial
  | connectError =>
    obtain rfl := Option.some.inj hstep
    exact iff_of_true (.of_error rfl) trivial
  | data e => exact advances_data hstep

end Step

/-- The state only moves forward in a run if and only if each event that stores one finds the
transport in its turn. -/
theorem stateForward_iff (t : HmrRdmaTransport) (events : List LifecycleEvent) :
    Along lifecycleStep Advances t events ↔ Guarded lifecycleStep KeepsOrder t events :=
  along_iff_guarded (R := Advances) (fun _ => .of_eq rfl) (fun _ _ _ => .trans)
    fun _ _ _ hstep => advances_step hstep

/-- The state goes back when the accepting thread stores CONNECTING behind ESTABLISHED. -/
theorem stateForward_accept :
    ¬∀ (t : HmrRdmaTransport) (events : List LifecycleEvent),
      Along lifecycleStep Advances t events := by
  intro h
  let before : List LifecycleEvent := [.connectRequest true true, .established .ok]
  have hrun : (runEvents lifecycleStep hmrRdmaCreate before).map
      HmrRdmaTransport.transState = some .connected := by decide
  obtain ⟨t, ht, hstate⟩ := Option.map_eq_some_iff.mp hrun
  have hback := h hmrRdmaCreate (before ++ [.acceptConnecting]) before [.acceptConnecting] [] t _
    (by simp) ht rfl
  rw [advances_iff_upTo (s := .connecting) rfl, HmrRdmaTransport.UpTo, hstate] at hback
  simp [HmrRdmaTransportState.toNat] at hback

end HmrRpc
