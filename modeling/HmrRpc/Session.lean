import HmrRpc.RemoteKey

/-!
# The two parties up to their DISCONNECTED events

The connection of `TwoParty` with the handling of DISCONNECTED on either side. The event may
come at any time; it destroys the side's queue pair, whose remaining completions are not
polled any more, and releases its pool.
-/

namespace HmrRpc

open Common

/-- An event of the connection, or one side handling its DISCONNECTED event. -/
inductive SessionEvent
  | conn (e : ConnectionEvent)
  | disconnected (s : Side)

/-- The side whose completion queue is polled. -/
def ConnectionEvent.polls : ConnectionEvent → Option Side
  | .sendComplete s .. | .recvComplete s _ | .recvFail s .. => some s
  | _ => none

/-- One event of the session. -/
def sessionStep (c : Connection) : SessionEvent → Option Connection
  | .conn e =>
    -- `rdma_destroy_qp` discards the completions that are left
    if e.polls.all fun s => (c.trans s).qp.status = .live then connectionStep c e else none
  | .disconnected s => (onCmDisconnected (c.trans s)).toOption.map (c.setTrans s)

/-- What an event of the session did. -/
inductive SessionResult (c : Connection) : SessionEvent → Connection → Prop
  | conn (e : ConnectionEvent) (c' : Connection) (hstep : connectionStep c e = some c') :
      SessionResult c (.conn e) c'
  | disconnected (s : Side) (t : HmrRdmaTransport)
      (hhandler : onCmDisconnected (c.trans s) = .ok t) :
      SessionResult c (.disconnected s) (c.setTrans s t)

/-- Every step of the session is one of the listed results. -/
theorem sessionStep_cases {c c' : Connection} {e : SessionEvent} (h : sessionStep c e = some c') :
    SessionResult c e c' := by
  cases e with
  | conn e => exact .conn e c' (Option.ite_none_right_eq_some.mp h).2
  | disconnected s =>
    obtain ⟨t, ht, rfl⟩ := Option.map_eq_some_iff.mp h
    exact .disconnected s t (ok_of_toOption ht)

/-- The application leaves MR messages to the exchange. -/
def SessionEvent.AppSends : SessionEvent → Prop
  | .conn e => HmrRpc.AppSends e
  | .disconnected _ => True

/-- No tick posts a message whose buffer has been given away and holds an MR by now. -/
def SessionTicksNoMr (c : Connection) : SessionEvent → Prop
  | .conn e => TicksNoMr c e
  | .disconnected _ => True

instance (c : Connection) : (e : SessionEvent) → Decidable (SessionTicksNoMr c e)
  | .conn e => inferInstanceAs (Decidable (TicksNoMr c e))
  | .disconnected _ => isTrue trivial

/-- The client handles ESTABLISHED before a message of the server reaches it. -/
def ClientFirst (c : Connection) : SessionEvent → Prop
  | .conn (.recvComplete .client _) => (c.ends .client).established = .handled
  | _ => True

instance (c : Connection) : (e : SessionEvent) → Decidable (ClientFirst c e)
  | .conn (.recvComplete .client _) => inferInstanceAs (Decidable (_ = _))
  | .conn (.recvComplete .server _) | .conn (.established ..) | .conn (.sendComplete ..)
  | .conn (.recvFail ..) | .conn (.tick ..) | .conn (.check ..) | .conn (.submit ..) | .conn .accept
  | .conn .acceptConnecting | .conn (.acceptMempool _) | .conn (.acceptPost _)
  | .disconnected _ => isTrue trivial

instance : (e : SessionEvent) → Decidable e.AppSends
  | .conn e => inferInstanceAs (Decidable (HmrRpc.AppSends e))
  | .disconnected _ => isTrue trivial

section Session

variable {c c' : Connection} {s : Side}

/-- Releasing a pool does not change the MR it was announced by. -/
theorem ownMr_released (t : HmrRdmaTransport) :
    HmrRdmaTransport.ownMr { t.qpDestroyed with
      normalMempool := hmrMempoolRelease t.normalMempool } = t.ownMr := by
  simp only [HmrRdmaTransport.ownMr, hmrMempoolRelease, Option.map_map]
  rfl

/-- Every event of the session keeps a connection sound. -/
theorem SoundConnection.session {e : SessionEvent} (h : SoundConnection c)
    (hstep : sessionStep c e = some c') : SoundConnection c' := by
  cases sessionStep_cases hstep with
  | conn e _ hstep => exact h.step hstep
  | disconnected s t hhandler =>
    obtain rfl := onCmDisconnected_eq hhandler
    exact h.setTrans (ownMr_released _) (h.recvs s)

/-- And it keeps what ties the keys to the MRs. -/
theorem KeyedConnection.session {e : SessionEvent} (h : KeyedConnection c) (happ : e.AppSends)
    (hticks : SessionTicksNoMr c e) (hstep : sessionStep c e = some c') : KeyedConnection c' := by
  cases sessionStep_cases hstep with
  | conn e _ hstep => exact h.step happ hticks hstep
  | disconnected s t hhandler =>
    obtain rfl := onCmDisconnected_eq hhandler
    have hown := ownMr_released (c.trans s)
    exact h.setTrans hown ((h.ends s).of_same hown rfl rfl ⟨rfl, rfl, rfl⟩ (h.ends s).ready)
      (h.recvs s) le_rfl

end Session

end HmrRpc
