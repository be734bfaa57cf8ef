import HmrRpc.GracefulClose
import HmrRpc.KeptBuffers

/-!
# Every message arrives once and in order

The end-to-end service of a connection, over every interleaving of the two parties. What
`process_resp` is handed are the messages the peer accepted, in their order and with their bytes,
and the others are still on the way. This needs no assumption about what the HCA reads: the
frames under way are found in their buffers, because no message is encoded over one of them.
-/

namespace HmrRpc

open Common

/-- The tasks the HCA has still to read for a SEND: those queued, and those of the requests behind
the first `k` frames of the wire. -/
def HmrRdmaTransport.unread (t : HmrRdmaTransport) (k : ℕ) : List HmrTask :=
  t.sendTaskList ++
    (t.sends.drop (t.sends.length - (t.qp.encoded.length - k))).map IbvSendWr.wrId

/-- Those whose frames have not reached the peer. -/
def CloseState.unread (g : CloseState) (s : Side) : List HmrTask :=
  (g.trans s).unread (g.inbox s.peer).length

/-- On each side the messages handed over are the first its peer accepted, in order; the others are
those posted and then those queued, of the former the first have arrived, and the HCA finds the rest
in their buffers. -/
structure Delivered (g : CloseState) : Prop where
  handed : ∀ s, List.Forall₂ SameMessage
    ((g.accepted s.peer).take (g.trans s).responses.length) (g.trans s).responses
  underWay : ∀ s, ((g.accepted s.peer).drop (g.trans s).responses.length).map HmrMsg.frame =
    appFrames (g.trans s.peer).qp.encoded ++ (g.trans s.peer).queuedFrames
  arrived : ∀ s, List.Forall₂ Frame.Carries (g.inbox s)
    ((g.trans s.peer).qp.encoded.take (g.inbox s).length)
  intact : ∀ s pool, (g.trans s).normalMempool = some pool →
    ∀ task ∈ g.unread s, task.Intact pool.memory

/-- The message that an event encodes into a send ring, and the side that does. -/
def CloseState.encodes (g : CloseState) : CloseEvent → Option (Side × HmrMsg)
  | .conn (.recvComplete s _) =>
    ((g.inbox s).head?.bind fun frame =>
      (g.trans s).answerTo (receivedType frame.byte)).map fun msg => (s, msg)
  | .conn (.submit s i _) => (g.conn.ends s).checked[i]?.map fun msg => (s, msg)
  | .conn (.established s _) =>
    if (g.trans s).isClient then (g.trans s).ownMr.map fun mr => (s, mrMsg mr) else none
  | _ => none

/-- Besides, every message an event encodes meets the condition. -/
def OrderlyIf (ok : ℤ → List HmrTask → HmrMsg → Prop) (g : CloseState) (e : CloseEvent) : Prop :=
  Attentive g e ∧ ∀ s msg, g.encodes e = some (s, msg) → (g.trans s).Takes ok (g.unread s) msg

/-- No message is encoded over one that is still to be read. -/
abbrev Orderly : CloseState → CloseEvent → Prop := OrderlyIf HmrMsg.Clear

instance (cursor : ℤ) (live : List HmrTask) (msg : HmrMsg) : Decidable (msg.Clear cursor live) :=
  decidable_of_iff ((0 ≤ msg.dataSize.toInt ∧ 8 + msg.dataSize.toInt ≤ allocMemSize) ∧
    ∀ task ∈ live,
      ¬(ringPlace allocMemSize cursor (8 + msg.dataSize.toInt) ≤ task.sgeList.addr ∧
        task.sgeList.addr < ringPlace allocMemSize cursor (8 + msg.dataSize.toInt) +
          (8 + msg.dataSize.toInt))) Iff.rfl

instance (ok : ℤ → List HmrTask → HmrMsg → Prop) [∀ cursor live msg, Decidable (ok cursor live msg)]
    (g : CloseState) (e : CloseEvent) : Decidable (OrderlyIf ok g e) :=
  decidable_of_iff (Attentive g e ∧ ∀ p ∈ g.encodes e, ∀ pool ∈ (g.trans p.1).normalMempool,
    ok pool.usedSendRegion (g.unread p.1) p.2)
    ⟨fun h => ⟨h.1, fun s msg hsome pool hpool => h.2 (s, msg) hsome pool hpool⟩,
      fun h => ⟨h.1, fun p hsome pool hpool => h.2 p.1 p.2 hsome pool hpool⟩⟩

instance (wr : IbvRecvWr) : Decidable wr.InRegion := inferInstanceAs (Decidable (_ ∧ _))

/-- The cursors of the pools are in their regions, and so are the receives. -/
structure CloseState.LaidOut (g : CloseState) : Prop where
  recvSize : ∀ s, 0 ≤ (g.trans s).defaultRecvSize ∧ (g.trans s).defaultRecvSize ≤ allocMemSize
  recvs : ∀ s, ∀ wr ∈ (g.trans s).qp.rq, wr.InRegion
  sendCursor : ∀ s pool, (g.trans s).normalMempool = some pool →
    0 ≤ pool.usedSendRegion ∧ pool.usedSendRegion ≤ allocMemSize
  recvCursor : ∀ s pool, (g.trans s).normalMempool = some pool →
    0 ≤ pool.usedRecvRegion ∧ pool.usedRecvRegion ≤ allocMemSize

/-- The frames of the completion queue fit the receives they will take. -/
def FitRecvs (inbox : List Frame) (rq : List IbvRecvWr) : Prop :=
  List.Forall₂ (fun frame wr => frame.length ≤ wr.sgList.length) inbox (rq.take inbox.length)

/-- The messages of both sides on their way, with the frames under way in their buffers. -/
structure DeliveryInv (P : Holding) (g : CloseState) : Prop where
  recvs : ∀ s, (g.trans s).RecvsMatch
  flow : ∀ s, MessageFlow (g.accepted s) (g.trans s) (g.inbox s.peer) (g.trans s.peer).responses
  fits : ∀ s, FitRecvs (g.inbox s) (g.trans s).qp.rq
  kept : ∀ s, (g.trans s).Keeps P (g.unread s)
  filled : ∀ s, ∀ wr ∈ (g.trans s).qp.sendLog, wr.Filled
  unbacked : (∀ left, g.conn.accept ≠ .posting left) → (g.trans .server).ownMr = none

section Unread

variable {t t' : HmrRdmaTransport} {new : List HmrTask} {k : ℕ}

/-- A step has no more to be read than before, and its new tasks. -/
theorem SendsNew.unread (h : SendsNew t t' new) (hk : k ≤ t.qp.encoded.length) :
    t'.unread k ⊆ t.unread k ++ new := by
  obtain ⟨chain, hlog, hwire, hchain⟩ := h.posts
  have hsends : t'.sends = t.sends ++ chain.filter fun wr => wr.opcode = .send := by
    rw [HmrRdmaTransport.sends, hlog, List.filter_append]
    rfl
  have hlength : t'.qp.encoded.length = t.qp.encoded.length +
      (chain.filter fun wr => wr.opcode = .send).length := by
    rw [hwire, List.length_append, length_encodedFrames, List.countP_eq_length_filter]
  have hindex : t'.sends.length - (t'.qp.encoded.length - k) =
      t.sends.length - (t.qp.encoded.length - k) := by
    rw [hsends, List.length_append, hlength]
    omega
  have hlist : t.sendTaskList ++ new ⊆ t.unread k ++ new := by
    rw [HmrRdmaTransport.unread, List.append_assoc]
    exact List.append_subset.mpr ⟨List.subset_append_left _ _,
      List.subset_append_of_subset_right _ (List.subset_append_right _ _)⟩
  rw [HmrRdmaTransport.unread, hindex, hsends, List.drop_append_of_le_length (Nat.sub_le _ _),
    List.map_append]
  refine List.append_subset.mpr ⟨List.Subset.trans h.list hlist, List.append_subset.mpr ⟨?_, ?_⟩⟩
  · exact List.subset_append_of_subset_left _ (List.subset_append_right _ _)
  · intro task htask
    obtain ⟨wr, hwr, rfl⟩ := List.mem_map.mp htask
    exact hlist (hchain wr (List.mem_filter.mp hwr).1).1

/-- A frame that has reached the peer has been read. -/
theorem unread_anti (t : HmrRdmaTransport) {k k' : ℕ} (hk : k ≤ k') : t.unread k' ⊆ t.unread k := by
  have hindex : t.sends.length - (t.qp.encoded.length - k) ≤
      t.sends.length - (t.qp.encoded.length - k') := by omega
  refine List.append_subset.mpr ⟨List.subset_append_left _ _, ?_⟩
  exact List.subset_append_of_subset_right _
    (List.map_subset _ (List.drop_subset_drop_left _ hindex))

/-- A handled frame had been read. -/
theorem wireTaken_unread (t : HmrRdmaTransport) (k : ℕ) :
    t.wireTaken.unread k = t.unread (k + 1) := by
  have hsends : t.wireTaken.sends = t.sends := rfl
  have hwire : t.wireTaken.qp.encoded.length - k = t.qp.encoded.length - (k + 1) := by
    rw [HmrRdmaTransport.wireTaken, List.length_tail]
    omega
  rw [HmrRdmaTransport.unread, HmrRdmaTransport.unread, hsends, hwire]
  rfl

end Unread

section FitRecvs

variable {inbox : List Frame} {rq rq' : List IbvRecvWr} {frame : Frame} {wr : IbvRecvWr}

/-- There is a receive for each frame. -/
theorem FitRecvs.length_le (h : FitRecvs inbox rq) : inbox.length ≤ rq.length := by
  have hlength := h.length_eq
  rw [List.length_take] at hlength
  omega

/-- More receives leave them where they are. -/
theorem FitRecvs.mono (h : FitRecvs inbox rq) (hpre : rq <+: rq') : FitRecvs inbox rq' := by
  obtain ⟨rest, rfl⟩ := hpre
  rwa [FitRecvs, List.take_append_of_le_length h.length_le]

/-- The first frame takes the first receive. -/
theorem FitRecvs.head (h : FitRecvs (frame :: inbox) rq) :
    (∀ wr, rq.head? = some wr → frame.length ≤ wr.sgList.length) ∧ FitRecvs inbox rq.tail := by
  cases rq with
  | nil => nomatch h.length_le
  | cons wr rest =>
    have hboth := List.forall₂_cons.mp h
    exact ⟨fun wr' hwr' => Option.some.inj hwr' ▸ hboth.1, hboth.2⟩

/-- A frame may follow if it fits the next receive. -/
theorem FitRecvs.concat (h : FitRecvs inbox rq) (hwr : rq[inbox.length]? = some wr)
    (hfit : frame.length ≤ wr.sgList.length) : FitRecvs (inbox ++ [frame]) rq := by
  rw [FitRecvs, List.length_append, List.length_singleton, List.take_add_one, hwr]
  exact List.rel_append h (.cons hfit .nil)

/-- Posting a receive leaves the others first. -/
theorem PostRecvResult.rqGrows {o : Outcomes} {t t' : HmrRdmaTransport} {size : ℤ}
    (hpost : PostRecvResult o t size t') : t.qp.rq <+: t'.qp.rq := by
  rcases hpost.rq with hsame | ⟨task, happ⟩
  · rw [hsame]
  · rw [happ]
    exact List.prefix_append _ _

end FitRecvs

section Steps

variable {P : Holding} {ok : ℤ → List HmrTask → HmrMsg → Prop} {g g' : CloseState} {s : Side}
  {o : Outcomes} {t : HmrRdmaTransport}

/-- The requests of a step are posted filled. -/
theorem SendsNew.filled {u : HmrRdmaTransport} {new : List HmrTask} (h : SendsNew u t new)
    (hu : ∀ wr ∈ u.qp.sendLog, wr.Filled) : ∀ wr ∈ t.qp.sendLog, wr.Filled := by
  obtain ⟨chain, hlog, -, hchain⟩ := h.posts
  intro wr hwr
  rw [hlog] at hwr
  exact (List.mem_append.mp hwr).elim (hu wr) fun hnew => (hchain wr hnew).2

/-- The receives are as they were. -/
theorem DeliveryInv.sameRecvs (h : DeliveryInv P g) (hrq : t.qp.rq = (g.trans s).qp.rq) :
    t.RecvsMatch ∧ FitRecvs (g.inbox s) t.qp.rq :=
  ⟨fun wr hwr => h.recvs s wr (hrq ▸ hwr), hrq ▸ h.fits s⟩

/-- Steps of one side that hand nothing over keep the invariant when its pool keeps what is to be
read. -/
theorem DeliveryInv.oneSide (hkeptIf : P.KeptIf ok) (h : DeliveryInv P g) (new : List HmrMsg)
    (hself : g'.trans s = t) (hpeer : g'.trans s.peer = g.trans s.peer)
    (hinbox : g'.inbox = g.inbox)
    (hnew : g'.accepted = Function.update g.accepted s (g.accepted s ++ new))
    (haccept : (∀ left, g'.conn.accept ≠ .posting left) → t.ownMr = (g.trans s).ownMr ∧
      ∀ left, g.conn.accept ≠ .posting left)
    (hresponses : t.responses = (g.trans s).responses)
    (hrecvs : t.RecvsMatch ∧ FitRecvs (g.inbox s) t.qp.rq)
    (hflow : MessageFlow (g.accepted s ++ new) t (g.inbox s.peer) (g.trans s.peer).responses)
    (hkept : ∃ tasks, SendsNew (g.trans s) t tasks ∧ t.Keeps P (g.unread s ++ tasks)) :
    DeliveryInv P g' := by
  have haccepted : g'.accepted s = g.accepted s ++ new := by rw [hnew, Function.update_self]
  have haccepted' : g'.accepted s.peer = g.accepted s.peer := by
    rw [hnew, Function.update_of_ne s.peer_ne]
  obtain ⟨tasks, hsends, hkeeps⟩ := hkept
  refine ⟨fun r => ?_, fun r => ?_, fun r => ?_, fun r => ?_, fun r => ?_, fun hphase => ?_⟩
  · rcases s.eq_or_peer r with rfl | rfl
    · rw [hself]
      exact hrecvs.1
    · rw [hpeer]
      exact h.recvs s.peer
  · rcases s.eq_or_peer r with rfl | rfl
    · rw [haccepted, hself, hinbox, hpeer]
      exact hflow
    · have hsame : (g'.trans s.peer.peer).responses = (g.trans s.peer.peer).responses := by
        rw [Side.peer_peer, hself, hresponses]
      rw [haccepted', hpeer, hinbox, hsame]
      exact h.flow s.peer
  · rcases s.eq_or_peer r with rfl | rfl
    · rw [hself, hinbox]
      exact hrecvs.2
    · rw [hpeer, hinbox]
      exact h.fits s.peer
  · rcases s.eq_or_peer r with rfl | rfl
    · rw [CloseState.unread, hself, hinbox]
      exact hkeeps.mono hkeptIf (hsends.unread (h.flow r).inbox_le)
    · rw [CloseState.unread, hpeer, hinbox]
      exact h.kept s.peer
  · rcases s.eq_or_peer r with rfl | rfl
    · rw [hself]
      exact hsends.filled (h.filled r)
    · rw [hpeer]
      exact h.filled s.peer
  · obtain ⟨hown, hbefore⟩ := haccept hphase
    rcases s.eq_or_peer .server with hs | hs
    · rw [hs, hself, hown, ← hs]
      exact h.unbacked hbefore
    · rw [hs, hpeer, ← hs]
      exact h.unbacked hbefore

/-- So do those that accept nothing. -/
theorem DeliveryInv.setConn {conn : Connection} (hkeptIf : P.KeptIf ok) (h : DeliveryInv P g)
    (hself : conn.trans s = t) (hpeer : conn.trans s.peer = g.trans s.peer)
    (haccept : (∀ left, conn.accept ≠ .posting left) → t.ownMr = (g.trans s).ownMr ∧
      ∀ left, g.conn.accept ≠ .posting left)
    (hresponses : t.responses = (g.trans s).responses)
    (hrecvs : t.RecvsMatch ∧ FitRecvs (g.inbox s) t.qp.rq)
    (hflow : MessageFlow (g.accepted s) t (g.inbox s.peer) (g.trans s.peer).responses)
    (hkept : ∃ tasks, SendsNew (g.trans s) t tasks ∧ t.Keeps P (g.unread s ++ tasks)) :
    DeliveryInv P { g with conn := conn } :=
  h.oneSide hkeptIf [] hself hpeer rfl (by simp) haccept hresponses hrecvs
    (by rwa [List.append_nil]) hkept

/-- And those that send nothing. -/
theorem DeliveryInv.silent {conn : Connection} (hkeptIf : P.KeptIf ok) (h : DeliveryInv P g)
    (hself : conn.trans s = t) (hpeer : conn.trans s.peer = g.trans s.peer)
    (haccept : (∀ left, conn.accept ≠ .posting left) → t.ownMr = (g.trans s).ownMr ∧
      ∀ left, g.conn.accept ≠ .posting left)
    (hresponses : t.responses = (g.trans s).responses)
    (hrecvs : t.RecvsMatch ∧ FitRecvs (g.inbox s) t.qp.rq)
    (hsends : t.sendTaskList = (g.trans s).sendTaskList ∧ t.qp.underWay = (g.trans s).qp.underWay ∧
      t.qp.sendLog = (g.trans s).qp.sendLog)
    (hsq : t.qp.sq.Sublist (g.trans s).qp.sq) (hkeeps : t.Keeps P (g.unread s)) :
    DeliveryInv P { g with conn := conn } := by
  obtain ⟨hlist, hwire, hlog⟩ := hsends
  refine h.setConn hkeptIf hself hpeer haccept hresponses hrecvs
    ((h.flow s).of_same ⟨hlist, hwire, hlog⟩ hsq) ⟨[], .of_same hlist hwire hlog, ?_⟩
  rwa [List.append_nil]

/-- A handled frame makes its side encode the answer. -/
theorem encodes_received {frame : Frame} {rest : List Frame} {msg : HmrMsg}
    (hinbox : g.inbox s = frame :: rest)
    (hanswer : (g.trans s).answerTo (receivedType frame.byte) = some msg) :
    g.encodes (.conn (.recvComplete s o)) = some (s, msg) := by
  rw [CloseState.encodes, hinbox, List.head?_cons, Option.bind_some, hanswer]
  rfl

/-- A handled ESTABLISHED makes a client encode its MR. -/
theorem encodes_established {mr : IbvMr} (hclient : (g.trans s).isClient)
    (hmr : (g.trans s).ownMr = some mr) :
    g.encodes (.conn (.established s o)) = some (s, mrMsg mr) := by
  rw [CloseState.encodes, if_pos hclient, hmr, Option.map_some]

/-- A receive completion takes the first receive and leaves the others first. -/
theorem recvComplete_rq {u : HmrRdmaTransport} {frame : Frame} {status : IbvWcStatus}
    (hdata : dataStep u (.recvComplete frame status o) = some t) : u.qp.rq.tail <+: t.qp.rq := by
  cases dataStep_recvComplete hdata with
  | flushed => exact List.prefix_rfl
  | received wr pool v _ _ _ hbody hrepost =>
    have hrq : v.qp.rq = u.qp.rq.tail := hbody.rq
    rw [← hrq]
    exact hrepost.rqGrows

/-- A received message keeps the invariant if it is handed over and its answer meets the
condition. -/
theorem DeliveryInv.received {frame : Frame} {rest : List Frame} (hkeptIf : P.KeptIf ok)
    (h : DeliveryInv P g) (hinbox : g.inbox s = frame :: rest)
    (hresp : frame.forApp → (g.trans s).processResp)
    (hok : ∀ msg, (g.trans s).answerTo (receivedType frame.byte) = some msg →
      (g.trans s).Takes ok (g.unread s) msg)
    (hdata : dataStep (g.trans s) (.recvComplete frame .success o) = some t) :
    DeliveryInv P (g.polled s rest t) := by
  have hflow : MessageFlow (g.accepted s.peer) (g.trans s.peer) (frame :: rest)
      (g.trans s).responses := by
    have hflow := h.flow s.peer
    rwa [Side.peer_peer, hinbox] at hflow
  obtain ⟨encoded, -, -, hcarries, hlen⟩ := hflow.first
  have hlen : sizeofMsgType ≤ frame.length := hcarries.length ▸ hlen
  have hears := recvComplete_hears (h.recvs s) hlen hdata
  have hfits := h.fits s
  rw [hinbox] at hfits
  obtain ⟨hfit, hfits⟩ := hfits.head
  obtain ⟨tasks, hsends, hkeeps⟩ := recvComplete_keeps hkeptIf (h.kept s) (h.recvs s)
    (fun _ => hlen) (fun _ => hfit) (fun _ => hok) hdata
  have hread : (g.trans s.peer).wireTaken.unread rest.length = g.unread s.peer := by
    rw [wireTaken_unread, CloseState.unread, Side.peer_peer, hinbox, List.length_cons]
  refine ⟨fun r => ?_, fun r => ?_, fun r => ?_, fun r => ?_, fun r => ?_, fun hphase => ?_⟩
  · rcases s.eq_or_peer r with rfl | rfl
    · rw [polled_trans_self]
      exact dataStep_recvsMatch (h.recvs r) hdata
    · rw [polled_trans_peer]
      exact h.recvs s.peer
  · rcases s.eq_or_peer r with rfl | rfl
    · rw [polled_trans_self, polled_trans_peer, polled_inbox_peer, polled_accepted_self]
      exact (h.flow r).recvComplete hdata
    · rw [Side.peer_peer, polled_trans_self, polled_trans_peer, polled_inbox_self,
        polled_accepted_peer]
      exact hflow.hears hresp hears
  · rcases s.eq_or_peer r with rfl | rfl
    · rw [polled_trans_self, polled_inbox_self]
      exact hfits.mono (recvComplete_rq hdata)
    · rw [polled_trans_peer, polled_inbox_peer]
      exact h.fits s.peer
  · rcases s.eq_or_peer r with rfl | rfl
    · rw [CloseState.unread, polled_trans_self, polled_inbox_peer]
      exact hkeeps.mono hkeptIf (hsends.unread (h.flow r).inbox_le)
    · rw [CloseState.unread, polled_trans_peer, Side.peer_peer, polled_inbox_self, hread]
      exact (h.kept s.peer).of_same rfl (List.Subset.refl _) rfl
  · rcases s.eq_or_peer r with rfl | rfl
    · rw [polled_trans_self]
      exact hsends.filled (h.filled r)
    · rw [polled_trans_peer]
      exact h.filled s.peer
  · have hunbacked := h.unbacked hphase
    rcases s.eq_or_peer .server with hs | hs
    · rw [hs, polled_trans_self, dataStep_ownMr hdata]
      exact hs ▸ hunbacked
    · rw [hs, polled_trans_peer]
      exact hs ▸ hunbacked

/-- The HCA finds a task to be read in its buffer. -/
theorem HmrRdmaTransport.Keeps.carries {live : List HmrTask} {wr : IbvSendWr} {frame : Frame}
    (hkeptIf : P.KeptIf ok) (h : t.Keeps P live) (hlive : wr.wrId ∈ live) (hfilled : wr.Filled)
    (hread : t.hcaRead wr = some frame) : frame.Carries wr.wrId.frame := by
  obtain ⟨pool, hpool, rfl⟩ := Option.map_eq_some_iff.mp hread
  have hring := hkeptIf.ring (h.held pool hpool)
  rw [HmrMempool.hcaRead, hfilled.1]
  exact hring.carries hlive

/-- So no queued message holds an MR. -/
theorem DeliveryInv.queuesNoMr (hkeptIf : P.KeptIf ok) (h : DeliveryInv P g) (s : Side) :
    (g.trans s).QueuesNoMr := by
  intro pool hpool task htask _
  have hring := hkeptIf.ring ((h.kept s).held pool hpool)
  have hcarries := hring.carries (List.mem_append_left _ htask : task ∈ g.unread s)
  obtain ⟨hencoded, hmr⟩ := (h.flow s).queued task htask
  have htype := hcarries.receivedType hencoded.length
  exact ⟨hencoded.length.trans_eq hcarries.length.symm, by rwa [htype, hencoded.taskType]⟩

/-- And it finds the next frame. -/
theorem DeliveryInv.carries {wr : IbvSendWr} {frame : Frame} (hkeptIf : P.KeptIf ok)
    (h : DeliveryInv P g) (hnext : g.nextSend s = some wr)
    (hread : (g.trans s).hcaRead wr = some frame) : frame.Carries wr.wrId.frame := by
  obtain ⟨-, hwr⟩ := Option.ite_none_right_eq_some.mp hnext
  have hunread : wr.wrId ∈ g.unread s := by
    refine List.mem_append_right _ (List.mem_map_of_mem ?_)
    rw [← List.head?_drop] at hwr
    exact List.mem_of_mem_head? hwr
  have hlog : wr ∈ (g.trans s).qp.sendLog := (List.mem_filter.mp (List.mem_of_getElem? hwr)).1
  exact (h.kept s).carries hkeptIf hunread (h.filled s wr hlog) hread

/-- A frame that reaches a completion queue keeps the invariant. -/
theorem DeliveryInv.delivered {wr : IbvSendWr} {frame : Frame} (hkeptIf : P.KeptIf ok)
    (h : DeliveryInv P g) (hnext : g.nextSend s.peer = some wr)
    (hread : (g.trans s.peer).hcaRead wr = some frame)
    (hfits : FitRecvs (g.inbox s ++ [frame]) (g.trans s).qp.rq) :
    DeliveryInv P { g with inbox := Function.update g.inbox s (g.inbox s ++ [frame]) } := by
  have hflow :=
    (h.flow s.peer).deliver ((h.flow s.peer).nextSend hnext) (h.carries hkeptIf hnext hread)
  rw [Side.peer_peer] at hflow
  have hpeer : (Function.update g.inbox s (g.inbox s ++ [frame])) s.peer = g.inbox s.peer :=
    Function.update_of_ne s.peer_ne ..
  refine ⟨h.recvs, fun r => ?_, fun r => ?_, fun r => ?_, h.filled, h.unbacked⟩
  · rcases s.eq_or_peer r with rfl | rfl
    · simpa [CloseState.trans] using h.flow r
    · simpa [CloseState.trans] using hflow
  · rcases s.eq_or_peer r with rfl | rfl
    · simpa [CloseState.trans] using hfits
    · simpa [CloseState.trans] using h.fits s.peer
  · rcases s.eq_or_peer r with rfl | rfl
    · refine (h.kept r).mono hkeptIf (unread_anti _ ?_)
      change (g.inbox r.peer).length ≤ (Function.update g.inbox r _ r.peer).length
      rw [hpeer]
    · refine (h.kept s.peer).mono hkeptIf (unread_anti _ ?_)
      change (g.inbox s.peer.peer).length ≤ (Function.update g.inbox s _ s.peer.peer).length
      rw [Side.peer_peer, Function.update_self, List.length_append]
      exact Nat.le_add_right _ _

/-- A receive fails only when there is nothing to take. -/
theorem closeStep_recvFail {status : IbvWcStatus}
    (hstep : closeStep g (.conn (.recvFail s status o)) = some g') : g.inbox s = [] := by
  obtain ⟨hempty, -⟩ := Option.ite_none_right_eq_some.mp hstep
  exact List.isEmpty_iff.mp hempty.2

/-- It had a receive to take. -/
theorem closeStep_deliver {wr : IbvSendWr} {frame : Frame}
    (hfits : FitRecvs (g.inbox s) (g.trans s).qp.rq)
    (hnext : g.nextSend s.peer = some wr) (hread : (g.trans s.peer).hcaRead wr = some frame)
    (hstep : closeStep g (.deliver s) = some g') :
    FitRecvs (g.inbox s ++ [frame]) (g.trans s).qp.rq := by
  obtain ⟨-, hstep⟩ := Option.ite_none_right_eq_some.mp hstep
  rw [hnext, Option.bind_some, hread, Option.bind_some] at hstep
  obtain ⟨recv, hrecv, hstep⟩ := Option.bind_eq_some_iff.mp hstep
  obtain ⟨hfit, -⟩ := Option.ite_none_right_eq_some.mp hstep
  exact hfits.concat hrecv hfit

/-- The server gets its pool while it has nothing to be read. -/
theorem DeliveryInv.acceptMempool (hkeptIf : P.KeptIf ok) (hunused : P.OfUnused) (h : DeliveryInv P g)
    (m : MempoolOutcomes) (hphase : g.conn.accept = .connecting) {left : ℕ} :
    DeliveryInv P { g with conn := { g.conn.setTrans .server
      (HmrRpc.acceptMempool m (g.trans .server)) with accept := .posting left } } := by
  have hown := h.unbacked fun left => by simp [hphase]
  have hnone : g.unread .server = [] := (h.kept .server).unbacked (Option.map_eq_none_iff.mp hown)
  refine h.silent (s := .server) hkeptIf rfl rfl (fun hne => absurd rfl (hne left)) rfl
    ⟨h.recvs .server, h.fits .server⟩ ⟨rfl, rfl, rfl⟩ (.refl _) ?_
  rw [hnone]
  refine ⟨(h.kept .server).recvSize, (h.kept .server).recvs, fun _ => rfl, fun pool hpool => ?_,
    fun pool hpool => ?_⟩
  · rw [(hmrMempoolCreate_eq_some hpool).2.1]
    decide
  · rw [(hmrMempoolCreate_eq_some hpool).1]
    exact hunused (by decide)

/-- The events of the connection that poll and submit nothing keep the invariant. -/
theorem DeliveryInv.other {e : ConnectionEvent} {conn : Connection} (hkeptIf : P.KeptIf ok)
    (hunused : P.OfUnused) (h : DeliveryInv P g) (he : e.Unpolled) (horderly : OrderlyIf ok g (.conn e))
    (hresult : ConnectionResult g.conn e conn) : DeliveryInv P { g with conn := conn } := by
  cases hresult with
  | established s o t _ hhandler =>
    obtain ⟨-, hown, hrq, -⟩ := onCmEstablished_frame hhandler
    have hconnected : MessageFlow (g.accepted s) { g.trans s with transState := .connected }
        (g.inbox s.peer) (g.trans s.peer).responses :=
      (h.flow s).of_same ⟨rfl, rfl, rfl⟩ (.refl _)
    have hkept :
        HmrRdmaTransport.Keeps P { g.trans s with transState := .connected } (g.unread s) :=
      (h.kept s).of_same rfl (List.Subset.refl _) rfl
    have hrecvs := h.sameRecvs hrq
    rcases onCmEstablished_cases hhandler with ⟨-, rfl⟩ | ⟨hclient, pool, r, hpool, hsend⟩
    · exact h.silent hkeptIf (setEnd_self ..) (setEnd_peer ..) (fun hne => ⟨hown, hne⟩) rfl hrecvs
        ⟨rfl, rfl, rfl⟩ (.refl _) hkept
    · have hmr : (g.trans s).ownMr = some pool.rdmaMr :=
        congrArg (Option.map HmrMempool.rdmaMr) hpool
      have hok := horderly.2 s (mrMsg pool.rdmaMr) (encodes_established hclient hmr)
      obtain ⟨tasks, hsends, hkeeps⟩ := hsend.keeps hkeptIf hkept hok
      exact h.setConn hkeptIf (setEnd_self ..) (setEnd_peer ..) (fun hne => ⟨hown, hne⟩)
        (congrArg Prod.fst hsend.receiverSide) hrecvs (hconnected.sendMr hsend)
        ⟨tasks, ⟨hsends.list, hsends.posts⟩, hkeeps⟩
  | tick s a t hdata =>
    have hresult := dataStep_tick hdata
    have hside : t.responses = (g.trans s).responses ∧ t.qp.rq = (g.trans s).qp.rq := by
      cases hresult <;> exact ⟨rfl, rfl⟩
    refine h.setConn hkeptIf (setTrans_self ..) (setTrans_peer ..)
      (fun hne => ⟨dataStep_ownMr hdata, hne⟩) hside.1 (h.sameRecvs hside.2)
      ((h.flow s).tick hresult ?_) ⟨[], hresult.sendsNew, ?_⟩
    · rintro k rfl
      exact horderly.1
    · rw [List.append_nil]
      exact hresult.keeps (h.kept s)
  | check s msg =>
    exact h.silent hkeptIf (setEnd_self ..) (setEnd_peer ..) (fun hne => ⟨rfl, hne⟩) rfl
      (h.sameRecvs rfl) ⟨rfl, rfl, rfl⟩ (.refl _) (h.kept s)
  | accept hphase =>
    exact h.silent (s := .server) hkeptIf rfl rfl (fun _ => ⟨rfl, by simp [hphase]⟩) rfl
      (h.sameRecvs rfl) ⟨rfl, rfl, rfl⟩ (.refl _) (h.kept .server)
  | acceptConnecting hphase =>
    exact h.silent (s := .server) hkeptIf rfl rfl (fun _ => ⟨rfl, by simp [hphase]⟩) rfl
      (h.sameRecvs rfl) ⟨rfl, rfl, rfl⟩ (.refl _)
      ((h.kept .server).of_same rfl (List.Subset.refl _) rfl)
  | acceptMempool m hphase => exact h.acceptMempool hkeptIf hunused m hphase
  | acceptPost o left t _ hpost =>
    obtain ⟨hlist, hsq, hwire, hlog⟩ := hpost.sends
    exact h.silent hkeptIf (s := .server) rfl rfl (fun hne => absurd rfl (hne left))
      (congrArg Prod.fst hpost.receiverSide)
      ⟨hpost.recvsMatch (h.recvs .server), (h.fits .server).mono hpost.rqGrows⟩ ⟨hlist, hwire, hlog⟩
      (hsq ▸ .refl _) (hpost.keeps (h.kept .server))
  | _ => exact he.elim

/-- A send completion keeps the invariant. -/
theorem DeliveryInv.sent {i : ℕ} {status : IbvWcStatus} (hkeptIf : P.KeptIf ok)
    (h : DeliveryInv P g) (hdata : dataStep (g.trans s) (.sendComplete i status o) = some t) :
    DeliveryInv P { g with conn := g.conn.setTrans s t } := by
  obtain ⟨hpool, hlist, -, hqp⟩ := dataStep_sendComplete_frame hdata
  have hsame : t.defaultRecvSize = (g.trans s).defaultRecvSize ∧
      t.responses = (g.trans s).responses := by
    obtain ⟨wr, -, rfl⟩ := dataStep_sendComplete hdata
    split
    · exact ⟨sendCompleted_preserves _ _ _ (fun _ => rfl) (fun _ => rfl) fun _ => rfl,
        sendCompleted_preserves _ _ _ (fun _ => rfl) (fun _ => rfl) fun _ => rfl⟩
    · exact ⟨rfl, rfl⟩
  refine h.silent hkeptIf (setTrans_self ..) (setTrans_peer ..)
    (fun hne => ⟨dataStep_ownMr hdata, hne⟩) hsame.2 (h.sameRecvs (by rw [hqp]; rfl))
    ⟨hlist, by rw [hqp]; rfl, by rw [hqp]; rfl⟩ ?_ ((h.kept s).of_same hsame.1 ?_ hpool)
  · rw [hqp]
    exact List.eraseIdx_sublist _ _
  · rw [hqp]
    exact List.Subset.refl _

/-- Handling DISCONNECTED keeps the invariant. -/
theorem DeliveryInv.disconnected (hkeptIf : P.KeptIf ok) (h : DeliveryInv P g)
    (hhandler : onCmDisconnected (g.trans s) = .ok t) :
    DeliveryInv P { g with conn := g.conn.setTrans s t } := by
  have hkeeps := (h.kept s).disconnected hhandler
  obtain rfl := onCmDisconnected_eq hhandler
  refine h.silent hkeptIf (setTrans_self ..) (setTrans_peer ..) (fun hne => ⟨?_, hne⟩) rfl
    (h.sameRecvs rfl) ⟨rfl, rfl, rfl⟩ (.refl _) hkeeps
  simp only [HmrRdmaTransport.ownMr, hmrMempoolRelease, Option.map_map]
  rfl

/-- Every orderly event keeps the invariant. -/
theorem DeliveryInv.step {e : CloseEvent} (hkeptIf : P.KeptIf ok) (hunused : P.OfUnused)
    (h : DeliveryInv P g)
    (horderly : OrderlyIf ok g e) (hstep : closeStep g e = some g') : DeliveryInv P g' := by
  cases closeStep_cases hstep with
  | received s o frame rest t hinbox hdata =>
    exact h.received hkeptIf hinbox (horderly.1 frame (by rw [hinbox]; rfl))
      (fun msg hanswer => horderly.2 s msg (encodes_received hinbox hanswer)) hdata
  | recvFailed s status o t hstatus hdata =>
    have hrecvs := dataStep_recvsMatch (h.recvs s) hdata
    have hfits := h.fits s
    rw [closeStep_recvFail hstep] at hfits
    cases dataStep_recvComplete hdata with
    | flushed =>
      refine h.silent hkeptIf (setTrans_self ..) (setTrans_peer ..) (fun hne => ⟨rfl, hne⟩) rfl
        ⟨hrecvs, ?_⟩ ⟨rfl, rfl, rfl⟩ (.refl _) ((h.kept s).of_same rfl (List.tail_subset _) rfl)
      rw [closeStep_recvFail hstep]
      exact .nil
    | received => exact absurd rfl hstatus
  | sent s i status o t _ hdata => exact h.sent hkeptIf hdata
  | submitted s i o msg t hmsg hsubmit =>
    have hok := horderly.2 s msg (by rw [CloseState.encodes, hmsg, Option.map_some])
    exact h.oneSide hkeptIf _ (setEnd_self ..) (setEnd_peer ..) rfl rfl
      (fun hne => ⟨hsubmit.ownMr, hne⟩) (congrArg Prod.fst hsubmit.receiverSide)
      (h.sameRecvs hsubmit.rq) ((h.flow s).submit hsubmit) (hsubmit.keeps hkeptIf (h.kept s) hok)
  | other e conn he hresult => exact h.other hkeptIf hunused he horderly hresult
  | delivered s wr frame hnext hread =>
    exact h.delivered hkeptIf hnext hread (closeStep_deliver (h.fits s) hnext hread hstep)
  | disconnected s t _ hhandler => exact h.disconnected hkeptIf hhandler
  | respSet s =>
    exact h.silent hkeptIf (setTrans_self ..) (setTrans_peer ..) (fun hne => ⟨rfl, hne⟩) rfl
      (h.sameRecvs rfl) ⟨rfl, rfl, rfl⟩ (.refl _) ((h.kept s).of_same rfl (List.Subset.refl _) rfl)

/-- Behind the invariant every message is handed over or on the way. -/
theorem DeliveryInv.allDelivered (hkeptIf : P.KeptIf ok) (h : DeliveryInv P g) : Delivered g := by
  have hflow (s : Side) : MessageFlow (g.accepted s.peer) (g.trans s.peer) (g.inbox s)
      (g.trans s).responses := by
    have hflow := h.flow s.peer
    rwa [Side.peer_peer] at hflow
  exact ⟨fun s => (hflow s).handed, fun s => (hflow s).left, fun s => (hflow s).inbox,
    fun s pool hpool => (hkeptIf.ring ((h.kept s).held pool hpool)).intact⟩

/-- Two parties that start laid out have it. -/
theorem CloseState.Starts.deliveryInv (hunused : P.OfUnused) (h : g.Starts) (hlaid : g.LaidOut) :
    DeliveryInv P g where
  recvs := h.inv.recvs
  flow := h.inv.flow
  fits s := by
    rw [h.inbox s]
    exact .nil
  kept s := by
    have hidle : (g.trans s).Unused := h.conn.unused s
    have hunread : g.unread s = [] := by
      simp [CloseState.unread, HmrRdmaTransport.unread, HmrRdmaTransport.sends, hidle.list,
        hidle.log]
    rw [hunread]
    exact ⟨hlaid.recvSize s, hlaid.recvs s, fun _ => rfl, hlaid.recvCursor s,
      fun pool hpool => hunused (hlaid.sendCursor s pool hpool)⟩
  filled s wr hwr := by
    have hlog : (g.trans s).qp.sendLog = [] := (h.conn.unused s).log
    simp [hlog] at hwr
  unbacked _ := by
    have hnone : (g.trans .server).normalMempool = none := h.conn.server.2.2
    rw [HmrRdmaTransport.ownMr, hnone]
    rfl

end Steps

/-- The sample parties are laid out. -/
theorem sampleClose_laidOut : sampleClose.LaidOut where
  recvSize s := by cases s <;> decide
  recvs s := by cases s <;> decide
  sendCursor s pool hpool := by
    cases s with
    | client =>
      obtain rfl := Option.some.inj hpool
      decide
    | server => contradiction
  recvCursor s pool hpool := by
    cases s with
    | client =>
      obtain rfl := Option.some.inj hpool
      decide
    | server => contradiction

end HmrRpc
