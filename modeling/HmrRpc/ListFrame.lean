import HmrRpc.Lifecycle

/-!
# What reads `send_task_list`

The timer flush is the only code that looks at the list. Every other function at most appends
to it, so what it does with tasks in front of the list is what it does without them. A model
of the list in memory needs this: an append follows the links of the last node only.
-/

namespace HmrRpc

open Common

/-- The transport with more tasks in front of its list. -/
def HmrRdmaTransport.behind (tasks : List HmrTask) (t : HmrRdmaTransport) : HmrRdmaTransport :=
  { t with sendTaskList := tasks ++ t.sendTaskList }

/-- The computation only ever adds to the list: what is in front of it makes no difference. -/
def OnlyAppends (f : HmrRdmaTransport → Except Stop HmrRdmaTransport) : Prop :=
  ∀ tasks t, f (t.behind tasks) = (f t).map (HmrRdmaTransport.behind tasks)

section Frame

variable {f g : HmrRdmaTransport → Except Stop HmrRdmaTransport} (o : Outcomes)

/-- One computation after another. -/
theorem OnlyAppends.bind (hf : OnlyAppends f) (hg : OnlyAppends g) :
    OnlyAppends fun t => (f t).bind g := by
  intro tasks t
  simp only [hf tasks t]
  cases f t with
  | error stop => rfl
  | ok u => exact hg tasks u

/-- A change of other fields. -/
theorem onlyAppends_ok {f : HmrRdmaTransport → HmrRdmaTransport}
    (hf : ∀ tasks t, f (t.behind tasks) = (f t).behind tasks) : OnlyAppends fun t => .ok (f t) :=
  fun tasks t => congrArg Except.ok (hf tasks t)

/-- `hmr_rdma_send` only appends. -/
theorem hmrRdmaSend_onlyAppends (msg : HmrMsg) :
    OnlyAppends fun t => (hmrRdmaSend o t msg).map Prod.snd := by
  intro tasks t
  have hcheck : hmrMsgCheck (t.behind tasks) msg = hmrMsgCheck t msg := rfl
  simp only [hmrRdmaSend, hcheck]
  cases hmrMsgCheck t msg with
  | error stop => rfl
  | ok err =>
    by_cases herr : err = 0
    · cases hcalloc : o.sendCalloc with
      | false => simp [submitMsg, hmrSendTaskCreate, herr, hcalloc, Except.map]
      | true =>
        cases hpool : t.normalMempool with
        | none =>
          simp [submitMsg, hmrSendTaskCreate, herr, hcalloc, HmrRdmaTransport.behind, hpool, Except.map]
        | some pool =>
          simp only [submitMsg, hmrSendTaskCreate, herr, hcalloc, HmrRdmaTransport.behind, hpool, ne_eq,
            not_true_eq_false, if_false]
          split_ifs <;> simp [Except.map, HmrRdmaTransport.behind, HmrRdmaTransport.ibvPostSend]
    · simp only [ne_eq, herr, not_false_eq_true, if_true]
      rfl

/-- `hmr_post_recv` does not touch the list. -/
theorem hmrPostRecv_onlyAppends : OnlyAppends fun t => hmrPostRecv o t t.defaultRecvSize := by
  intro tasks t
  cases hcalloc : o.recvCalloc with
  | false => simp [hmrPostRecv, hmrRecvTaskCreate, hcalloc, Except.map]
  | true =>
    cases hpool : t.normalMempool with
    | none => simp [hmrPostRecv, hmrRecvTaskCreate, hcalloc, HmrRdmaTransport.behind, hpool, Except.map]
    | some pool =>
      simp only [hmrPostRecv, hmrRecvTaskCreate, hcalloc, HmrRdmaTransport.behind, hpool, if_true,
        Except.map, HmrRdmaTransport.ibvPostRecv]
      split <;> rfl

/-- Nor does the loop of `hmr_pre_post_recv`. -/
theorem postRecvs_onlyAppends (o : ℕ → Outcomes) (n : ℕ) : OnlyAppends (postRecvs o n) := by
  induction n with
  | zero => exact fun _ _ => rfl
  | succ n ih => exact ih.bind (hmrPostRecv_onlyAppends (o n))

/-- `hmr_exchange_mr_info` sends. -/
theorem hmrExchangeMrInfo_onlyAppends : OnlyAppends (hmrExchangeMrInfo o) := by
  intro tasks t
  have hpool : (t.behind tasks).normalMempool = t.normalMempool := rfl
  rw [hmrExchangeMrInfo, hmrExchangeMrInfo, hpool]
  cases t.normalMempool with
  | none => rfl
  | some pool => exact hmrRdmaSend_onlyAppends o (mrMsg pool.rdmaMr) tasks t

/-- The closing handshake sends at most. -/
theorem closeConnection_onlyAppends (task : HmrTask) (opcode : IbvWcOpcode) :
    OnlyAppends fun t => closeConnection o t task opcode := by
  intro tasks t
  have hsend := hmrRdmaSend_onlyAppends o closingMsg tasks t
  simp only at hsend
  simp only [closeConnection, hmrHandleCloseConnection, hsend]
  split_ifs <;> rfl

/-- So does the MR part. -/
theorem handleMr_onlyAppends (task : HmrTask) (opcode : IbvWcOpcode) (msg : HmrMsg) :
    OnlyAppends fun t => handleMr o t task opcode msg := by
  intro tasks t
  have hlearn : (t.behind tasks).learnMr msg = (t.learnMr msg).behind tasks := rfl
  have hstate (u : HmrRdmaTransport) : (u.behind tasks).transState = u.transState := rfl
  simp only [handleMr, hlearn, hstate, hmrExchangeMrInfo_onlyAppends o tasks]
  split_ifs <;> try rfl
  cases hmrExchangeMrInfo o (t.learnMr msg) <;> rfl

/-- Handing a message over does not touch the list. -/
theorem respond_onlyAppends (taskType : HmrTaskType) (msg : HmrMsg) :
    OnlyAppends fun t => .ok (t.respond taskType msg) := by
  apply onlyAppends_ok
  intro tasks t
  unfold HmrRdmaTransport.respond
  split
  · rename_i h
    exact (if_pos h).symm ▸ rfl
  · rename_i h
    exact (if_neg h).symm ▸ rfl

/-- So the handlers of completions only append. -/
theorem handleWc_onlyAppends (wc : IbvWc) : OnlyAppends fun t => handleWc o t wc := by
  have hbody : OnlyAppends fun t => wcSuccessBody o t wc := by
    intro tasks t
    have hbytes : (t.behind tasks).bufferBytes wc.wrId = t.bufferBytes wc.wrId := rfl
    simp only [wcSuccessBody, hbytes]
    cases t.bufferBytes wc.wrId with
    | error stop => rfl
    | ok bytes =>
      by_cases hrecv : wc.opcode = .recv
      · have hall := ((respond_onlyAppends (receivedType bytes) (.decode bytes)).bind
          ((closeConnection_onlyAppends o { wc.wrId with taskType := receivedType bytes } .recv).bind
            (handleMr_onlyAppends o { wc.wrId with taskType := receivedType bytes } .recv
              (.decode bytes)))) tasks t
        simp only [hrecv, if_true]
        exact hall
      · have hall := ((closeConnection_onlyAppends o wc.wrId wc.opcode).bind
            (handleMr_onlyAppends o wc.wrId wc.opcode (.decode bytes))) tasks t
        simp only [hrecv, if_false]
        exact hall
  have hfree : OnlyAppends fun t =>
      .ok (if wc.opcode = .send ∨ wc.opcode = .rdmaWrite then t.freeTask wc.wrId else t) := by
    apply onlyAppends_ok
    intro tasks t
    split <;> rfl
  intro tasks t
  simp only [handleWc, hmrWcSuccessHandler]
  split
  · by_cases hrecv : wc.opcode = .recv
    · simp only [hrecv, if_true]
      simp only [hrecv] at hfree
      exact hbody.bind ((hmrPostRecv_onlyAppends o).bind hfree) tasks t
    · simp only [hrecv, if_false]
      exact hbody.bind hfree tasks t
  · rfl
/-- So does `on_cm_established`, -/
theorem onCmEstablished_onlyAppends : OnlyAppends (onCmEstablished o) := by
  intro tasks t
  have hexchange := hmrExchangeMrInfo_onlyAppends o tasks { t with transState := .connected }
  simp only [onCmEstablished]
  rw [show (t.behind tasks).isClient = t.isClient from rfl]
  split
  · exact hexchange
  · rfl

/-- and `on_cm_route_resolved`, -/
theorem onCmRouteResolved_onlyAppends (qpOk connectOk : Bool) (o : ℕ → Outcomes) :
    OnlyAppends (onCmRouteResolved qpOk connectOk o) := by
  intro tasks t
  cases qpOk with
  | false => rfl
  | true =>
    cases connectOk with
    | false => rfl
    | true => exact postRecvs_onlyAppends o _ tasks t.qpCreated

/-- and `on_cm_disconnected`, which does not free what is queued. -/
theorem onCmDisconnected_onlyAppends : OnlyAppends onCmDisconnected := by
  intro tasks t
  simp only [onCmDisconnected]
  rw [show (t.behind tasks).qp = t.qp from rfl, show (t.behind tasks).isClient = t.isClient from rfl,
    show (t.behind tasks).normalMempool = t.normalMempool from rfl]
  split <;> rfl

/-- The returned state of a mapped computation. -/
theorem toOption_map {A B : Type*} (f : A → B) (x : Except Stop A) :
    (x.map f).toOption = x.toOption.map f := by
  cases x <;> rfl

/-- An event of a connected transport only appends to the list, but for a tick. -/
theorem dataStep_behind (tasks : List HmrTask) (t : HmrRdmaTransport) {e : DataEvent}
    (htick : ∀ a, e ≠ .tick a) :
    dataStep (t.behind tasks) e = (dataStep t e).map (HmrRdmaTransport.behind tasks) := by
  cases e with
  | send msg o =>
    simp only [dataStep, ← toOption_map]
    exact congrArg Except.toOption (hmrRdmaSend_onlyAppends o msg tasks t)
  | tick a => exact absurd rfl (htick a)
  | sendComplete i status o =>
    simp only [dataStep]
    rw [show (t.behind tasks).qp = t.qp from rfl]
    cases t.qp.sq[i]? with
    | none => rfl
    | some wr =>
      have hhandled := handleWc_onlyAppends o ⟨wr.wrId, status, wr.opcode.wcOpcode⟩ tasks (t.pollSend i)
      simp only [Option.bind_some, ← toOption_map]
      exact congrArg Except.toOption hhandled
  | recvComplete frame status o =>
    simp only [dataStep]
    rw [show (t.behind tasks).qp = t.qp from rfl]
    cases t.qp.rq.head? with
    | none => rfl
    | some wr =>
      simp only [Option.bind_some, ← toOption_map]
      split
      · exact congrArg Except.toOption (handleWc_onlyAppends o ⟨wr.wrId, status, .recv⟩ tasks
          (t.pollRecv.hcaWrite wr.sgList.addr frame))
      · exact congrArg Except.toOption (handleWc_onlyAppends o ⟨wr.wrId, status, .recv⟩ tasks
          t.pollRecv)

/-- So does every event of a transport's life. -/
theorem lifecycleStep_behind (tasks : List HmrTask) (t : HmrRdmaTransport) {e : LifecycleEvent}
    (htick : ∀ a, e ≠ .data (.tick a)) :
    lifecycleStep (t.behind tasks) e = (lifecycleStep t e).map (HmrRdmaTransport.behind tasks) := by
  cases e with
  | connect ok | listen ok => cases ok <;> rfl
  | addrResolved deviceFound m => cases deviceFound <;> rfl
  | routeResolved qpOk connectOk o =>
    simp only [lifecycleStep, onCmRouteResolved_onlyAppends qpOk connectOk o tasks t, toOption_map]
  | connectRequest deviceFound qpOk => cases deviceFound <;> cases qpOk <;> rfl
  | acceptConnecting | acceptMempool | connectError => rfl
  | acceptPosts o =>
    have hposts := postRecvs_onlyAppends o (prePostCount t.defaultRecvSize) tasks t
    simp only [lifecycleStep, ← toOption_map]
    exact congrArg Except.toOption hposts
  | established o => simp only [lifecycleStep, onCmEstablished_onlyAppends o tasks t, toOption_map]
  | disconnected => simp only [lifecycleStep, onCmDisconnected_onlyAppends tasks t, toOption_map]
  | data e => exact dataStep_behind tasks t fun a heq => htick a (congrArg _ heq)

end Frame

end HmrRpc
