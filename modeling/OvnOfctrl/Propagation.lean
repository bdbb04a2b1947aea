-- nb_cfg reaches the database. `ofctrl_put` tracks the barrier of each reconciliation against
-- its nb_cfg, and `recv_S_UPDATE_FLOWS` raises cur_cfg to the revision of each record when the
-- reply to its barrier comes. After a put that reconciles, in a run whose nb_cfg never goes
-- back, the queue announces that put's nb_cfg: the last record carries it, or cur_cfg does when
-- the queue is empty. Replies keep that, so once the switch has answered, in order, every
-- barrier it owes, no flow update is left and `ofctrl_get_cur_cfg` returns the put's nb_cfg.
import OvnOfctrl.FlowUpdates
import OvnOfctrl.CurCfg

namespace OvnOfctrl

/-- The revision `cur_cfg` reaches once every flow update has been retired: that of the last
record, or `cur_cfg` itself when the queue is empty. -/
def drainedCfg (e : Ofctrl) : Int := (e.flow_updates.getLast?.map (·.nb_cfg)).getD e.cur_cfg

theorem CfgRun.reachable {e : Ofctrl} (h : CfgRun e) : Reachable e := by
  induction h with
  | init => exact .init
  | step ev _ _ hs ih => exact .step ev ih hs

theorem CfgRun.of_exec {e e' : Ofctrl} (h : CfgRun e) (evs : List Event)
    (hp : ∀ ev ∈ evs, ∀ p meter_table nb_cfg flow_changed, ev ≠ .put p meter_table nb_cfg flow_changed)
    (hx : exec e evs = some e') : CfgRun e' := by
  induction evs generalizing e with
  | nil => exact Option.some.inj hx ▸ h
  | cons ev rest ih =>
    simp only [exec] at hx
    obtain ⟨e1, h1, hx⟩ := Option.bind_eq_some.1 hx
    exact ih (.step ev h (fun _ _ _ _ he => absurd he (hp ev (List.mem_cons_self _ _) _ _ _ _)) h1)
      (fun ev hm => hp ev (List.mem_cons_of_mem _ hm)) hx

/-! ## A put sets the revision the queue announces -/

theorem trackFlowUpdate_last (F : List OfctrlFlowUpdate) (nb_cfg : Int) (xid : UInt32) :
    (trackFlowUpdate F nb_cfg xid).getLast?.map (·.nb_cfg) = some nb_cfg := by
  suffices h : ∀ l, (trackRev nb_cfg xid l).head?.map (·.nb_cfg) = some nb_cfg by
    rw [trackFlowUpdate, List.getLast?_reverse, h]
  intro l
  induction l with
  | nil => rfl
  | cons fup rest ih =>
    unfold trackRev
    split_ifs with h1 h2
    · exact ih
    · simp [h2]
    · rfl

theorem putFinish_drainedCfg (e : Ofctrl) (msgs : List OfpMsg) (nb_cfg : Int) :
    drainedCfg (putFinish e msgs nb_cfg) = nb_cfg := by
  unfold putFinish
  split_ifs
  · split
    · simp [drainedCfg]
    · rename_i hl
      simp [drainedCfg, hl]
  · obtain ⟨c, x, hq, -, -⟩ := queueMsgs_eq msgs e
    simp only [hq, queue_msg, drainedCfg, trackFlowUpdate_last, Option.getD_some]

theorem ofctrl_put_drainedCfg {e e' : Ofctrl} (ht : TablesOk e.tables) {p : ModParse}
    {meter_table : List SbrecMeter} {nb_cfg : Int} {flow_changed : Bool}
    (hn : (needPut e nb_cfg flow_changed).1 = true) (hc : ofctrl_can_put e = true)
    (hs : ofctrl_put e p meter_table nb_cfg flow_changed = some e') :
    drainedCfg e' = nb_cfg ∧ e'.old_nb_cfg = nb_cfg ∧ e'.state = e.state ∧
      e'.swconn.connected = e.swconn.connected := by
  rcases ofctrl_put_cases hs with ⟨hn', -⟩ | ⟨-, hc', -⟩ | ⟨-, -, hr⟩
  · rw [hn] at hn'; cases hn'
  · rw [hc] at hc'; cases hc'
  obtain ⟨ft, msgs1, msgs2, hr', -⟩ := putReconcile_spec (e := { e with
    cur_cfg := (needPut e nb_cfg flow_changed).2, old_nb_cfg := nb_cfg })
    ht.desired ht.links p meter_table nb_cfg
  rw [hr, Option.some.injEq] at hr'
  subst hr'
  obtain ⟨fu, cc, z, c, x, he, hcc, -⟩ := putFinish_eq _ _ nb_cfg
  refine ⟨putFinish_drainedCfg _ _ _, ?_, ?_, ?_⟩ <;> rw [he]
  exact hcc

/-! ## Barrier replies keep it -/

/-- `recv_S_UPDATE_FLOWS` keeps the revision the queue announces, when `cur_cfg` is not above
it: a reply retires the oldest record, and raises `cur_cfg` to its revision, which is the
announced one when it was the last. -/
theorem drainedCfg_recv_S_UPDATE_FLOWS (e : Ofctrl) (m : Received) (t : OfpType)
    (hc : e.cur_cfg ≤ drainedCfg e) : drainedCfg (recv_S_UPDATE_FLOWS e m t) = drainedCfg e := by
  unfold recv_S_UPDATE_FLOWS
  split
  · rename_i fup rest hF
    split_ifs with hx hge
    · cases rest <;> simp [drainedCfg, hF, List.getLast?_cons]
    · cases rest
      · simp only [drainedCfg, hF, List.getLast?_singleton, Option.map_some', Option.getD_some] at hc
        omega
      · simp [drainedCfg, hF, List.getLast?_cons]
    · rfl
  · unfold ofctrl_recv; split <;> rfl

theorem drainedCfg_recvMsg {e e' : Ofctrl} (hi : CfgInv e) (hd : drainedCfg e = e.old_nb_cfg)
    (hs : e.state = .S_UPDATE_FLOWS) {m : Received} (hr : recvMsg e m = some e') :
    drainedCfg e' = drainedCfg e := by
  unfold recvMsg recvState at hr
  dsimp only at hr
  split at hr
  · cases hr; rfl
  · rw [hs] at hr
    cases hr
    exact drainedCfg_recv_S_UPDATE_FLOWS _ m _ (hd ▸ hi.cur)

/-- A state from which the switch answers the barriers it owes: in `S_UPDATE_FLOWS` on a
connection that is up, whose switch has answered in order so far, with distinct barriers, in a
run whose `nb_cfg` never goes back, and with a queue that announces the last `nb_cfg`. -/
structure Draining (e : Ofctrl) : Prop where
  run : CfgRun e
  update : e.state = .S_UPDATE_FLOWS
  connected : e.swconn.connected = true
  in_order : e.swconn.out_of_order = false
  distinct : (barrierXids e.swconn.log).Nodup
  announces : drainedCfg e = e.old_nb_cfg

theorem Draining.reply {e : Ofctrl} (h : Draining e) {x : UInt32} {u : List UInt32}
    (hu : e.swconn.unanswered = x :: u) :
    ∃ e', step e (.run false [some ⟨x, some .barrierReply⟩]) = some e' ∧ Draining e' ∧
      e'.swconn.unanswered = u ∧ e'.old_nb_cfg = e.old_nb_cfg := by
  obtain ⟨e', hs, h', ha, hu'⟩ :=
    (⟨h.run.reachable, h.update, h.connected, h.in_order, h.distinct⟩ : Answering e).reply hu
  have hold := (RecvFrame.of_recvMsg h').old_nb_cfg
  refine ⟨e', hs, ⟨.step _ h.run (fun _ _ _ _ he => by cases he) hs, ha.update, ha.connected,
    ha.in_order, ha.distinct, ?_⟩, hu', hold⟩
  rw [drainedCfg_recvMsg h.run.inv.1 h.announces h.update h', h.announces, hold]

theorem Draining.drain : ∀ (xs : List UInt32) (e : Ofctrl), Draining e → e.swconn.unanswered = xs →
    ∃ e2, exec e (xs.map fun x => .run false [some ⟨x, some .barrierReply⟩]) = some e2 ∧
      e2.flow_updates = [] ∧ e2.cur_cfg = e.old_nb_cfg
  | [], e, h, hu => by
    have ht := (reachable_flowUpdatesInv h.run.reachable).tracks ⟨h.update, h.in_order, h.distinct⟩
    rw [hu] at ht
    have hF : e.flow_updates = [] := List.map_eq_nil_iff.1 (List.sublist_nil.1 ht.pending)
    refine ⟨e, rfl, hF, ?_⟩
    have := h.announces
    rwa [drainedCfg, hF, List.getLast?_nil, Option.map_none', Option.getD_none] at this
  | x :: u, e, h, hu => by
    obtain ⟨e', hs, h', hu', ho⟩ := h.reply hu
    obtain ⟨e2, hx, hF, hcur⟩ := Draining.drain u e' h' hu'
    exact ⟨e2, by simp only [List.map_cons, exec, hs, Option.some_bind, hx], hF, hcur.trans ho⟩

/-- nb_cfg reaches the database. In a run whose `nb_cfg` never goes back, after an
`ofctrl_put` that reconciles, on a switch that has answered barriers in order and whose barriers
have distinct xids: once the switch answers every barrier it owes, in order, each in a call of
`ofctrl_run`, the calls return, no flow update is left, and `ofctrl_get_cur_cfg` returns the
put's `nb_cfg`. -/
theorem answered_barriers_announce_nb_cfg {e e1 : Ofctrl} (h : CfgRun e) {p : ModParse}
    {meter_table : List SbrecMeter} {nb_cfg : Int} {flow_changed : Bool}
    (hm : e.old_nb_cfg ≤ nb_cfg) (hn : (needPut e nb_cfg flow_changed).1 = true)
    (hc : ofctrl_can_put e = true) (h1 : ofctrl_put e p meter_table nb_cfg flow_changed = some e1)
    (ho : e1.swconn.out_of_order = false) (hd : (barrierXids e1.swconn.log).Nodup) :
    ∃ e2, exec e1 (e1.swconn.unanswered.map fun x => .run false [some ⟨x, some .barrierReply⟩]) =
        some e2 ∧ e2.flow_updates = [] ∧ ofctrl_get_cur_cfg e2 = nb_cfg := by
  obtain ⟨had, hold, hst, hcon⟩ := ofctrl_put_drainedCfg h.inv.2 hn hc h1
  simp only [ofctrl_can_put, Bool.and_eq_true, decide_eq_true_eq] at hc
  have hdr : Draining e1 := ⟨.step (.put p meter_table nb_cfg flow_changed) h
    (fun _ _ _ _ he => by cases he; exact hm) h1,
    hst.trans hc.1.1, hcon.trans hc.2, ho, hd, had.trans hold.symm⟩
  obtain ⟨e2, hx, hF, hcur⟩ := hdr.drain _ e1 rfl
  exact ⟨e2, hx, hF, hcur.trans hold⟩

/-- After the negotiation and the add of one flow, the put of revision 1 sends the add and its
barrier, xid 6; the reply to it empties the queue and brings `cur_cfg` to 1. -/
theorem onePut_announces_nb_cfg :
    ∃ e e1, CfgRun e ∧ e.old_nb_cfg ≤ 1 ∧ (needPut e 1 true).1 = true ∧ ofctrl_can_put e = true ∧
      ofctrl_put e acceptAll [] 1 true = some e1 ∧ e1.swconn.out_of_order = false ∧
      (barrierXids e1.swconn.log).Nodup ∧ e1.swconn.unanswered = [6] ∧
      ∃ e2, exec e1 (e1.swconn.unanswered.map fun x => .run false [some ⟨x, some .barrierReply⟩]) =
        some e2 ∧ e2.flow_updates = [] ∧ ofctrl_get_cur_cfg e2 = 1 :=
  ⟨_, _, CfgRun.of_exec .init onePut.dropLast (by simp [onePut, negotiated]) (Option.some_get (by decide)).symm,
    by decide, by decide, by decide, (Option.some_get (by decide)).symm, by decide, by decide,
    by decide, answered_barriers_announce_nb_cfg
      (CfgRun.of_exec .init onePut.dropLast (by simp [onePut, negotiated]) (Option.some_get (by decide)).symm)
      (by decide) (by decide) (by decide) (Option.some_get (by decide)).symm (by decide) (by decide)⟩

end OvnOfctrl
