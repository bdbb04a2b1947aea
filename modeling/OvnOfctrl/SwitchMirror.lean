-- The switch's flow table along every run. The flow_mods queued on the current connection
-- start with the delete-all of S_CLEAR_FLOWS, none goes out before it, and from
-- S_UPDATE_FLOWS on, a switch that applies them in order to any table holds exactly the
-- installed table: `ofctrl_put` keeps the installed table a mirror of the switch.
import OvnOfctrl.Invariants

namespace OvnOfctrl

/-! ## The invariant -/

/-- The switch's side of the state. The machine's sequence number trails the connection's
and catches up while the connection is up; no flow_mod goes out before `S_UPDATE_FLOWS`;
from then on the flow_mods start with the delete-all and, applied in order to any table,
give the installed table. -/
structure SwitchInv (e : Ofctrl) : Prop where
  seqno_le : e.seqno ≤ e.swconn.seqno
  synced : e.swconn.connected → e.seqno = e.swconn.seqno
  before_update : e.state ≠ .S_UPDATE_FLOWS → e.swconn.flowLog = []
  delete_first : e.state = .S_UPDATE_FLOWS → e.swconn.flowLog.head? = some .deleteAll
  mirror : e.state = .S_UPDATE_FLOWS →
    ∀ T, Mirrors (e.swconn.flowLog.foldl applyFlowMod T) e.tables.installed

theorem switchInv_init : SwitchInv ofctrl_init :=
  ⟨le_rfl, nofun, fun _ => rfl, nofun, nofun⟩

section Frame

variable {e e' : Ofctrl} {ft ft' : FlowTables}

theorem FlowsKept.mirror_view (hk : FlowsKept ft ft') (i : Nat) :
    (ft'.installed.flow_heap i).map mirrorData = (ft.installed.flow_heap i).map mirrorData := by
  have := hk i
  cases h1 : ft'.installed.flow_heap i <;> cases h2 : ft.installed.flow_heap i <;>
    simp_all [mirrorData]

/-- The invariant reads the state only through whether it is `S_UPDATE_FLOWS`, the
connection only through what the switch's flow table sees of it, and the installed flows
only through their data. -/
theorem SwitchInv.of_view (h : SwitchInv e)
    (hs : e'.state = .S_UPDATE_FLOWS ↔ e.state = .S_UPDATE_FLOWS) (hq : e'.seqno = e.seqno)
    (hv : e'.swconn.flowView = e.swconn.flowView) (hk : FlowsKept e.tables e'.tables) :
    SwitchInv e' := by
  simp only [Rconn.flowView, Prod.mk.injEq] at hv
  obtain ⟨h1, h2, h3⟩ := hv
  refine ⟨?_, ?_, ?_, ?_, fun hu T => ?_⟩
  · rw [hq, h1]; exact h.seqno_le
  · rw [hq, h1, h2]; exact h.synced
  · exact fun hn => h3 ▸ h.before_update fun hu => hn (hs.2 hu)
  · exact fun hu => h3 ▸ h.delete_first (hs.1 hu)
  · rw [h3]; exact (h.mirror (hs.1 hu) T).congr hk.mirror_view

end Frame

/-! ## ofctrl_run -/

section Run

variable {e e' : Ofctrl}

theorem switchInv_checkSeqno (h : SwitchInv e) {established : Bool}
    (hc : (rconnRun e established).swconn.connected) :
    SwitchInv (checkSeqno (rconnRun e established)) := by
  cases established with
  | true =>
    have hne : e.seqno ≠ e.swconn.seqno + 1 := by have := h.seqno_le; omega
    simp only [rconnRun, checkSeqno, if_true, Rconn.reconnect, ne_eq, hne, not_false_eq_true]
    exact ⟨le_rfl, fun _ => rfl, fun _ => rfl, nofun, nofun⟩
  | false =>
    show SwitchInv (checkSeqno e)
    unfold checkSeqno
    rw [if_neg (by simpa using h.synced hc)]
    exact h

/-- The state function keeps the invariant on a connection that is up: `S_CLEAR_FLOWS`
queues the delete-all as the first flow_mod and empties the installed table. -/
theorem switchInv_runState (h : SwitchInv e) (hc : e.swconn.connected) (ht : TablesOk e.tables)
    (hr : runState e = some e') : SwitchInv e' ∧ e'.swconn.connected := by
  rcases runState_cases hr with ⟨hs, rfl⟩ | ⟨hs, hcl⟩ | ⟨-, -, rfl⟩
  · have hv : (run_S_NEW e).swconn.flowView = e.swconn.flowView :=
      (Rconn.recvStable_flowView _).send _ _ (by simp) rfl
    refine ⟨h.of_view (by simp [run_S_NEW, hs]) rfl hv fun _ => rfl, ?_⟩
    simp only [Rconn.flowView, Prod.mk.injEq] at hv
    exact hv.2.1 ▸ hc
  · obtain ⟨hclear, hu, -, -, -, hq, -, -, -, hconn⟩ := run_S_CLEAR_FLOWS_spec hcl
    obtain ⟨ft', hc', hl, he, -⟩ := installed_clear_spec ht.links
    rw [hc', Option.some.injEq] at hclear
    subst hclear
    have hlog : e'.swconn.flowLog = [.deleteAll] := by
      rw [hconn, Rconn.flowLog_send, Rconn.flowLog_send, Rconn.flowLog_send,
        h.before_update (by simp [hs])]
      simp [Rconn.send, hc, flowMods]
    have hempty : ∀ i, e'.tables.installed.flow_heap i = none := fun i =>
      Option.not_isSome_iff_eq_none.1 fun hi => by simpa [he] using (hl.installed.live i).1 hi
    refine ⟨⟨?_, ?_, fun hn => absurd hu hn, fun _ => by rw [hlog]; rfl,
      fun _ T => by rw [hlog]; exact mirrors_empty hempty⟩, ?_⟩ <;>
      simp only [hconn, hq, Rconn.send, hc, if_true] <;> simp [h.synced hc]
  · exact ⟨h, hc⟩

theorem switchInv_recvMsg (h : SwitchInv e) {m : Received} (hr : recvMsg e m = some e') :
    SwitchInv e' ∧ e'.swconn.connected = e.swconn.connected := by
  have fr := RecvFrame.of_recvMsg hr
  have hv : e'.swconn.flowView = e.swconn.flowView :=
    fr.conn _ (Rconn.recvStable_flowView _) rfl
  refine ⟨h.of_view ⟨fr.enters, recvMsg_stays hr⟩ fr.seqno hv (fr.tables ▸ fun _ => rfl), ?_⟩
  simp only [Rconn.flowView, Prod.mk.injEq] at hv
  exact hv.2.1

theorem switchInv_ofctrl_run (h : SwitchInv e) (ht : TablesOk e.tables) {established : Bool}
    {recvd : List (Option Received)} (hs : ofctrl_run e established recvd = some e') :
    SwitchInv e' := by
  rcases ofctrl_run_cases hs with ⟨rfl, -⟩ | ⟨hc, hl⟩
  · exact h
  have h1 := switchInv_checkSeqno h hc
  obtain ⟨c, q, s, z, h0, hc0⟩ := checkSeqno_rconnRun_eq e established
  rw [h0] at hl h1
  refine (ofctrlRunLoop_induct (fun e => SwitchInv e ∧ e.swconn.connected ∧ TablesOk e.tables)
    (fun e e' ⟨h, hc, ht⟩ hr => ?_) (fun e m e' ⟨h, hc, ht⟩ hr => ?_) 50 _ recvd e'
    ⟨h1, hc0 ▸ hc, ht⟩ hl).1
  · obtain ⟨h', hc'⟩ := switchInv_runState h hc ht hr
    obtain ⟨e2, h2, t2⟩ := runState_tablesOk ht
    rw [hr, Option.some.injEq] at h2
    exact ⟨h', hc', h2 ▸ t2⟩
  · obtain ⟨h', hc'⟩ := switchInv_recvMsg h hr
    exact ⟨h', hc' ▸ hc, (RecvFrame.of_recvMsg hr).tables ▸ ht⟩

end Run

/-! ## ofctrl_put -/

section Put

variable {e e' : Ofctrl}

theorem switchInv_putFinish (h : SwitchInv e) (hu : e.state = .S_UPDATE_FLOWS)
    (hc : e.swconn.connected) {E : Ofctrl} (hE : E.state = e.state ∧ E.seqno = e.seqno ∧
      E.swconn = e.swconn) {msgs : List OfpMsg}
    (hm : ∀ T, Mirrors T e.tables.installed →
      Mirrors ((flowMods msgs).foldl applyFlowMod T) E.tables.installed) (nb_cfg : Int) :
    SwitchInv (putFinish E msgs nb_cfg) := by
  obtain ⟨hs, hq, hw⟩ := hE
  obtain ⟨htab, hst, -, -, hq', hcc, hcs⟩ := putFinish_frame E msgs nb_cfg
  have hlog := putFinish_flowLog E msgs nb_cfg
  rw [hw] at hcc hcs hlog
  simp only [hc, if_true] at hlog
  have hne : e.swconn.flowLog ≠ [] := fun hn => by simpa [hn] using h.delete_first hu
  refine ⟨?_, ?_, fun hn => absurd (hst.trans (hs.trans hu)) hn, fun _ => ?_, fun _ T => ?_⟩
  · rw [hq', hq, hcs]; exact h.seqno_le
  · rw [hq', hq, hcs, hcc]; exact h.synced
  · rw [hlog, List.head?_append, h.delete_first hu]; rfl
  · rw [hlog, htab, List.foldl_append]
    exact hm _ (h.mirror hu T)

theorem switchInv_ofctrl_put (h : SwitchInv e) (ht : TablesOk e.tables) {p : ModParse}
    {meter_table : List SbrecMeter} {nb_cfg : Int} {flow_changed : Bool}
    (hs : ofctrl_put e p meter_table nb_cfg flow_changed = some e') : SwitchInv e' := by
  rcases ofctrl_put_cases hs with ⟨-, rfl⟩ | ⟨-, -, rfl⟩ | ⟨-, hcan, hr⟩
  · exact h.of_view Iff.rfl rfl rfl fun _ => rfl
  · exact h.of_view Iff.rfl rfl rfl fun _ => rfl
  simp only [ofctrl_can_put, Bool.and_eq_true, decide_eq_true_eq] at hcan
  obtain ⟨⟨hu, -⟩, hc⟩ := hcan
  obtain ⟨ft, msgs1, msgs2, hr', -, -, -, hm⟩ := putReconcile_spec (e := { e with
    cur_cfg := (needPut e nb_cfg flow_changed).2, old_nb_cfg := nb_cfg })
    ht.desired ht.links p meter_table nb_cfg
  rw [hr, Option.some.injEq] at hr'
  subst hr'
  refine switchInv_putFinish h hu hc (by exact ⟨rfl, rfl, rfl⟩) (fun T hT => ?_) nb_cfg
  rw [flowMods_put]
  have := hm T hT
  rw [← applyMsgs_append] at this
  exact this

end Put

/-! ## Every step -/

theorem SwitchInv.env {e : Ofctrl} (h : SwitchInv e) {c : Rconn} (hc : EnvConn e.swconn c)
    (g m : OvnExtendTable) (z : List (String × CtZonePendingEntry)) (x : UInt32) :
    SwitchInv { e with
      groups := g, meters := m, pending_ct_zones := z, next_xid := x, swconn := c } := by
  cases hc with
  | packetOut x =>
    exact h.of_view Iff.rfl rfl ((Rconn.recvStable_flowView _).send _ _ (by simp) rfl) fun _ => rfl
  | drop => exact ⟨Nat.le_succ_of_le h.seqno_le, nofun, h.before_update, h.delete_first, h.mirror⟩
  | _ => exact h.of_view Iff.rfl rfl rfl fun _ => rfl

theorem step_switchInv {e e' : Ofctrl} (h : SwitchInv e) (ht : TablesOk e.tables) {ev : Event}
    (hs : step e ev = some e') : SwitchInv e' := by
  rcases step_cases hs with ⟨_, _, -, hr⟩ | ⟨_, _, _, _, -, hp⟩ | ⟨op, -, hd⟩ |
    ⟨g, m, z, x, c, rfl, hc⟩
  · exact switchInv_ofctrl_run h ht hr
  · exact switchInv_ofctrl_put h ht hp
  · obtain ⟨g, m, he⟩ := desiredOp_frame hd
    have hk : FlowsKept e.tables e'.tables := by
      rcases desiredOp_stable ht (floodStable_flowsKept e.tables) (fun _ => rfl) hd with hi | hk
      · intro i; rw [hi]
      · exact hk
    rw [he]
    exact h.of_view Iff.rfl rfl rfl hk
  · exact h.env hc g m z x

theorem reachable_switchInv {e : Ofctrl} (h : Reachable e) : SwitchInv e :=
  reachable_induct (P := fun e => SwitchInv e ∧ TablesOk e.tables) ⟨switchInv_init, tablesOk_init⟩
    (fun _ _ _ _ ⟨h, ht⟩ hs => ⟨step_switchInv h ht hs, step_tablesOk ht hs⟩) h |>.1

/-- In every reachable state the flow_mods queued on the current connection are none or
start with the delete-all of `S_CLEAR_FLOWS`; and in `S_UPDATE_FLOWS` a switch that applies
them in order, from any table, holds exactly the installed flows, each with its actions and
cookie. -/
theorem switch_mirrors_installed {e : Ofctrl} (h : Reachable e) :
    (e.swconn.flowLog = [] ∨ e.swconn.flowLog.head? = some .deleteAll) ∧
      (e.state = .S_UPDATE_FLOWS →
        ∀ T, Mirrors (e.swconn.flowLog.foldl applyFlowMod T) e.tables.installed) := by
  have hi := reachable_switchInv h
  refine ⟨?_, hi.mirror⟩
  by_cases hu : e.state = .S_UPDATE_FLOWS
  · exact .inr (hi.delete_first hu)
  · exact .inl (hi.before_update hu)

/-- After `onePut` the connection carries the delete-all, then the add of the flow, and a
switch that applied them holds that flow alone. -/
theorem switch_mirrors_onePut :
    ∃ e, Reachable e ∧ e.state = .S_UPDATE_FLOWS ∧
      e.swconn.flowLog = [.deleteAll, .add ⟨0, 100, ipMatch⟩ [1] 7] ∧
      (e.swconn.flowLog = [] ∨ e.swconn.flowLog.head? = some .deleteAll) ∧
      (e.state = .S_UPDATE_FLOWS →
        ∀ T, Mirrors (e.swconn.flowLog.foldl applyFlowMod T) e.tables.installed) :=
  ⟨_, reachable_of_isSome onePut (by decide), by decide, by decide,
    switch_mirrors_installed (reachable_of_isSome onePut (by decide))⟩

end OvnOfctrl
