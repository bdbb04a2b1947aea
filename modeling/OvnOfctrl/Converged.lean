-- What a reconciliation of `ofctrl_put` converges to. After it every desired key is installed
-- and every installed flow is the flow `desired_flow_lookup` returns for its key: the loop over
-- installed flows and the loop over desired flows pick the same desired flow for a key, the
-- first of `match_flow_table`. So a switch that applied the flow_mods holds the desired table
-- as the lookup reads it, the next put owes it nothing, and the flow_mods of one put name
-- distinct flows, so that the order in which the switch applies them before the barrier does
-- not matter. Along the runs of a caller that reports its changes, the switch holds the desired
-- table whenever no put is owed.
import OvnOfctrl.PutMods
import OvnOfctrl.SwitchMirror
import OvnOfctrl.Agreement

namespace OvnOfctrl

/-! ## The desired table as the switch should hold it -/

/-- The switch table the desired table asks for: for each key, the actions and cookie of the
desired flow that `desired_flow_lookup` returns for a flow of that key, built by
`ovn_flow_init` as `ofctrl_check_and_add_flow` builds its target; nothing for a key no desired
flow has. -/
def desiredView (t : OvnDesiredFlowTable) : SwitchTable := fun k =>
  (lookupFlow t (ovn_flow_init k.table_id k.priority 0 k.match_ [])).map fun g => (g.ofpacts, g.cookie)

/-- The installed table holds the desired table as `desired_flow_lookup` reads it: every
desired key is installed, and each installed flow is the flow the lookup returns for its
key. -/
structure Converged (t : OvnDesiredFlowTable) (it : InstalledTable) : Prop where
  lookup : FromLookup t it
  desired : ∀ d g, t.flow_heap d = some g → InstalledHas it g.flow.key

section Converged

variable {t t' : OvnDesiredFlowTable} {it : InstalledTable}

theorem desiredView_of_unlinked (e : t'.unlinked = t.unlinked) : desiredView t' = desiredView t := by
  funext k
  simp only [desiredView, lookupFlow_of_unlinked e]

theorem lookupFlow_probe (t : OvnDesiredFlowTable) {f : OvnFlow} (hf : f.HashOk) :
    lookupFlow t (ovn_flow_init f.key.table_id f.key.priority 0 f.key.match_ []) = lookupFlow t f :=
  lookupFlow_congr t hf.symm rfl

/-- A switch that mirrors a converged installed table holds the desired view. -/
theorem Converged.mirrors_eq (hc : Converged t it) (hi : InstalledOk it) {T : SwitchTable}
    (hT : Mirrors T it) : T = desiredView t := by
  funext k
  cases hk : T k with
  | some v =>
    obtain ⟨i, f, hf, rfl, rfl⟩ := (hT k v).1 hk
    rw [desiredView, lookupFlow_probe t (hi.hash_ok i f hf), hc.lookup i f hf]
    rfl
  | none =>
    -- a desired flow of the key would be installed, and so on the switch
    cases hl : lookupFlow t (ovn_flow_init k.table_id k.priority 0 k.match_ []) with
    | none => simp [desiredView, hl]
    | some g =>
      obtain ⟨d, dg, hd, hdg, -⟩ := lookupFlow_some hl
      obtain ⟨-, dg', hdg', hkey, -⟩ := desired_flow_lookup_some hd
      obtain ⟨i, f, hf, hfk⟩ := hc.desired d dg' hdg'
      have := (hT k _).2 ⟨i, f, hf, hfk.trans hkey, rfl⟩
      rw [hk] at this
      cases this

theorem Converged.owedMods_eq_nil {ft : FlowTables} (hw : WellLinked ft.desired)
    (hi : InstalledOk ft.installed) (hc : Converged ft.desired ft.installed) : owedMods ft = [] := by
  simp only [owedMods, List.append_eq_nil, List.filterMap_eq_nil_iff]
  refine ⟨fun i _ => ?_, fun d _ => ?_⟩
  · cases hf : ft.installed.flow_heap i with
    | none => rfl
    | some f =>
      have hl := hc.lookup i f hf
      obtain ⟨d, dg, hd, -, -⟩ := lookupFlow_some hl
      obtain ⟨-, dg', hdg', hk, -⟩ := desired_flow_lookup_some hd
      simp [owedMod, (hasKey_iff hw.1.flows _).2 ⟨d, dg', hdg', hk⟩, hl]
  · cases hg : ft.desired.flow_heap d with
    | none => simp [owedAdd, hg]
    | some g =>
      simp only [owedAdd, hg, Option.some_bind]
      rw [if_neg fun c => (installed_all_iff hi _).1 c.2 (hc.desired d g hg)]

end Converged

/-! ## A put converges -/

/-- A reconciliation of `ofctrl_put`, from tables that keep their invariants, queues messages
with no barrier among them, and one barrier after them when there is any; their flow_mods are
those the tables owe. It keeps the state of the connection to the switch and leaves the tables
converged. -/
theorem ofctrl_put_converges {e e' : Ofctrl} {p : ModParse} {meter_table : List SbrecMeter}
    {nb_cfg : Int} {flow_changed : Bool} (h : TablesOk e.tables)
    (hn : (needPut e nb_cfg flow_changed).1 = true) (hc : ofctrl_can_put e = true)
    (hs : ofctrl_put e p meter_table nb_cfg flow_changed = some e') :
    (∃ msgs, e'.swconn.log.map (·.msg) = e.swconn.log.map (·.msg) ++
        (if msgs = [] then [] else msgs ++ [.barrierRequest]) ∧
      .barrierRequest ∉ msgs ∧ flowMods msgs = owedMods e.tables) ∧
    e'.swconn.flowLog = e.swconn.flowLog ++ owedMods e.tables ∧ e'.state = e.state ∧
      e'.tables.desired.unlinked = e.tables.desired.unlinked ∧
      Converged e'.tables.desired e'.tables.installed := by
  obtain ⟨ft1, msgs1, ft2, msgs2, h1, h2, -, -, -, -⟩ := putLoops_spec h.desired h.links
  obtain ⟨inv1, tr1⟩ := installedLoop_trace h.desired h.links h1
  obtain ⟨inv2, tr2⟩ := desiredLoop_run h.desired h.links.installed inv1.frame
    (desiredLoopInv_init h.desired inv1) (desiredTrace_init tr1) h2
  have hcon : e.swconn.connected = true := by
    simp only [ofctrl_can_put, Bool.and_eq_true] at hc; exact hc.2
  rcases ofctrl_put_cases hs with ⟨hn', -⟩ | ⟨-, hc', -⟩ | ⟨-, -, hr⟩
  · rw [hn] at hn'; cases hn'
  · rw [hc] at hc'; cases hc'
  obtain rfl := Option.some.inj (hr.symm.trans (putReconcile_eq h1 h2))
  have hu := inv2.frame.trans inv1.frame
  obtain ⟨htab, hst, -⟩ := putFinish_frame _ _ _
  have hm1 := tr1.msgs
  have hm2 := tr2.msgs
  dsimp only at hm1 hm2
  have hf : flowMods ((flushCtZones e.pending_ct_zones).1 ++ groupAdds p e.groups ++
      e.meters.uninstalled.filterMap (meterAdd p meter_table) ++ msgs1 ++ msgs2 ++
      (groupDeletes p e.groups).1 ++ (meterDeletes e.meters).1) = owedMods e.tables := by
    rw [flowMods_put, flowMods, List.filterMap_append, ← flowMods, ← flowMods, hm1, hm2,
      flowMods_filterMap_flowMod, flowMods_map_flowMod]
    rfl
  refine ⟨⟨_, ?_, barrier_not_mem_put p meter_table _ (hm1 ▸ barrier_not_mem_filterMap _ _)
      (by rw [hm2]; simp), hf⟩, ?_, hst, by rw [htab]; exact hu, by
    rw [htab]
    exact ⟨fun i f hf => (lookupFlow_of_unlinked hu _).trans (tr2.lookup i f hf),
      fun d g hg => let ⟨i, f, hf, hk⟩ := inv2.agrees.desired d g hg; ⟨i, f, hf, hk⟩⟩⟩
  · rw [putFinish_log]
    simp only [hcon, true_and, ne_eq, ite_not]
  · rw [putFinish_flowLog, if_pos hcon, hf]

/-- In a reachable state in `S_UPDATE_FLOWS` whose installed table has converged, a switch that
applied the flow_mods queued on the connection, in order and from any table, holds the desired
view. -/
theorem Converged.switch_view {e : Ofctrl} (h : Reachable e) (hu : e.state = .S_UPDATE_FLOWS)
    (hc : Converged e.tables.desired e.tables.installed) (T : SwitchTable) :
    e.swconn.flowLog.foldl applyFlowMod T = desiredView e.tables.desired :=
  hc.mirrors_eq (reachable_tablesOk h).links.installed ((reachable_switchInv h).mirror hu T)

/-- After a put that reconciles, from any reachable state, a switch that applied the flow_mods
queued on the connection, in order and from any table, holds exactly the desired table as
`desired_flow_lookup` reads it: for each key the actions and cookie of the first desired flow of
that key in `match_flow_table`, and nothing for a key no desired flow has. -/
theorem put_switch_holds_desired_view {e e' : Ofctrl} (h : Reachable e) {p : ModParse}
    {meter_table : List SbrecMeter} {nb_cfg : Int} {flow_changed : Bool}
    (hn : (needPut e nb_cfg flow_changed).1 = true) (hc : ofctrl_can_put e = true)
    (hs : ofctrl_put e p meter_table nb_cfg flow_changed = some e') (T : SwitchTable) :
    e'.swconn.flowLog.foldl applyFlowMod T = desiredView e.tables.desired := by
  obtain ⟨-, -, hst, hu, hconv⟩ := ofctrl_put_converges (reachable_tablesOk h) hn hc hs
  have hup : e.state = .S_UPDATE_FLOWS := by
    simp only [ofctrl_can_put, Bool.and_eq_true, decide_eq_true_eq] at hc; exact hc.1.1
  rw [← desiredView_of_unlinked hu]
  exact hconv.switch_view (.step (.put p meter_table nb_cfg flow_changed) h hs) (hst.trans hup) T

/-- After the negotiation and the add of one flow, the put leaves the switch holding that flow
alone. -/
theorem onePut_switch_holds_desired_view :
    ∃ e e', Reachable e ∧ (needPut e 1 true).1 = true ∧ ofctrl_can_put e = true ∧
      ofctrl_put e acceptAll [] 1 true = some e' ∧
      desiredView e.tables.desired ⟨0, 100, ipMatch⟩ = some ([1], 7) ∧
      ∀ T, e'.swconn.flowLog.foldl applyFlowMod T = desiredView e.tables.desired :=
  ⟨_, _, reachable_of_isSome onePut.dropLast (by decide), by decide, by decide,
    (Option.some_get (by decide)).symm, by decide,
    put_switch_holds_desired_view (reachable_of_isSome onePut.dropLast (by decide)) (by decide)
      (by decide) (Option.some_get (by decide)).symm⟩

/-- A reconciliation is idempotent: after a put that reconciles, from any reachable state, a put
from any state with the same tables, such as the state once the queue has drained, whatever its
arguments, sends no flow_mod. -/
theorem put_after_put_sends_no_flow_mod {e e1 e2 e3 : Ofctrl} (h : Reachable e) {p p' : ModParse}
    {meter_table meter_table' : List SbrecMeter} {nb_cfg nb_cfg' : Int} {flow_changed flow_changed' : Bool}
    (hn : (needPut e nb_cfg flow_changed).1 = true) (hc : ofctrl_can_put e = true)
    (h1 : ofctrl_put e p meter_table nb_cfg flow_changed = some e1) (ht : e2.tables = e1.tables)
    (h3 : ofctrl_put e2 p' meter_table' nb_cfg' flow_changed' = some e3) :
    e3.swconn.flowLog = e2.swconn.flowLog := by
  have hconv : Converged e2.tables.desired e2.tables.installed :=
    ht ▸ (ofctrl_put_converges (reachable_tablesOk h) hn hc h1).2.2.2.2
  have ht2 : TablesOk e2.tables :=
    ht ▸ reachable_tablesOk (.step (.put p meter_table nb_cfg flow_changed) h h1)
  rcases ofctrl_put_cases h3 with ⟨-, rfl⟩ | ⟨-, -, rfl⟩ | ⟨hn3, hc3, -⟩
  · rfl
  · rfl
  · rw [(ofctrl_put_converges ht2 hn3 hc3 h3).2.1, hconv.owedMods_eq_nil ht2.desired ht2.links.installed,
      List.append_nil]

/-- After the negotiation and the add of one flow, a put sends the flow's add; once the queue
has drained, a second put, for the next revision with a flow change, reconciles and sends
nothing. -/
theorem onePut_put_again :
    ∃ e e1 e2 e3, Reachable e ∧ (needPut e 1 true).1 = true ∧ ofctrl_can_put e = true ∧
      ofctrl_put e acceptAll [] 1 true = some e1 ∧ step e1 (.transmit 2) = some e2 ∧
      e2.tables = e1.tables ∧ (needPut e2 2 true).1 = true ∧ ofctrl_can_put e2 = true ∧
      ofctrl_put e2 acceptAll [] 2 true = some e3 ∧ e3.swconn.flowLog = e2.swconn.flowLog :=
  ⟨_, _, _, _, reachable_of_isSome onePut.dropLast (by decide), by decide, by decide,
    (Option.some_get (by decide)).symm, rfl, rfl, by decide, by decide, (Option.some_get (by decide)).symm,
    put_after_put_sends_no_flow_mod (reachable_of_isSome onePut.dropLast (by decide)) (by decide)
      (by decide) (Option.some_get (by decide)).symm rfl (Option.some_get (by decide)).symm⟩

/-! ## The flow_mods of one put name distinct flows -/

/-- The flow a flow_mod names; none for the delete-all, which names every flow. -/
def FlowMod.target : FlowMod → Option FlowKey
  | .deleteAll => none
  | .add k _ _ => some k
  | .modifyStrict k _ => some k
  | .deleteStrict k => some k

theorem applyFlowMod_target {m : FlowMod} {k : FlowKey} (hm : m.target = some k) :
    ∃ F : Option (List UInt8 × UInt64) → Option (List UInt8 × UInt64),
      ∀ T, applyFlowMod T m = Function.update T k (F (T k)) := by
  cases m with
  | deleteAll => cases hm
  | add k' a c => cases hm; exact ⟨fun _ => some (a, c), fun _ => rfl⟩
  | modifyStrict k' a => cases hm; exact ⟨Option.map fun v => (a, v.2), fun _ => rfl⟩
  | deleteStrict k' => cases hm; exact ⟨fun _ => none, fun _ => rfl⟩

theorem applyFlowMod_comm {a b : FlowMod} {ka kb : FlowKey} (ha : a.target = some ka)
    (hb : b.target = some kb) (ne : ka ≠ kb) (T : SwitchTable) :
    applyFlowMod (applyFlowMod T a) b = applyFlowMod (applyFlowMod T b) a := by
  obtain ⟨Fa, hFa⟩ := applyFlowMod_target ha
  obtain ⟨Fb, hFb⟩ := applyFlowMod_target hb
  rw [hFa, hFb, hFb, hFa, Function.update_noteq ne.symm, Function.update_noteq ne,
    Function.update_comm ne]

theorem foldl_applyFlowMod_perm {l l' : List FlowMod} (hp : l'.Perm l)
    (hk : (l.map FlowMod.target).Nodup) (hs : ∀ m ∈ l, m.target.isSome) (T : SwitchTable) :
    l'.foldl applyFlowMod T = l.foldl applyFlowMod T := by
  refine hp.foldl_eq' (fun x hx y hy z => ?_) T
  by_cases e : x = y
  · rw [e]
  obtain ⟨kx, hkx⟩ := Option.isSome_iff_exists.1 (hs x (hp.subset hx))
  obtain ⟨ky, hky⟩ := Option.isSome_iff_exists.1 (hs y (hp.subset hy))
  exact applyFlowMod_comm hkx hky
    (fun hxy => e (List.inj_on_of_nodup_map hk (hp.subset hx) (hp.subset hy) (by rw [hkx, hky, hxy]))) z

theorem owedMod_target {t : OvnDesiredFlowTable} {f : OvnFlow} {m : FlowMod} (h : owedMod t f = some m) :
    m.target = some f.key := by
  unfold owedMod at h
  split_ifs at h
  · cases h; rfl
  · obtain ⟨g, -, h⟩ := Option.bind_eq_some.1 h
    split_ifs at h <;> cases h <;> rfl

theorem owedAdd_target {ft : FlowTables} {d : Nat} {m : FlowMod} (h : owedAdd ft d = some m) :
    ∃ g, ft.desired.flow_heap d = some g ∧ desired_flow_lookup ft.desired g.flow none = some d ∧
      (∀ i ∈ ft.installed.installed_flows, (ft.installed.flow_heap i).all (·.flow.key ≠ g.flow.key)) ∧
      m.target = some g.flow.key := by
  obtain ⟨g, hg, h⟩ := Option.bind_eq_some.1 h
  split_ifs at h with c
  cases h
  exact ⟨g, hg, c.1, c.2, rfl⟩

/-- The flow_mods a reconciliation owes each name one flow, and no two the same: each
installed flow names its own key, and an add names a key that no installed flow has, for the
one desired flow the lookup returns for it. -/
theorem owedMods_targets {ft : FlowTables} (h : TablesOk ft) :
    ((owedMods ft).map FlowMod.target).Nodup ∧ ∀ m ∈ owedMods ft, m.target.isSome := by
  have hi := h.links.installed
  have hA : ∀ i b, b ∈ ((ft.installed.flow_heap i).bind (owedMod ft.desired ·.flow)).map FlowMod.target →
      ∃ f, ft.installed.flow_heap i = some f ∧ b = some f.flow.key := by
    intro i b hb
    cases hf : ft.installed.flow_heap i with
    | none => simp [hf] at hb
    | some f =>
      rw [hf, Option.some_bind] at hb
      obtain ⟨m, hm, rfl⟩ := Option.map_eq_some'.1 hb
      exact ⟨f, rfl, owedMod_target hm⟩
  have hB : ∀ d b, b ∈ (owedAdd ft d).map FlowMod.target → ∃ g, ft.desired.flow_heap d = some g ∧
      desired_flow_lookup ft.desired g.flow none = some d ∧ ¬ InstalledHas ft.installed g.flow.key ∧
      b = some g.flow.key := by
    intro d b hb
    obtain ⟨m, hm, rfl⟩ := Option.map_eq_some'.1 hb
    obtain ⟨g, hg, hl, hn, ht⟩ := owedAdd_target hm
    exact ⟨g, hg, hl, (installed_all_iff hi _).1 hn, ht⟩
  refine ⟨?_, fun m hm => ?_⟩
  · rw [owedMods, List.map_append, List.map_filterMap, List.map_filterMap]
    refine (hi.list_nodup.filterMap fun i i' b h1 h2 => ?_).append
      (h.desired.1.flows.match_nodup.filterMap fun d d' b h1 h2 => ?_) fun b h1 h2 => ?_
    · obtain ⟨f, hf, rfl⟩ := hA i b h1
      obtain ⟨f', hf', e⟩ := hA i' _ h2
      exact hi.key_unique i i' f f' hf hf' (Option.some.inj e)
    · obtain ⟨g, hg, hl, -, rfl⟩ := hB d b h1
      obtain ⟨g', hg', hl', -, e⟩ := hB d' _ h2
      have hk := Option.some.inj e
      rw [desired_flow_lookup_congr _ (hash_eq_of_key_eq (h.desired.1.flows.hash_ok d g hg)
        (h.desired.1.flows.hash_ok d' g' hg') hk) hk, hl'] at hl
      exact (Option.some.inj hl).symm
    · obtain ⟨i, -, h1⟩ := List.mem_filterMap.1 h1
      obtain ⟨d, -, h2⟩ := List.mem_filterMap.1 h2
      obtain ⟨f, hf, rfl⟩ := hA i b h1
      obtain ⟨g, -, -, hn, e⟩ := hB d _ h2
      exact hn ⟨i, f, hf, Option.some.inj e⟩
  · rcases List.mem_append.1 hm with hm | hm <;> obtain ⟨x, -, hx⟩ := List.mem_filterMap.1 hm
    · obtain ⟨f, hf, e⟩ := hA x m.target (by rw [hx]; rfl)
      rw [e]; rfl
    · obtain ⟨g, -, -, -, e⟩ := hB x m.target (by rw [hx]; rfl)
      rw [e]; rfl

/-- The flow_mods a put that reconciles sends, from any reachable state, each name one flow,
and no two the same. So a switch that reorders them before the barrier, as OpenFlow allows,
ends with the same table whatever order it applies them in. -/
theorem put_flow_mods_any_order {e e' : Ofctrl} (h : Reachable e) {p : ModParse}
    {meter_table : List SbrecMeter} {nb_cfg : Int} {flow_changed : Bool}
    (hn : (needPut e nb_cfg flow_changed).1 = true) (hc : ofctrl_can_put e = true)
    (hs : ofctrl_put e p meter_table nb_cfg flow_changed = some e') :
    ∃ mods, e'.swconn.flowLog = e.swconn.flowLog ++ mods ∧ (mods.map FlowMod.target).Nodup ∧
      (∀ m ∈ mods, m.target.isSome) ∧
      ∀ mods' : List FlowMod, mods'.Perm mods → ∀ T, mods'.foldl applyFlowMod T = mods.foldl applyFlowMod T := by
  have ht := reachable_tablesOk h
  obtain ⟨hd, hsome⟩ := owedMods_targets ht
  exact ⟨owedMods e.tables, (ofctrl_put_converges ht hn hc hs).2.1, hd, hsome,
    fun _ hp => foldl_applyFlowMod_perm hp hd hsome⟩

/-- After the negotiation and the add of one flow, the put sends one flow_mod, the add of that
flow. -/
theorem onePut_flow_mods :
    ∃ e e', Reachable e ∧ (needPut e 1 true).1 = true ∧ ofctrl_can_put e = true ∧
      ofctrl_put e acceptAll [] 1 true = some e' ∧
      e'.swconn.flowLog = e.swconn.flowLog ++ [.add ⟨0, 100, ipMatch⟩ [1] 7] ∧
      ∃ mods, e'.swconn.flowLog = e.swconn.flowLog ++ mods ∧ (mods.map FlowMod.target).Nodup ∧
        (∀ m ∈ mods, m.target.isSome) ∧
        ∀ mods' : List FlowMod, mods'.Perm mods → ∀ T, mods'.foldl applyFlowMod T = mods.foldl applyFlowMod T :=
  ⟨_, _, reachable_of_isSome onePut.dropLast (by decide), by decide, by decide,
    (Option.some_get (by decide)).symm, by decide,
    put_flow_mods_any_order (reachable_of_isSome onePut.dropLast (by decide)) (by decide) (by decide)
      (Option.some_get (by decide)).symm⟩

/-! ## Desired-table operations never reach the switch -/

/-- Desired-table operations, the flood and the clear included, never reach the switch by
themselves: from any reachable state they send nothing and leave every installed flow's key,
actions and cookie as they were; only its links to desired flows change. A change of the
desired table reaches the switch through a put alone. -/
theorem desired_ops_leave_switch {e e' : Ofctrl} (h : Reachable e) {op : DesiredOp}
    (hs : desiredOp e op = some e') :
    e'.swconn = e.swconn ∧ ∀ i, (e'.tables.installed.flow_heap i).map (·.flow) =
      (e.tables.installed.flow_heap i).map (·.flow) := by
  obtain ⟨g, m, he⟩ := desiredOp_frame hs
  refine ⟨by rw [he], fun i => ?_⟩
  rcases desiredOp_stable (reachable_tablesOk h) (floodStable_flowsKept e.tables) (fun _ => rfl) hs with
    hi | hk
  · rw [hi]
  · exact hk i

/-- After `onePut`, removing the uuid of its one flow empties the desired table but leaves the
switch and the installed flow as they were, until the next put. -/
theorem onePut_remove_leaves_switch :
    ∃ e e', Reachable e ∧ desiredOp e (.remove_flows 1) = some e' ∧
      e'.tables.desired.match_flow_table = [] ∧ (e'.tables.installed.flow_heap 0).map (·.flow.key) =
        some ⟨0, 100, ipMatch⟩ ∧
      e'.swconn = e.swconn ∧ ∀ i, (e'.tables.installed.flow_heap i).map (·.flow) =
        (e.tables.installed.flow_heap i).map (·.flow) :=
  ⟨_, _, reachable_of_isSome onePut (by decide), (Option.some_get (by decide)).symm, by decide, by decide,
    desired_ops_leave_switch (reachable_of_isSome onePut (by decide)) (Option.some_get (by decide)).symm⟩

/-! ## Runs of a caller that reports its changes -/

/-- Between two steps of an honest run, when no put is owed, the installed table holds the
desired table as the lookup reads it. -/
def ConvergedInv (e : Ofctrl) (dirty : Bool) : Prop :=
  dirty = false → e.skipped_last_time = false → e.need_reinstall_flows = false →
    Converged e.tables.desired e.tables.installed

section Steps

variable {e e' : Ofctrl}

theorem convergedInv_put {dirty : Bool} (ht : TablesOk e.tables) (hi : ConvergedInv e dirty)
    {p : ModParse} {meter_table : List SbrecMeter} {nb_cfg : Int} {flow_changed : Bool}
    (hf : dirty = true → flow_changed = true)
    (hs : ofctrl_put e p meter_table nb_cfg flow_changed = some e') : ConvergedInv e' false := by
  intro _ hsk _
  rcases ofctrl_put_cases hs with ⟨hn, rfl⟩ | ⟨-, -, rfl⟩ | ⟨hn, hc, -⟩
  · obtain ⟨hfc, hsk0, hre⟩ := needPut_false hn
    exact hi (by cases dirty <;> simp_all) hsk0 hre
  · cases hsk
  · exact (ofctrl_put_converges ht hn hc hs).2.2.2.2

theorem convergedInv_other {dirty : Bool} (hi : ConvergedInv e dirty) {ev : Event}
    (hp : ∀ p meter_table nb_cfg flow_changed, ev ≠ .put p meter_table nb_cfg flow_changed)
    (hd : ∀ op, ev ≠ .desired op) (hs : step e ev = some e') : ConvergedInv e' dirty := by
  rcases step_cases hs with ⟨_, _, -, hr⟩ | ⟨p, meter_table, nb_cfg, flow_changed, rfl, -⟩ |
    ⟨op, rfl, -⟩ | ⟨g, m, z, x, c, rfl, -⟩
  · obtain ⟨hk, hr⟩ := ofctrl_run_reinstall hr
    intro hd hsk hre
    obtain ⟨ht, hre0⟩ := hr hre
    rw [ht]
    exact hi hd (hk ▸ hsk) hre0
  · exact absurd rfl (hp p meter_table nb_cfg flow_changed)
  · exact absurd rfl (hd op)
  · exact hi

end Steps

theorem honestRun_converged {e : Ofctrl} {dirty : Bool} (h : HonestRun e dirty) :
    TablesOk e.tables ∧ ConvergedInv e dirty := by
  induction h with
  | init => exact ⟨tablesOk_init, fun _ _ _ => ⟨nofun, nofun⟩⟩
  | put p meter_table nb_cfg flow_changed _ hf hs ih =>
    exact ⟨step_tablesOk ih.1 hs, convergedInv_put ih.1 ih.2 hf hs⟩
  | unchanged op _ hs hd ih =>
    obtain ⟨ht, hsk, hre⟩ := desiredOp_unchanged ih.1 hs hd
    refine ⟨step_tablesOk ih.1 hs, fun h1 h2 h3 => ?_⟩
    rw [ht]
    exact ih.2 h1 (hsk ▸ h2) (hre ▸ h3)
  | changed op _ hs ih => exact ⟨step_tablesOk ih.1 hs, nofun⟩
  | other ev _ hp hd hs ih => exact ⟨step_tablesOk ih.1 hs, convergedInv_other ih.2 hp hd hs⟩

/-- In a run where the caller passes `flow_changed = true` to `ofctrl_put` whenever it has
changed the desired table since its previous put, whenever no put is owed (no change since the
last put, no put skipped, no reinstall pending) and the connection is in `S_UPDATE_FLOWS`, a
switch that applied the flow_mods queued on the connection, in order and from any table, holds
exactly the desired table as `desired_flow_lookup` reads it. -/
theorem honest_switch_holds_desired_view {e : Ofctrl} (h : HonestRun e false)
    (hsk : e.skipped_last_time = false) (hre : e.need_reinstall_flows = false)
    (hu : e.state = .S_UPDATE_FLOWS) (T : SwitchTable) :
    e.swconn.flowLog.foldl applyFlowMod T = desiredView e.tables.desired :=
  ((honestRun_converged h).2 rfl hsk hre).switch_view h.reachable hu T

theorem honestRun_onePut : HonestRun ((exec ofctrl_init onePut).get (by decide)) false :=
  HonestRun.put acceptAll [] 1 true honestRun_onePut_added (fun _ => rfl) onePut_last_step

/-- After the honest run `onePut` no put is owed, and the switch holds the one flow added. -/
theorem onePut_honest_holds_desired_view :
    ∃ e, HonestRun e false ∧ e.skipped_last_time = false ∧ e.need_reinstall_flows = false ∧
      e.state = .S_UPDATE_FLOWS ∧ desiredView e.tables.desired ⟨0, 100, ipMatch⟩ = some ([1], 7) ∧
      ∀ T, e.swconn.flowLog.foldl applyFlowMod T = desiredView e.tables.desired :=
  ⟨_, honestRun_onePut, by decide, by decide, by decide, by decide,
    honest_switch_holds_desired_view honestRun_onePut (by decide) (by decide) (by decide)⟩

end OvnOfctrl
