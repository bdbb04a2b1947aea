-- The invariants of the two flow tables over every run of the engine: the links of the
-- desired table and the links between installed and desired flows hold in every reachable
-- state, and from every reachable state the calls that reach the asserts of the link
-- helpers never abort.
import OvnOfctrl.Reconcile

namespace OvnOfctrl

/-- The invariants of the two tables between two steps. -/
structure TablesOk (ft : FlowTables) : Prop where
  desired : WellLinked ft.desired
  links : LinksOk ft

theorem tablesOk_init : TablesOk ofctrl_init.tables := ⟨wellLinked_init, linksOk_init⟩

theorem TablesOk.of_unlinked {ft ft' : FlowTables} (h : TablesOk ft) (hl : LinksOk ft')
    (e : ft'.desired.unlinked = ft.desired.unlinked) : TablesOk ft' :=
  ⟨wellLinked_of_unlinked h.desired e, hl⟩

/-! ## Each step -/

section Steps

variable {e e' : Ofctrl}

theorem runState_tablesOk (h : TablesOk e.tables) :
    ∃ e', runState e = some e' ∧ TablesOk e'.tables := by
  unfold runState
  split
  · exact ⟨_, rfl, h⟩
  · obtain ⟨ft', hc, hl, -, hu⟩ := installed_clear_spec h.links
    exact ⟨_, by simp [run_S_CLEAR_FLOWS, queue_msg, hc]; rfl, h.of_unlinked hl hu⟩
  all_goals exact ⟨e, rfl, h⟩

theorem ofctrl_run_tablesOk (h : TablesOk e.tables) (established : Bool)
    (recvd : List (Option Received)) :
    ∃ e', ofctrl_run e established recvd = some e' ∧ TablesOk e'.tables := by
  have hrun : ∀ e e', TablesOk e.tables → runState e = some e' → TablesOk e'.tables := by
    intro e e' h hr
    obtain ⟨e2, h2, p2⟩ := runState_tablesOk h
    rw [hr] at h2; cases h2; exact p2
  have hrecv : ∀ e m e', TablesOk e.tables → recvMsg e m = some e' → TablesOk e'.tables :=
    fun _ _ _ h hr => (RecvFrame.of_recvMsg hr).tables ▸ h
  have h1 : TablesOk (checkSeqno (rconnRun e established)).tables := by
    unfold checkSeqno rconnRun; split_ifs <;> exact h
  unfold ofctrl_run
  dsimp only
  split
  · exact ⟨_, rfl, by unfold rconnRun; split <;> exact h⟩
  · obtain ⟨e', he'⟩ := ofctrlRunLoop_exists (fun e => TablesOk e.tables)
      (fun _ h => runState_tablesOk h) hrecv 50 _ recvd h1
    exact ⟨e', he', ofctrlRunLoop_induct _ hrun hrecv 50 _ recvd e' h1 he'⟩

theorem ofctrl_put_tablesOk (h : TablesOk e.tables) (p : ModParse)
    (meter_table : List SbrecMeter) (nb_cfg : Int) (flow_changed : Bool) :
    ∃ e', ofctrl_put e p meter_table nb_cfg flow_changed = some e' ∧ TablesOk e'.tables := by
  unfold ofctrl_put
  dsimp only
  split
  · exact ⟨_, rfl, h⟩
  split
  · exact ⟨_, rfl, h⟩
  obtain ⟨ft, msgs1, msgs2, hr, hl, hu, -, -⟩ :=
    putReconcile_spec (e := { e with
      cur_cfg := (needPut e nb_cfg flow_changed).2, old_nb_cfg := nb_cfg })
      h.desired h.links p meter_table nb_cfg
  refine ⟨_, hr, ?_⟩
  rw [(putFinish_frame _ _ _).1]
  exact h.of_unlinked hl hu

/-- The desired-table operations keep the tables' invariants; all but the flood never
abort. -/
theorem desiredOp_tablesOk (h : TablesOk e.tables) (op : DesiredOp)
    (hs : desiredOp e op = some e') : TablesOk e'.tables := by
  cases op with
  | check_and_add t p c m a u l =>
    cases hs
    exact ⟨wellLinked_check_and_add_flow h.desired t p c m a u l,
      linksOk_check_and_add_flow h.links h.desired t p c m a u l⟩
  | add_or_append t p c m a u =>
    cases hs
    exact ⟨wellLinked_add_or_append_flow h.desired t p c m a u,
      linksOk_add_or_append_flow h.links h.desired t p c m a u⟩
  | remove_flows u =>
    obtain ⟨ft', hr, hl⟩ := removeFlowsOf_spec h.desired h.links u
    simp only [desiredOp, ofctrl_remove_flows, hr, Option.bind_eq_bind, Option.some_bind,
      Option.some.injEq] at hs
    subst hs
    exact ⟨wellLinked_removeFlowsOf h.desired hr, hl⟩
  | flood_remove_flows nodes =>
    simp only [desiredOp, ofctrl_flood_remove_flows, Option.bind_eq_bind, Option.map_eq_some',
      Option.bind_eq_some, Option.some.injEq] at hs
    obtain ⟨_, ⟨⟨ft', nodes'⟩, hf, rfl⟩, rfl⟩ := hs
    obtain ⟨hw, hl⟩ := floodRemoveFlows_inv floodStable_linksOk h.desired h.links hf
    exact ⟨hw, hl⟩
  | clear =>
    obtain ⟨ft', hc, hl⟩ := desired_clear_spec h.desired h.links
    simp only [desiredOp, hc, Option.map_some', Option.some.injEq] at hs
    subst hs
    exact ⟨wellLinked_ovn_desired_flow_table_clear h.desired hc, hl⟩

/-- A desired-table operation changes nothing but the tables, groups and meters. -/
theorem desiredOp_frame {op : DesiredOp} (hs : desiredOp e op = some e') :
    ∃ g m, e' = { e with tables := e'.tables, groups := g, meters := m } := by
  cases op with
  | check_and_add => cases hs; exact ⟨_, _, rfl⟩
  | add_or_append => cases hs; exact ⟨_, _, rfl⟩
  | remove_flows u =>
    simp only [desiredOp, ofctrl_remove_flows, Option.bind_eq_bind, Option.bind_eq_some,
      Option.some.injEq] at hs
    obtain ⟨_, -, rfl⟩ := hs
    exact ⟨_, _, rfl⟩
  | flood_remove_flows nodes =>
    simp only [desiredOp, ofctrl_flood_remove_flows, Option.bind_eq_bind, Option.map_eq_some',
      Option.bind_eq_some, Option.some.injEq] at hs
    obtain ⟨_, ⟨_, -, rfl⟩, rfl⟩ := hs
    exact ⟨_, _, rfl⟩
  | clear =>
    simp only [desiredOp, Option.map_eq_some'] at hs
    obtain ⟨_, -, rfl⟩ := hs
    exact ⟨_, _, rfl⟩

/-- A desired-table operation either only adds to the desired table, leaving the installed
table as it was, or is a removal, which keeps every property the flood keeps. -/
theorem desiredOp_stable (h : TablesOk e.tables) {Q : FlowTables → Prop} (hQ : FloodStable Q)
    (hq : Q e.tables) {op : DesiredOp} (hs : desiredOp e op = some e') :
    e'.tables.installed = e.tables.installed ∨ Q e'.tables := by
  cases op with
  | check_and_add => cases hs; exact .inl rfl
  | add_or_append => cases hs; exact .inl rfl
  | remove_flows u =>
    simp only [desiredOp, ofctrl_remove_flows, Option.bind_eq_bind, Option.bind_eq_some,
      Option.some.injEq] at hs
    obtain ⟨_, hr, rfl⟩ := hs
    exact .inr (hQ.of_removeFlowsOf hq hr)
  | flood_remove_flows nodes =>
    simp only [desiredOp, ofctrl_flood_remove_flows, Option.bind_eq_bind, Option.map_eq_some',
      Option.bind_eq_some, Option.some.injEq] at hs
    obtain ⟨_, ⟨⟨ft', _⟩, hf, rfl⟩, rfl⟩ := hs
    exact .inr (floodRemoveFlows_inv hQ h.desired hq hf).2
  | clear =>
    simp only [desiredOp, Option.map_eq_some'] at hs
    obtain ⟨_, hc, rfl⟩ := hs
    exact .inr (hQ.of_desired_clear hq hc)

theorem step_tablesOk (h : TablesOk e.tables) {ev : Event} (hs : step e ev = some e') :
    TablesOk e'.tables := by
  rcases step_cases hs with ⟨established, recvd, -, hr⟩ |
    ⟨p, meter_table, nb_cfg, flow_changed, -, hp⟩ | ⟨op, -, hd⟩ | ⟨g, m, z, x, c, rfl, -⟩
  · obtain ⟨e2, h2, p2⟩ := ofctrl_run_tablesOk h established recvd
    rw [hr, Option.some.injEq] at h2
    exact h2 ▸ p2
  · obtain ⟨e2, h2, p2⟩ := ofctrl_put_tablesOk h p meter_table nb_cfg flow_changed
    rw [hp, Option.some.injEq] at h2
    exact h2 ▸ p2
  · exact desiredOp_tablesOk h op hd
  · exact h

theorem reachable_tablesOk {e : Ofctrl} (h : Reachable e) : TablesOk e.tables :=
  reachable_induct tablesOk_init (fun _ _ _ _ h hs => step_tablesOk h hs) h

end Steps

/-! ## The laws of the desired table -/

/-- The laws of the desired table as its design states them: each `sb_flow_ref` lies in
exactly two lists, the references of its flow and the list of the entry of its uuid; there
is one entry per uuid; the flows reached from a reference are in `match_flow_table`, once
each, under the hash of their key, each with a reference; no list node is linked. -/
structure DesiredLaws (t : OvnDesiredFlowTable) : Prop where
  ref_in_flows : ∀ r s, t.ref_heap r = some s → ∀ d f, t.flow_heap d = some f →
    f.references.count r = if d = s.flow then 1 else 0
  ref_in_entries : ∀ r s, t.ref_heap r = some s → ∀ stf ∈ t.uuid_flow_table,
    stf.flows.count r = if stf.sb_uuid = s.sb_uuid then 1 else 0
  ref_has_entry : ∀ r s, t.ref_heap r = some s → ∃ stf ∈ t.uuid_flow_table, stf.sb_uuid = s.sb_uuid
  flow_nodes_live : ∀ d f, t.flow_heap d = some f → ∀ r ∈ f.references, (t.ref_heap r).isSome
  entry_nodes_live : ∀ stf ∈ t.uuid_flow_table, ∀ r ∈ stf.flows, (t.ref_heap r).isSome
  one_entry_per_uuid : (t.uuid_flow_table.map (·.sb_uuid)).Nodup
  ref_flow_matched : ∀ r s, t.ref_heap r = some s → s.flow ∈ t.match_flow_table
  matched_referenced : ∀ d ∈ t.match_flow_table, ∃ f, t.flow_heap d = some f ∧ f.references ≠ []
  match_once : t.match_flow_table.Nodup
  flows_matched : ∀ d, (t.flow_heap d).isSome ↔ d ∈ t.match_flow_table
  hashed : ∀ d f, t.flow_heap d = some f →
    f.flow.hash = ovn_flow_match_hash f.flow.table_id f.flow.priority f.flow.match_
  unlisted : ∀ d f, t.flow_heap d = some f → f.list_node = false

/-- The invariant of the desired table gives its laws. -/
theorem WellLinked.laws {t : OvnDesiredFlowTable} (h : WellLinked t) : DesiredLaws t := by
  have hf := h.1.flows
  have he := h.1.entries
  refine ⟨fun r s hs d f hd => ?_, fun r s hs stf hstf => ?_, fun r s hs => ?_,
    fun d f hd r hr => ?_, fun stf hstf r hr => ?_, he.uuids_nodup, fun r s hs => ?_,
    fun d hd => ?_, hf.match_nodup, hf.live, hf.hash_ok, fun d f hd => ?_⟩
  · by_cases e : d = s.flow
    · subst e
      obtain ⟨f', hf', hm⟩ := hf.ref_flow r s hs
      rw [hd] at hf'; cases hf'
      simp [List.count_eq_one_of_mem (hf.refs_nodup _ _ hd) hm]
    · rw [if_neg e]
      refine List.count_eq_zero_of_not_mem fun hm => e ?_
      obtain ⟨s', hs', e'⟩ := hf.flow_ref d f hd r hm
      rw [hs] at hs'; cases hs'; exact e'.symm
  · by_cases e : stf.sb_uuid = s.sb_uuid
    · obtain ⟨stf', hs', e', hm⟩ := he.ref_entry r s hs (List.not_mem_nil _)
      obtain rfl := entry_unique he.uuids_nodup hs' hstf (e'.trans e.symm)
      simp [e, List.count_eq_one_of_mem (he.entries_nodup _ hstf) hm]
    · rw [if_neg e]
      refine List.count_eq_zero_of_not_mem fun hm => e ?_
      obtain ⟨s', hs', e', -⟩ := he.entry_ref stf hstf r hm
      rw [hs] at hs'; cases hs'; exact e'.symm
  · obtain ⟨stf, hstf, e, -⟩ := he.ref_entry r s hs (List.not_mem_nil _)
    exact ⟨stf, hstf, e⟩
  · obtain ⟨s, hs, -⟩ := hf.flow_ref d f hd r hr
    simp [hs]
  · obtain ⟨s, hs, -⟩ := he.entry_ref stf hstf r hr
    simp [hs]
  · obtain ⟨f, hf', -⟩ := hf.ref_flow r s hs
    exact (hf.live _).1 (by simp [hf'])
  · obtain ⟨f, hd'⟩ := Option.isSome_iff_exists.1 ((hf.live d).2 hd)
    exact ⟨f, hd', h.2 d f hd' (List.not_mem_nil d)⟩
  · simpa using hf.listed d f hd

/-- In every reachable state the desired table keeps its laws: whatever sequence of
additions, removals, flood removals, clears, puts and runs led there. -/
theorem desired_table_laws {e : Ofctrl} (h : Reachable e) : DesiredLaws e.tables.desired :=
  (reachable_tablesOk h).desired.laws

/-- The laws hold after `onePut`. -/
theorem desired_table_laws_onePut :
    ∃ e, Reachable e ∧ (e.tables.desired.match_flow_table = [0] ∧ DesiredLaws e.tables.desired) :=
  ⟨_, reachable_of_isSome onePut (by decide),
    by decide, desired_table_laws (reachable_of_isSome onePut (by decide))⟩

/-! ## The laws of the installed table -/

/-- The installed flow a desired flow's `installed_flow` names, if any. -/
def installedOf (t : OvnDesiredFlowTable) (d : Nat) : Option Nat :=
  (t.flow_heap d).bind (·.installed_flow)

/-- The laws of the installed table and its links as its design states them: one installed
flow per key, all in `installed_flows`; the primary desired flow is the first of
`desired_refs`, none when it is empty; a desired flow is in that list, exactly once, when
its `installed_flow` names the installed flow, and then it has its key, the installed flow
is listed, and the desired flow is in the desired table. -/
structure InstalledLaws (ft : FlowTables) : Prop where
  one_per_key : ∀ i j f g, ft.installed.flow_heap i = some f → ft.installed.flow_heap j = some g →
    f.flow.key = g.flow.key → i = j
  listed : ∀ i, (ft.installed.flow_heap i).isSome ↔ i ∈ ft.installed.installed_flows
  primary_first : ∀ i f, ft.installed.flow_heap i = some f → f.desired_flow = f.desired_refs.head?
  refs_exactly : ∀ i f d, ft.installed.flow_heap i = some f →
    f.desired_refs.count d = if installedOf ft.desired d = some i then 1 else 0
  linked_flow : ∀ d g i, ft.desired.flow_heap d = some g → g.installed_flow = some i →
    ∃ f, ft.installed.flow_heap i = some f ∧ g.flow.key = f.flow.key ∧
      i ∈ ft.installed.installed_flows ∧ d ∈ ft.desired.match_flow_table

theorem TablesOk.installedLaws {ft : FlowTables} (h : TablesOk ft) : InstalledLaws ft := by
  have hr := h.links.refs
  refine ⟨h.links.installed.key_unique, h.links.installed.live, hr.primary,
    fun i f d hf => ?_, fun d g i hg hi => ?_⟩
  · by_cases e : installedOf ft.desired d = some i
    · obtain ⟨g, hg, hi⟩ := Option.bind_eq_some.1 e
      obtain ⟨f', hf', hm⟩ := hr.linked_refs d g i hg hi
      rw [hf] at hf'; cases hf'
      simp [e, List.count_eq_one_of_mem (hr.refs_nodup i f hf) hm]
    · rw [if_neg e]
      refine List.count_eq_zero_of_not_mem fun hm => e ?_
      obtain ⟨g, hg, hi, -⟩ := hr.refs_linked i f hf d hm
      simp [installedOf, hg, hi]
  · obtain ⟨f, hf, hm⟩ := hr.linked_refs d g i hg hi
    obtain ⟨g', hg', -, hk⟩ := hr.refs_linked i f hf d hm
    rw [hg] at hg'; cases hg'
    exact ⟨f, hf, hk, (h.links.installed.live i).1 (by simp [hf]),
      (h.desired.1.flows.live d).1 (by simp [hg])⟩

end OvnOfctrl
