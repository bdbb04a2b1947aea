-- The desired-table operations seen from the installed table: each keeps the links between
-- installed and desired flows, the removals never stop on an assert, keep the installed
-- flows' data, and one that leaves the desired table as it was leaves the installed table.
import OvnOfctrl.InstalledLinks

namespace OvnOfctrl

variable {ft ft' : FlowTables}

/-! ## Adding flows -/

section Add

theorem keepsLinks_modifyFlow {t : OvnDesiredFlowTable} {d : Nat} {G : DesiredFlow → DesiredFlow}
    (hG : ∀ g, installedLink (G g) = installedLink g) : KeepsLinks t (t.modifyFlow d G) := by
  intro d'
  simp only [OvnDesiredFlowTable.modifyFlow, OvnDesiredFlowTable.setFlow_heap]
  split_ifs with e
  · subst e; cases t.flow_heap d' <;> simp [hG]
  · rfl

theorem keepsLinks_link_flow_to_sb (t : OvnDesiredFlowTable) (d : Nat) (u : Uuid) :
    KeepsLinks t (link_flow_to_sb t d u) := by
  intro d'
  simp only [link_flow_to_sb_heap, Function.update_apply]
  split_ifs with e
  · subst e; cases t.flow_heap d' <;> rfl
  · rfl

theorem refsOk_insertDesired (h : RefsOk ft) {f : DesiredFlow}
    (hn : ft.desired.flow_heap ft.desired.next_id = none) (hf : f.installed_flow = none) :
    RefsOk { ft with desired := insertDesired ft.desired f } := by
  refine ⟨h.primary, h.refs_nodup, fun i f' hf' d hd => ?_, fun d g i hg hi => ?_⟩
  · obtain ⟨g, hg, hgi, hk⟩ := h.refs_linked i f' hf' d hd
    have ne : d ≠ ft.desired.next_id := by rintro rfl; rw [hn] at hg; cases hg
    exact ⟨g, by simp [Function.update_apply, ne, hg], hgi, hk⟩
  · simp only [insertDesired_heap, Function.update_apply] at hg
    split_ifs at hg
    · cases hg; simp [hf] at hi
    · exact h.linked_refs d g i hg hi

theorem linksOk_insert_link (h : LinksOk ft) (hw : WellLinked ft.desired) {f : DesiredFlow}
    (hf : f.installed_flow = none) (u : Uuid) :
    LinksOk { ft with desired :=
      (link_flow_to_sb (insertDesired ft.desired f) ft.desired.next_id u) } :=
  (show LinksOk { ft with desired := insertDesired ft.desired f } from
    ⟨h.installed, refsOk_insertDesired h.refs (hw.1.flows.fresh _ le_rfl).1 hf⟩).keep
    (keepsLinks_link_flow_to_sb _ _ _)

theorem linksOk_check_and_add_flow (h : LinksOk ft) (hw : WellLinked ft.desired)
    (table_id : UInt8) (priority : UInt16) (cookie : UInt64) (m : Minimatch)
    (actions : List UInt8) (sb_uuid : Uuid) (log_duplicate_flow : Bool) :
    LinksOk { ft with desired := (ofctrl_check_and_add_flow ft.desired table_id priority cookie
      m actions sb_uuid log_duplicate_flow) } := by
  unfold ofctrl_check_and_add_flow
  dsimp only
  split
  · exact h
  · exact linksOk_insert_link h hw rfl sb_uuid

theorem linksOk_add_or_append_flow (h : LinksOk ft) (hw : WellLinked ft.desired)
    (table_id : UInt8) (priority : UInt16) (cookie : UInt64) (m : Minimatch)
    (actions : List UInt8) (sb_uuid : Uuid) :
    LinksOk { ft with desired := (ofctrl_add_or_append_flow ft.desired table_id priority cookie
      m actions sb_uuid) } := by
  unfold ofctrl_add_or_append_flow
  dsimp only
  split
  · rename_i e _
    have h1 := h.keep (show KeepsLinks ft.desired (ft.desired.modifyFlow e fun g =>
      { g with flow := { g.flow with ofpacts := g.flow.ofpacts ++ actions } }) from
      keepsLinks_modifyFlow fun _ => rfl)
    exact LinksOk.keep h1 (keepsLinks_link_flow_to_sb _ e sb_uuid)
  · exact linksOk_insert_link h hw rfl sb_uuid

end Add

/-! ## Removing flows -/

section Remove

section Stable

variable {Q : FlowTables → Prop}

theorem FloodStable.of_removeRef (hQ : FloodStable Q) (hq : Q ft) {r : Nat}
    (hr : removeRef ft r = some ft') : Q ft' := by
  obtain ⟨t1, d, f, hd, hcase⟩ := removeRef_cases hr
  have h1 : Q { ft with desired := t1 } := hQ.keep ft t1 hq (keepsLinks_dropRef hd)
  rcases hcase with ⟨-, h2⟩ | ⟨-, rfl⟩
  · exact hQ.remove _ _ d f h1 (dropRef_heap hd) h2
  · exact h1

theorem FloodStable.of_remove_flows_from_sb_to_flow (hQ : FloodStable Q) (hq : Q ft)
    {stf : SbToFlow} (h : remove_flows_from_sb_to_flow ft stf = some ft') : Q ft' := by
  unfold remove_flows_from_sb_to_flow at h
  obtain ⟨ft1, h1, h2⟩ := Option.bind_eq_some.1 h
  cases h2
  exact hQ.keep _ _ (foldlM_inv Q (fun _ _ _ q hr => hQ.of_removeRef q hr) hq h1) fun _ => rfl

theorem FloodStable.of_removeFlowsOf (hQ : FloodStable Q) (hq : Q ft) {u : Uuid}
    (h : removeFlowsOf ft u = some ft') : Q ft' := by
  unfold removeFlowsOf at h
  split at h
  · exact hQ.of_remove_flows_from_sb_to_flow hq h
  · cases h; exact hq

theorem FloodStable.of_desired_clear (hQ : FloodStable Q) (hq : Q ft)
    (h : ovn_desired_flow_table_clear ft = some ft') : Q ft' :=
  foldlM_inv Q (fun _ _ _ q hr => hQ.of_remove_flows_from_sb_to_flow q hr) hq h

end Stable

theorem linksOk_removeRef (h : LinksOk ft) {r : Nat} (hr : removeRef ft r = some ft') :
    LinksOk ft' :=
  floodStable_linksOk.of_removeRef h hr

theorem removeRef_exists (h : LinksOk ft) {uft : List SbToFlow}
    (hl : Linked [] [] uft ft.desired) {stf : SbToFlow} (hs : stf ∈ uft) {r : Nat}
    (hm : r ∈ stf.flows) : ∃ ft', removeRef ft r = some ft' := by
  obtain ⟨s, hs', -, -⟩ := hl.entries.entry_ref stf hs r hm
  obtain ⟨g, hg, -⟩ := hl.flows.ref_flow r s hs'
  have hd : dropRef ft.desired r = some (({ ft.desired with
      ref_heap := Function.update ft.desired.ref_heap r none }).setFlow s.flow
      (some { g with references := g.references.erase r }), s.flow,
      { g with references := g.references.erase r }) := by
    simp [dropRef, hs', hg]
  unfold removeRef
  rw [hd]
  dsimp only [Option.bind_eq_bind, Option.some_bind]
  split
  · exact removeDesired_exists (h.keep (keepsLinks_dropRef hd)) (dropRef_heap hd) ‹_›
  · exact ⟨_, rfl⟩

theorem remove_flows_from_sb_to_flow_spec (hw : WellLinked ft.desired) (h : LinksOk ft)
    {stf : SbToFlow} (hs : stf ∈ ft.desired.uuid_flow_table) :
    ∃ ft', remove_flows_from_sb_to_flow ft stf = some ft' ∧ LinksOk ft' := by
  obtain ⟨ft1, h1, -, -, hL⟩ := foldlM_exists (fun rest (ft1 : FlowTables) =>
      Linked [] [] (withEntry ft.desired.uuid_flow_table stf.sb_uuid rest) ft1.desired ∧
      Referenced [] ft1.desired ∧ LinksOk ft1)
    (fun r rest ft1 ⟨hl, hR, hL⟩ => by
      have hs1 := mem_withEntry_self (l := r :: rest) hs rfl
      obtain ⟨ft2, h2⟩ := removeRef_exists hL hl hs1 (List.mem_cons_self _ _)
      have := linked_removeRef hl hR hs1 rfl h2
      exact ⟨ft2, h2, by simpa using this.1, this.2, linksOk_removeRef hL h2⟩)
    (f := removeRef) (l := stf.flows)
    ⟨by rw [withEntry_self hw.1.entries.uuids_nodup hs]; exact hw.1, hw.2, h⟩
  exact ⟨{ ft1 with desired := { ft1.desired with
    uuid_flow_table := eraseEntry ft1.desired.uuid_flow_table stf.sb_uuid } },
    by simp [remove_flows_from_sb_to_flow, h1], hL.keep fun _ => rfl⟩

theorem removeFlowsOf_spec (hw : WellLinked ft.desired) (h : LinksOk ft) (u : Uuid) :
    ∃ ft', removeFlowsOf ft u = some ft' ∧ LinksOk ft' := by
  unfold removeFlowsOf
  split
  · exact remove_flows_from_sb_to_flow_spec hw h (sb_to_flow_find_some ‹_›).1
  · exact ⟨ft, rfl, h⟩

theorem desired_clear_spec (hw : WellLinked ft.desired) (h : LinksOk ft) :
    ∃ ft', ovn_desired_flow_table_clear ft = some ft' ∧ LinksOk ft' := by
  obtain ⟨ft', h1, -, h2, -⟩ := foldlM_exists (fun rest (ft1 : FlowTables) =>
      WellLinked ft1.desired ∧ LinksOk ft1 ∧ ft1.desired.uuid_flow_table = rest)
    (fun stf rest ft1 ⟨hw1, h1, hu⟩ => by
      have hs : stf ∈ ft1.desired.uuid_flow_table := hu ▸ List.mem_cons_self _ _
      obtain ⟨ft2, h2, hL⟩ := remove_flows_from_sb_to_flow_spec hw1 h1 hs
      refine ⟨ft2, h2, wellLinked_remove_flows_from_sb_to_flow hw1 hs h2, hL, ?_⟩
      rw [remove_flows_from_sb_to_flow_uuid h2, hu]
      simp [eraseEntry, List.eraseP_cons])
    (f := remove_flows_from_sb_to_flow) (l := ft.desired.uuid_flow_table) ⟨hw, h, rfl⟩
  exact ⟨ft', h1, h2⟩

end Remove

/-! ## What the removals change -/

section Removals

variable {ft0 : FlowTables}

/-- The installed flows of `ft0`, with their flow data: only their links may differ. -/
def FlowsKept (ft0 ft : FlowTables) : Prop :=
  ∀ i, (ft.installed.flow_heap i).map (·.flow) = (ft0.installed.flow_heap i).map (·.flow)

theorem removeDesired_flowsKept {d : Nat} {g : DesiredFlow} (h : removeDesired ft d g = some ft') :
    FlowsKept ft ft' := by
  unfold removeDesired at h
  dsimp only at h
  split at h
  · rename_i i _
    obtain ⟨ft1, h1, h2⟩ := Option.bind_eq_some.1 h
    obtain ⟨-, -, -, -, rfl⟩ := desired_flow_destroy_some h2
    obtain ⟨f, hf, e, -⟩ := unlink_installed h1
    intro j
    by_cases ej : j = i
    · subst ej; dsimp only at hf; simp [e, hf]
    · simp [e, ej]
  · obtain ⟨-, -, -, -, rfl⟩ := desired_flow_destroy_some h
    exact fun _ => rfl

theorem floodStable_flowsKept (ft0 : FlowTables) : FloodStable (FlowsKept ft0) :=
  ⟨fun _ _ h _ => h, fun _ _ _ _ h _ hr j => (removeDesired_flowsKept hr j).trans (h j)⟩

/-- `ft` comes from `ft0` by removals: no desired flow appears, and the installed table
changes only once some desired flow of `ft0` is gone. -/
structure Shrinks (ft0 ft : FlowTables) : Prop where
  no_new : ∀ d, (ft.desired.flow_heap d).isSome → (ft0.desired.flow_heap d).isSome
  installed : ft.installed = ft0.installed ∨
    ∃ d, (ft0.desired.flow_heap d).isSome ∧ ft.desired.flow_heap d = none

theorem KeepsLinks.isSome {t t' : OvnDesiredFlowTable} (hk : KeepsLinks t t') (d : Nat) :
    (t'.flow_heap d).isSome = (t.flow_heap d).isSome := by
  simpa using congrArg Option.isSome (hk d)

theorem floodStable_shrinks (ft0 : FlowTables) : FloodStable (Shrinks ft0) := by
  refine ⟨fun ft t' h hk => ⟨fun d hd => h.no_new d (hk.isSome d ▸ hd), ?_⟩,
    fun ft ft' d g h hg hr => ⟨fun d' hd' => h.no_new d' ?_, .inr ⟨d, h.no_new d ?_, ?_⟩⟩⟩
  · rcases h.installed with e | ⟨d, h0, hd⟩
    · exact .inl e
    · exact .inr ⟨d, h0, by simpa [hd] using hk.isSome d⟩
  · rw [removeDesired_heap hr] at hd'
    split_ifs at hd'
    · simp at hd'
    · exact hd'
  · simp [hg]
  · simp [removeDesired_heap hr]

theorem Shrinks.eq_of_desired (h : Shrinks ft0 ft) (e : ft.desired = ft0.desired) : ft = ft0 := by
  rcases h.installed with hi | ⟨d, h0, hd⟩
  · exact FlowTables.ext e hi
  · rw [e] at hd; simp [hd] at h0

end Removals

end OvnOfctrl
