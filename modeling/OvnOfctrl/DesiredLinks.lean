-- The M:N links of the desired table: every `sb_flow_ref` sits in its flow's references and
-- in its uuid's entry, each once, and every flow of `match_flow_table` has a reference. The
-- invariant `Linked` is stated with the entry lists as a loop in progress sees them.
import Mathlib.Data.List.Nodup
import OvnOfctrl.Desired

namespace OvnOfctrl

/-! ## The invariant -/

/-- The flow side of the links: each live `sb_flow_ref` is in the references of the flow it
names and only there, once; the live flows are those of `match_flow_table`, each once,
under the hash of its key. `X` holds the flows a flood removal in progress has detached,
`Y` those it has listed in `to_be_removed` and not detached yet: their list nodes are the
linked ones. -/
structure FlowLinks (X Y : List Nat) (t : OvnDesiredFlowTable) : Prop where
  ref_flow : ∀ r s, t.ref_heap r = some s → ∃ f, t.flow_heap s.flow = some f ∧ r ∈ f.references
  flow_ref : ∀ d f, t.flow_heap d = some f → ∀ r ∈ f.references,
    ∃ s, t.ref_heap r = some s ∧ s.flow = d
  refs_nodup : ∀ d f, t.flow_heap d = some f → f.references.Nodup
  match_nodup : t.match_flow_table.Nodup
  live : ∀ d, (t.flow_heap d).isSome ↔ d ∈ t.match_flow_table
  hash_ok : ∀ d f, t.flow_heap d = some f → f.flow.HashOk
  listed : ∀ d f, t.flow_heap d = some f → (f.list_node = true ↔ d ∈ X ∨ d ∈ Y)
  fresh : ∀ n, t.next_id ≤ n → t.flow_heap n = none ∧ t.ref_heap n = none

/-- The entry side of the links, with `uft` standing for the uuid table: each live
`sb_flow_ref` of a flow outside `X` is in the list of the entry of its uuid, once, and
every node of an entry's list is such a reference; there is one entry per uuid. -/
structure EntryLinks (X : List Nat) (uft : List SbToFlow) (t : OvnDesiredFlowTable) : Prop where
  ref_entry : ∀ r s, t.ref_heap r = some s → s.flow ∉ X →
    ∃ stf ∈ uft, stf.sb_uuid = s.sb_uuid ∧ r ∈ stf.flows
  entry_ref : ∀ stf ∈ uft, ∀ r ∈ stf.flows,
    ∃ s, t.ref_heap r = some s ∧ s.sb_uuid = stf.sb_uuid ∧ s.flow ∉ X
  entries_nodup : ∀ stf ∈ uft, stf.flows.Nodup
  uuids_nodup : (uft.map (·.sb_uuid)).Nodup

/-- Both sides of the links. Between two operations `X` and `Y` are empty and `uft` is the
table's own uuid table; a loop over an entry's list sees that list as the nodes still to
come. -/
structure Linked (X Y : List Nat) (uft : List SbToFlow) (t : OvnDesiredFlowTable) : Prop where
  flows : FlowLinks X Y t
  entries : EntryLinks X uft t

/-- Every flow outside `X` has a reference. -/
def Referenced (X : List Nat) (t : OvnDesiredFlowTable) : Prop :=
  ∀ d f, t.flow_heap d = some f → d ∉ X → f.references ≠ []

/-- The invariant of the desired table between two operations. -/
def WellLinked (t : OvnDesiredFlowTable) : Prop :=
  Linked [] [] t.uuid_flow_table t ∧ Referenced [] t

theorem wellLinked_init : WellLinked ovn_desired_flow_table_init := by
  refine ⟨⟨⟨?_, ?_, ?_, ?_, ?_, ?_, ?_, ?_⟩, ⟨?_, ?_, ?_, ?_⟩⟩, ?_⟩ <;>
    simp [Referenced, ovn_desired_flow_table_init]

section Facts

variable {X Y : List Nat} {uft : List SbToFlow} {t : OvnDesiredFlowTable}

theorem FlowLinks.lt_next (h : FlowLinks X Y t) {d : Nat} {f : DesiredFlow}
    (hd : t.flow_heap d = some f) : d < t.next_id :=
  Nat.lt_of_not_le fun hn => by simp [(h.fresh d hn).1] at hd

theorem FlowLinks.not_mem_refs (h : FlowLinks X Y t) {r d : Nat} {f : DesiredFlow}
    (hr : t.ref_heap r = none) (hd : t.flow_heap d = some f) : r ∉ f.references := fun hm => by
  obtain ⟨s, hs, -⟩ := h.flow_ref d f hd r hm
  simp [hr] at hs

theorem EntryLinks.not_mem_entry (h : EntryLinks X uft t) {r : Nat} {stf : SbToFlow}
    (hr : t.ref_heap r = none) (hs : stf ∈ uft) : r ∉ stf.flows := fun hm => by
  obtain ⟨s, hs', -⟩ := h.entry_ref stf hs r hm
  simp [hr] at hs'

theorem EntryLinks.of_refs {t' : OvnDesiredFlowTable} (h : EntryLinks X uft t)
    (hr : t'.ref_heap = t.ref_heap) : EntryLinks X uft t' := by
  obtain ⟨h1, h2, h3, h4⟩ := h
  exact ⟨hr ▸ h1, hr ▸ h2, h3, h4⟩

theorem FlowLinks.with_uuid (h : FlowLinks X Y t) (l : List SbToFlow) :
    FlowLinks X Y { t with uuid_flow_table := l } :=
  ⟨h.1, h.2, h.3, h.4, h.5, h.6, h.7, h.8⟩

/-- What the flow side sees of a desired flow besides its list node: its references, hash
and key. -/
def linkData (g : DesiredFlow) : List Nat × UInt32 × FlowKey :=
  (g.references, g.flow.hash, g.flow.key)

/-- The flow side only reads the nodes, `match_flow_table`, the link data of the flows and
their list nodes: actions, cookies and installed links are free to change. -/
theorem FlowLinks.of_linkData {t' : OvnDesiredFlowTable} {X' Y' : List Nat} (h : FlowLinks X Y t)
    (hm : t'.match_flow_table = t.match_flow_table) (hr : t'.ref_heap = t.ref_heap)
    (hn : t'.next_id = t.next_id)
    (hf : ∀ d, (t'.flow_heap d).map linkData = (t.flow_heap d).map linkData)
    (hl : ∀ d g', t'.flow_heap d = some g' → (g'.list_node = true ↔ d ∈ X' ∨ d ∈ Y')) :
    FlowLinks X' Y' t' := by
  have back : ∀ {d g'}, t'.flow_heap d = some g' → ∃ g, t.flow_heap d = some g ∧
      g'.references = g.references ∧ g'.flow.hash = g.flow.hash ∧ g'.flow.key = g.flow.key := by
    intro d g' h'
    have := hf d
    rw [h'] at this
    obtain ⟨g, hg, e⟩ := Option.map_eq_some'.1 this.symm
    simp only [linkData, Prod.mk.injEq] at e
    exact ⟨g, hg, e.1.symm, e.2.1.symm, e.2.2.symm⟩
  have forth : ∀ {d g}, t.flow_heap d = some g → ∃ g', t'.flow_heap d = some g' ∧
      g'.references = g.references := by
    intro d g h'
    have := hf d
    rw [h'] at this
    obtain ⟨g', hg', e⟩ := Option.map_eq_some'.1 this
    simp only [linkData, Prod.mk.injEq] at e
    exact ⟨g', hg', e.1⟩
  refine ⟨?_, ?_, ?_, hm ▸ h.match_nodup, ?_, ?_, hl, ?_⟩
  · intro r s hs
    obtain ⟨g, hg, hr'⟩ := h.ref_flow r s (hr ▸ hs)
    obtain ⟨g', hg', e⟩ := forth hg
    exact ⟨g', hg', e ▸ hr'⟩
  · intro d g' hg' r hr'
    obtain ⟨g, hg, e, -⟩ := back hg'
    exact hr ▸ h.flow_ref d g hg r (e ▸ hr')
  · intro d g' hg'
    obtain ⟨g, hg, e, -⟩ := back hg'
    exact e ▸ h.refs_nodup d g hg
  · intro d
    rw [hm, ← h.live d]
    have := congrArg Option.isSome (hf d)
    simpa using this
  · intro d g' hg'
    obtain ⟨g, hg, -, e1, e2⟩ := back hg'
    have := h.hash_ok d g hg
    simp only [OvnFlow.HashOk, OvnFlow.key, FlowKey.mk.injEq] at this e2 ⊢
    rw [e1, e2.1, e2.2.1, e2.2.2]
    exact this
  · intro n hn'
    have := h.fresh n (hn ▸ hn')
    refine ⟨?_, hr ▸ this.2⟩
    have e := hf n
    rw [this.1] at e
    simpa using e

end Facts

/-! ## Adding flows -/

section Add

variable {uft : List SbToFlow} {t : OvnDesiredFlowTable}

/-- A fresh flow with no reference keeps the flow side. -/
theorem flowLinks_insertDesired (h : FlowLinks [] [] t) {f : DesiredFlow}
    (hf : f.references = []) (hh : f.flow.HashOk) (hl : f.list_node = false) :
    FlowLinks [] [] (insertDesired t f) := by
  have hn := h.fresh t.next_id le_rfl
  have ne : ∀ {d g}, t.flow_heap d = some g → d ≠ t.next_id := fun hd => (h.lt_next hd).ne
  have heap : ∀ {d g}, (insertDesired t f).flow_heap d = some g →
      d = t.next_id ∧ g = f ∨ d ≠ t.next_id ∧ t.flow_heap d = some g := by
    intro d g hd
    simp only [insertDesired_heap, Function.update_apply] at hd
    split_ifs at hd with e
    · exact .inl ⟨e, (Option.some.inj hd).symm⟩
    · exact .inr ⟨e, hd⟩
  refine ⟨?_, ?_, ?_, ?_, ?_, ?_, ?_, ?_⟩
  · intro r s hr
    obtain ⟨g, hg, hm⟩ := h.ref_flow r s hr
    exact ⟨g, by simp [Function.update_apply, ne hg, hg], hm⟩
  · intro d g hd
    rcases heap hd with ⟨-, rfl⟩ | ⟨-, hd⟩
    · simp [hf]
    · exact h.flow_ref d g hd
  · intro d g hd
    rcases heap hd with ⟨-, rfl⟩ | ⟨-, hd⟩
    · simp [hf]
    · exact h.refs_nodup d g hd
  · exact List.nodup_cons.2 ⟨fun hm => by simpa [hn.1] using (h.live _).2 hm, h.match_nodup⟩
  · intro d
    by_cases e : d = t.next_id
    · simp [e]
    · simp [Function.update_apply, e, h.live d]
  · intro d g hd
    rcases heap hd with ⟨-, rfl⟩ | ⟨-, hd⟩
    · exact hh
    · exact h.hash_ok d g hd
  · intro d g hd
    rcases heap hd with ⟨-, rfl⟩ | ⟨-, hd⟩
    · simp [hl]
    · exact h.listed d g hd
  · intro n hn'
    have := h.fresh n (by simp at hn'; omega)
    simp [Function.update_apply, show n ≠ t.next_id by simp at hn'; omega, this]

theorem sb_to_flow_find_some {l : List SbToFlow} {u : Uuid} {stf : SbToFlow}
    (h : sb_to_flow_find l u = some stf) : stf ∈ l ∧ stf.sb_uuid = u :=
  ⟨List.mem_of_find?_eq_some h, by simpa using List.find?_some h⟩

theorem sb_to_flow_find_none {l : List SbToFlow} {u : Uuid} (h : sb_to_flow_find l u = none) :
    u ∉ l.map (·.sb_uuid) := by
  simpa [sb_to_flow_find, List.find?_eq_none] using h

theorem map_sb_uuid {G : SbToFlow → SbToFlow} (hG : ∀ stf, (G stf).sb_uuid = stf.sb_uuid)
    (l : List SbToFlow) : (l.map G).map (·.sb_uuid) = l.map (·.sb_uuid) := by
  simp [Function.comp_def, hG]

/-- A new reference of a live flow keeps the flow side. -/
theorem flowLinks_link_flow_to_sb {X Y : List Nat} (h : FlowLinks X Y t) {d : Nat} {u : Uuid}
    {g : DesiredFlow} (hg : t.flow_heap d = some g) :
    FlowLinks X Y (link_flow_to_sb t d u) := by
  have hn := h.fresh t.next_id le_rfl
  have hdn : d ≠ t.next_id := (h.lt_next hg).ne
  have heap : ∀ {d' g'}, (link_flow_to_sb t d u).flow_heap d' = some g' →
      d' = d ∧ g' = { g with references := g.references ++ [t.next_id] } ∨
      d' ≠ d ∧ t.flow_heap d' = some g' := by
    intro d' g' h'
    simp only [link_flow_to_sb_heap, Function.update_apply, hg] at h'
    split_ifs at h' with e
    · exact .inl ⟨e, (Option.some.inj h').symm⟩
    · exact .inr ⟨e, h'⟩
  have ref : ∀ {r}, r ≠ t.next_id → (link_flow_to_sb t d u).ref_heap r = t.ref_heap r := by
    intro r e; simp [Function.update_apply, e]
  refine ⟨?_, ?_, ?_, by simpa using h.match_nodup, ?_, ?_, ?_, ?_⟩
  · intro r s hr
    by_cases e : r = t.next_id
    · subst e
      simp only [link_flow_to_sb_refs, Function.update_same, Option.some.injEq] at hr
      subst hr
      simp [hg]
    · obtain ⟨g', hg', hm⟩ := h.ref_flow r s (ref e ▸ hr)
      by_cases es : s.flow = d
      · subst es; rw [hg] at hg'; cases hg'
        simp [hg, hm]
      · exact ⟨g', by simp [es, hg'], hm⟩
  · intro d' g' hd' r hr
    have old : ∀ {d'' g''}, t.flow_heap d'' = some g'' → r ∈ g''.references →
        ∃ s, (link_flow_to_sb t d u).ref_heap r = some s ∧ s.flow = d'' := by
      intro d'' g'' h'' hm
      have e : r ≠ t.next_id := fun e => h.not_mem_refs hn.2 h'' (e ▸ hm)
      exact ref e ▸ h.flow_ref d'' g'' h'' r hm
    rcases heap hd' with ⟨rfl, rfl⟩ | ⟨-, hd'⟩
    · rcases List.mem_append.1 hr with hm | hm
      · exact old hg hm
      · simp at hm; simp [hm]
    · exact old hd' hr
  · intro d' g' hd'
    rcases heap hd' with ⟨rfl, rfl⟩ | ⟨-, hd'⟩
    · exact List.nodup_append_comm.2
        (List.nodup_cons.2 ⟨h.not_mem_refs hn.2 hg, h.refs_nodup _ _ hg⟩)
    · exact h.refs_nodup d' g' hd'
  · intro d'
    by_cases e : d' = d
    · subst e; simp [hg, ← h.live d']
    · simp [Function.update_apply, e, h.live d']
  · intro d' g' hd'
    rcases heap hd' with ⟨rfl, rfl⟩ | ⟨-, hd'⟩
    · exact h.hash_ok _ g hg
    · exact h.hash_ok d' g' hd'
  · intro d' g' hd'
    rcases heap hd' with ⟨rfl, rfl⟩ | ⟨-, hd'⟩
    · exact h.listed _ g hg
    · exact h.listed d' g' hd'
  · intro n hn'
    simp only [link_flow_to_sb_next] at hn'
    have := h.fresh n (by omega)
    simp [Function.update_apply, show n ≠ d by have := h.lt_next hg; omega,
      show n ≠ t.next_id by omega, this]

/-- A new reference of a flow outside `X` keeps the entry side. -/
theorem entryLinks_link_flow_to_sb {X : List Nat} (h : EntryLinks X t.uuid_flow_table t)
    {d : Nat} {u : Uuid} (hd : d ∉ X) (hn : t.ref_heap t.next_id = none) :
    EntryLinks X (link_flow_to_sb t d u).uuid_flow_table (link_flow_to_sb t d u) := by
  have ref : ∀ {r}, r ≠ t.next_id → (link_flow_to_sb t d u).ref_heap r = t.ref_heap r := by
    intro r e; simp [Function.update_apply, e]
  have new : (link_flow_to_sb t d u).ref_heap t.next_id = some ⟨d, u⟩ := by simp
  have old : ∀ {stf r}, stf ∈ t.uuid_flow_table → r ∈ stf.flows →
      ∃ s, (link_flow_to_sb t d u).ref_heap r = some s ∧ s.sb_uuid = stf.sb_uuid ∧ s.flow ∉ X := by
    intro stf r hs hm
    have e : r ≠ t.next_id := fun e => h.not_mem_entry hn hs (e ▸ hm)
    exact ref e ▸ h.entry_ref stf hs r hm
  rw [link_flow_to_sb_uuid]
  cases hf : sb_to_flow_find t.uuid_flow_table u with
  | some stf0 =>
    obtain ⟨hs0, hu0⟩ := sb_to_flow_find_some hf
    refine ⟨?_, ?_, ?_, ?_⟩
    · intro r s hr hX
      by_cases e : r = t.next_id
      · subst e; rw [new] at hr; cases hr
        exact ⟨_, List.mem_map_of_mem _ hs0, by simp [hu0], by simp [hu0]⟩
      · obtain ⟨stf, hs, hu, hm⟩ := h.ref_entry r s (ref e ▸ hr) hX
        refine ⟨_, List.mem_map_of_mem _ hs, ?_, ?_⟩ <;> split_ifs <;> simp [hu, hm]
    · simp only [List.mem_map]
      rintro _ ⟨stf, hs, rfl⟩ r hr
      split_ifs at hr ⊢ with hu
      · rcases List.mem_append.1 hr with hm | hm
        · exact @old stf _ hs hm
        · simp at hm; subst hm; exact ⟨_, new, hu.symm, hd⟩
      · exact old hs hr
    · simp only [List.mem_map]
      rintro _ ⟨stf, hs, rfl⟩
      split_ifs
      · exact List.nodup_append_comm.2
          (List.nodup_cons.2 ⟨h.not_mem_entry hn hs, h.entries_nodup stf hs⟩)
      · exact h.entries_nodup stf hs
    · rw [map_sb_uuid (fun stf => by split_ifs <;> rfl)]
      exact h.uuids_nodup
  | none =>
    have hu := sb_to_flow_find_none hf
    refine ⟨?_, ?_, ?_, ?_⟩
    · intro r s hr hX
      by_cases e : r = t.next_id
      · subst e; rw [new] at hr; cases hr
        exact ⟨_, List.mem_cons_self _ _, rfl, List.mem_singleton_self _⟩
      · obtain ⟨stf, hs, hu, hm⟩ := h.ref_entry r s (ref e ▸ hr) hX
        exact ⟨stf, List.mem_cons_of_mem _ hs, hu, hm⟩
    · rintro stf (_ | ⟨_, hs⟩) r hr
      · simp at hr; subst hr; exact ⟨_, new, rfl, hd⟩
      · exact old hs hr
    · rintro stf (_ | ⟨_, hs⟩)
      · simp
      · exact h.entries_nodup stf hs
    · exact List.nodup_cons.2 ⟨hu, h.uuids_nodup⟩

theorem referenced_link_flow_to_sb {X : List Nat} {d : Nat} {u : Uuid}
    (h : Referenced (d :: X) t) : Referenced X (link_flow_to_sb t d u) := by
  intro d' g' hd' hX
  simp only [link_flow_to_sb_heap, Function.update_apply] at hd'
  split_ifs at hd' with e
  · obtain ⟨g, -, rfl⟩ := Option.map_eq_some'.1 hd'
    simp
  · exact h d' g' hd' (by simp [e, hX])

theorem desired_flow_lookup_some {target : OvnFlow} {u : Option Uuid} {d : Nat}
    (h : desired_flow_lookup t target u = some d) :
    d ∈ t.match_flow_table ∧ ∃ g, t.flow_heap d = some g ∧ g.flow.key = target.key ∧
      ∀ u', u = some u' → referencedBy t g u' = true := by
  refine ⟨List.mem_of_find?_eq_some h, ?_⟩
  have hp := List.find?_some h
  cases hg : t.flow_heap d with
  | none => simp [hg] at hp
  | some g =>
    simp only [hg, Bool.and_eq_true, beq_iff_eq] at hp
    refine ⟨g, rfl, hp.1.2, fun u' hu => ?_⟩
    subst hu
    exact hp.2

theorem wellLinked_link_flow_to_sb (h : Linked [] [] t.uuid_flow_table t) {d : Nat} {u : Uuid}
    {g : DesiredFlow} (hg : t.flow_heap d = some g)
    (hr : Referenced [d] t) : WellLinked (link_flow_to_sb t d u) :=
  ⟨⟨flowLinks_link_flow_to_sb h.flows hg,
    entryLinks_link_flow_to_sb h.entries (List.not_mem_nil d) (h.flows.fresh _ le_rfl).2⟩,
   referenced_link_flow_to_sb hr⟩

theorem wellLinked_insert_link (h : WellLinked t) {f : DesiredFlow} (hf : f.references = [])
    (hh : f.flow.HashOk) (hl : f.list_node = false) (u : Uuid) :
    WellLinked (link_flow_to_sb (insertDesired t f) t.next_id u) := by
  have hfresh := h.1.flows.fresh (t.next_id + 1) (by omega)
  refine wellLinked_link_flow_to_sb (g := f)
    ⟨flowLinks_insertDesired h.1.flows hf hh hl, h.1.entries.of_refs rfl⟩ (by simp) ?_
  intro d' g hd' hX
  have e : d' ≠ t.next_id := fun e => hX (by simp [e])
  simp only [insertDesired_heap, Function.update_apply, e, if_false] at hd'
  exact h.2 d' g hd' (List.not_mem_nil d')

theorem wellLinked_check_and_add_flow (h : WellLinked t) (table_id : UInt8) (priority : UInt16)
    (cookie : UInt64) (m : Minimatch) (actions : List UInt8) (sb_uuid : Uuid)
    (log_duplicate_flow : Bool) :
    WellLinked (ofctrl_check_and_add_flow t table_id priority cookie m actions sb_uuid
      log_duplicate_flow) := by
  unfold ofctrl_check_and_add_flow
  dsimp only
  split
  · exact h
  · exact wellLinked_insert_link h rfl (ovn_flow_init_hashOk ..) rfl sb_uuid

/-- `ofctrl_add_or_append_flow` keeps the invariant. -/
theorem wellLinked_add_or_append_flow (h : WellLinked t) (table_id : UInt8) (priority : UInt16)
    (cookie : UInt64) (m : Minimatch) (actions : List UInt8) (sb_uuid : Uuid) :
    WellLinked (ofctrl_add_or_append_flow t table_id priority cookie m actions sb_uuid) := by
  unfold ofctrl_add_or_append_flow
  dsimp only
  split
  · rename_i e he
    obtain ⟨-, g, hg, -⟩ := desired_flow_lookup_some he
    set t1 := t.modifyFlow e fun g => { g with flow :=
        { g.flow with ofpacts := g.flow.ofpacts ++ actions } } with ht1
    have h1 : Linked [] [] t1.uuid_flow_table t1 := by
      refine ⟨h.1.flows.of_linkData rfl rfl rfl (fun d => ?_) fun d g' hd' => ?_,
        h.1.entries.of_refs rfl⟩
      · simp only [ht1, OvnDesiredFlowTable.modifyFlow, OvnDesiredFlowTable.setFlow_heap]
        split_ifs with e'
        · subst e'; cases t.flow_heap d <;> rfl
        · rfl
      · simp only [ht1, OvnDesiredFlowTable.modifyFlow, OvnDesiredFlowTable.setFlow_heap] at hd'
        split_ifs at hd' with e'
        · subst e'; rw [hg] at hd'; cases hd'; exact h.1.flows.listed _ g hg
        · exact h.1.flows.listed d g' hd'
    refine wellLinked_link_flow_to_sb h1 (by simp [ht1, OvnDesiredFlowTable.modifyFlow, hg]; rfl) ?_
    intro d' g' hd' _
    simp only [ht1, OvnDesiredFlowTable.modifyFlow, OvnDesiredFlowTable.setFlow_heap] at hd'
    split_ifs at hd' with e'
    · subst e'; rw [hg] at hd'; cases hd'; exact h.2 _ g hg (List.not_mem_nil _)
    · exact h.2 d' g' hd' (List.not_mem_nil _)
  · exact wellLinked_insert_link h rfl (ovn_flow_init_hashOk ..) rfl sb_uuid

end Add

/-! ## Removing flows -/

section Remove

variable {X Y : List Nat} {uft : List SbToFlow} {t : OvnDesiredFlowTable}

theorem referenced_of_cons {d : Nat} (h : Referenced (d :: X) t)
    (hd : ∀ g, t.flow_heap d = some g → g.references ≠ []) : Referenced X t := by
  intro d' g hg hX
  by_cases e : d' = d
  · subst e; exact hd g hg
  · exact h d' g hg (by simp [e, hX])

/-- The uuid table as a loop over the list of `sb_uuid`'s entry sees it: that list holds
the nodes still to come. -/
def withEntry (uft : List SbToFlow) (sb_uuid : Uuid) (flows : List Nat) : List SbToFlow :=
  uft.map fun stf => if stf.sb_uuid = sb_uuid then { stf with flows } else stf

@[simp] theorem withEntry_withEntry (u : Uuid) (l1 l2 : List Nat) :
    withEntry (withEntry uft u l1) u l2 = withEntry uft u l2 := by
  simp only [withEntry, List.map_map]
  congr 1; funext stf
  simp only [Function.comp_apply]
  split_ifs <;> simp_all

theorem map_sb_uuid_withEntry (u : Uuid) (l : List Nat) :
    (withEntry uft u l).map (·.sb_uuid) = uft.map (·.sb_uuid) :=
  map_sb_uuid (fun stf => by split_ifs <;> rfl) uft

theorem entry_unique (hu : (uft.map (·.sb_uuid)).Nodup) {a b : SbToFlow} (ha : a ∈ uft)
    (hb : b ∈ uft) (e : a.sb_uuid = b.sb_uuid) : a = b :=
  List.inj_on_of_nodup_map hu ha hb e

theorem withEntry_self (hu : (uft.map (·.sb_uuid)).Nodup) {stf : SbToFlow} (hs : stf ∈ uft) :
    withEntry uft stf.sb_uuid stf.flows = uft := by
  conv_rhs => rw [← List.map_id uft]
  refine List.map_congr_left fun stf' hs' => ?_
  split_ifs with e
  · rw [entry_unique hu hs' hs e]; rfl
  · rfl

theorem mem_withEntry_self {u : Uuid} {l : List Nat} {stf : SbToFlow} (hs : stf ∈ uft)
    (hu : stf.sb_uuid = u) : { stf with flows := l } ∈ withEntry uft u l :=
  List.mem_map.2 ⟨stf, hs, by simp [hu]⟩

/-- With one entry per uuid, the entries left by `eraseEntry` are the others. -/
theorem mem_eraseEntry {l : List SbToFlow} (hu : (l.map (·.sb_uuid)).Nodup) {u : Uuid}
    {stf : SbToFlow} : stf ∈ eraseEntry l u ↔ stf ∈ l ∧ stf.sb_uuid ≠ u := by
  induction l with
  | nil => simp [eraseEntry]
  | cons a l ih =>
    simp only [List.map_cons, List.nodup_cons, List.mem_map] at hu
    simp only [eraseEntry] at ih
    by_cases e : a.sb_uuid = u
    · simp only [eraseEntry, List.eraseP_cons, e, beq_self_eq_true, cond_true]
      refine ⟨fun hs => ⟨List.mem_cons_of_mem _ hs, fun e' => hu.1 ⟨stf, hs, e'.trans e.symm⟩⟩,
        fun ⟨hs, e'⟩ => ?_⟩
      rcases List.mem_cons.1 hs with rfl | hs
      · exact absurd e e'
      · exact hs
    · have hb : (a.sb_uuid == u) = false := by simpa using e
      simp only [eraseEntry, List.eraseP_cons, hb, cond_false, List.mem_cons, ih hu.2]
      constructor
      · rintro (rfl | ⟨hs, e'⟩)
        · exact ⟨.inl rfl, e⟩
        · exact ⟨.inr hs, e'⟩
      · rintro ⟨rfl | hs, e'⟩
        · exact .inl rfl
        · exact .inr ⟨hs, e'⟩

theorem entryLinks_eraseEntry {u : Uuid} (h : EntryLinks X (withEntry uft u []) t) :
    EntryLinks X (eraseEntry uft u) t := by
  have hu : (uft.map (·.sb_uuid)).Nodup := map_sb_uuid_withEntry u [] ▸ h.uuids_nodup
  have keep : ∀ {stf}, stf ∈ eraseEntry uft u → stf ∈ withEntry uft u [] := by
    intro stf hs
    obtain ⟨hs, e⟩ := (mem_eraseEntry hu).1 hs
    exact List.mem_map.2 ⟨stf, hs, by simp [e]⟩
  refine ⟨?_, fun stf hs => h.entry_ref stf (keep hs), fun stf hs => h.entries_nodup stf (keep hs),
    (List.eraseP_sublist uft).map _ |>.nodup hu⟩
  intro r s hr hX
  obtain ⟨stf', hs', hu', hm⟩ := h.ref_entry r s hr hX
  obtain ⟨stf, hs, rfl⟩ := List.mem_map.1 hs'
  split_ifs at hu' hm with e
  · simp at hm
  · exact ⟨stf, (mem_eraseEntry hu).2 ⟨hs, e⟩, hu', hm⟩

/-- Freeing a node, and taking it out of its flow's references, keeps the flow side. -/
theorem flowLinks_dropRef (h : FlowLinks X Y t) {r : Nat} {t1 : OvnDesiredFlowTable} {d : Nat}
    {f : DesiredFlow} (hd : dropRef t r = some (t1, d, f)) : FlowLinks X Y t1 := by
  have ref := fun {r'} (e : r' ≠ r) => dropRef_ref_ne hd e
  obtain ⟨s, g, hr, rfl, hg, rfl, rfl⟩ := dropRef_some hd
  have hnd := h.refs_nodup _ g hg
  -- the nodes of the other flows are not `r`
  have ne_of_refs : ∀ {d' g'}, t.flow_heap d' = some g' → ∀ r' ∈ g'.references, d' ≠ s.flow →
      r' ≠ r := by
    intro d' g' hd' r' hm ne e
    rw [e] at hm
    obtain ⟨s'', h'', e'⟩ := h.flow_ref d' g' hd' r hm
    rw [hr] at h''; cases h''; exact ne e'.symm
  refine ⟨?_, ?_, ?_, h.match_nodup, ?_, ?_, ?_, ?_⟩
  · intro r' s' hr'
    have e : r' ≠ r := by rintro rfl; simp at hr'
    rw [ref e] at hr'
    obtain ⟨g', hg', hm⟩ := h.ref_flow r' s' hr'
    by_cases es : s'.flow = s.flow
    · rw [es, hg] at hg'; cases hg'
      exact ⟨{ g with references := g.references.erase r }, by simp [es],
        (List.mem_erase_of_ne e).2 hm⟩
    · exact ⟨g', by simp [es, hg'], hm⟩
  · intro d' g' hd' r' hm
    simp only [OvnDesiredFlowTable.setFlow_heap] at hd'
    split_ifs at hd' with e
    · cases hd'
      obtain ⟨ne, hm⟩ := (List.Nodup.mem_erase_iff hnd).1 hm
      rw [ref ne, e]; exact h.flow_ref _ g hg r' hm
    · have ne := ne_of_refs hd' r' hm e
      rw [ref ne]; exact h.flow_ref d' g' hd' r' hm
  · intro d' g' hd'
    simp only [OvnDesiredFlowTable.setFlow_heap] at hd'
    split_ifs at hd' with e
    · cases hd'; exact hnd.erase r
    · exact h.refs_nodup d' g' hd'
  · intro d'
    by_cases e : d' = s.flow
    · subst e; simp [hg, ← h.live]
    · simp [e, h.live d']
  · intro d' g' hd'
    simp only [OvnDesiredFlowTable.setFlow_heap] at hd'
    split_ifs at hd' with e
    · cases hd'; exact h.hash_ok _ g hg
    · exact h.hash_ok d' g' hd'
  · intro d' g' hd'
    simp only [OvnDesiredFlowTable.setFlow_heap] at hd'
    split_ifs at hd' with e
    · cases hd'; subst e; exact h.listed _ g hg
    · exact h.listed d' g' hd'
  · intro n hn
    have := h.fresh n hn
    have e1 : n ≠ s.flow := fun e => by simp [e, hg] at this
    simp [Function.update_apply, e1, this]

theorem EntryLinks.dropRef_attached (h : EntryLinks X uft t) {stf : SbToFlow} (hs : stf ∈ uft)
    {r : Nat} {rest : List Nat} (hf : stf.flows = r :: rest) {t1 : OvnDesiredFlowTable} {d : Nat}
    {f : DesiredFlow} (hd : dropRef t r = some (t1, d, f)) : d ∉ X := by
  obtain ⟨s, g, hr, rfl, -⟩ := dropRef_some hd
  obtain ⟨s', hr', -, hX⟩ := h.entry_ref stf hs r (by simp [hf])
  rw [hr] at hr'; cases hr'; exact hX

/-- Freeing the first node of an entry's list keeps the entry side, with the rest of that
list still to come. -/
theorem entryLinks_dropRef (h : EntryLinks X uft t) {stf : SbToFlow} (hs : stf ∈ uft) {r : Nat}
    {rest : List Nat} (hf : stf.flows = r :: rest) {t1 : OvnDesiredFlowTable} {d : Nat}
    {f : DesiredFlow} (hd : dropRef t r = some (t1, d, f)) :
    EntryLinks X (withEntry uft stf.sb_uuid rest) t1 := by
  have ref := fun {r'} (e : r' ≠ r) => dropRef_ref_ne hd e
  obtain ⟨s, g, hr, rfl, hg, rfl, rfl⟩ := dropRef_some hd
  obtain ⟨s', hr', hu', -⟩ := h.entry_ref stf hs r (by simp [hf])
  rw [hr] at hr'; cases hr'
  have hnd := h.entries_nodup stf hs
  rw [hf] at hnd
  refine ⟨?_, ?_, ?_, ?_⟩
  · intro r' s' hr' hX'
    have e : r' ≠ r := by rintro rfl; simp at hr'
    rw [ref e] at hr'
    obtain ⟨stf', hs', hu'', hm⟩ := h.ref_entry r' s' hr' hX'
    refine ⟨_, List.mem_map_of_mem _ hs', ?_⟩
    split_ifs with eu
    · rw [entry_unique h.uuids_nodup hs' hs eu, hf] at hm
      exact ⟨by simpa [eu] using hu'', (List.mem_cons.1 hm).resolve_left e⟩
    · exact ⟨hu'', hm⟩
  · simp only [withEntry, List.mem_map]
    rintro _ ⟨stf', hs', rfl⟩ r' hm
    split_ifs at hm ⊢ with eu
    · have e : r' ≠ r := fun e => (List.nodup_cons.1 hnd).1 (e ▸ hm)
      rw [ref e]
      obtain ⟨s'', h1, h2, h3⟩ := h.entry_ref stf hs r' (by simp [hf, hm])
      exact ⟨s'', h1, by simp [h2, eu], h3⟩
    · have e : r' ≠ r := by
        intro e; rw [e] at hm
        obtain ⟨s'', h1, h2, -⟩ := h.entry_ref stf' hs' r hm
        rw [hr] at h1; cases h1
        exact eu (h2.symm.trans hu')
      rw [ref e]; exact h.entry_ref stf' hs' r' hm
  · simp only [withEntry, List.mem_map]
    rintro _ ⟨stf', hs', rfl⟩
    split_ifs with eu
    · exact (List.nodup_cons.1 hnd).2
    · exact h.entries_nodup stf' hs'
  · rw [map_sb_uuid_withEntry]; exact h.uuids_nodup

theorem linked_dropRef (h : Linked X Y uft t) {stf : SbToFlow} (hs : stf ∈ uft) {r : Nat}
    {rest : List Nat} (hf : stf.flows = r :: rest) {t1 : OvnDesiredFlowTable} {d : Nat}
    {f : DesiredFlow} (hd : dropRef t r = some (t1, d, f)) :
    Linked X Y (withEntry uft stf.sb_uuid rest) t1 :=
  ⟨flowLinks_dropRef h.flows hd, entryLinks_dropRef h.entries hs hf hd⟩

theorem entryLinks_dropRef_detached (h : EntryLinks X uft t) {r : Nat} {s : SbFlowRef}
    (hr : t.ref_heap r = some s) (hX : s.flow ∈ X) {t1 : OvnDesiredFlowTable} {d : Nat}
    {f : DesiredFlow} (hd : dropRef t r = some (t1, d, f)) : EntryLinks X uft t1 := by
  have ref := fun {r'} (e : r' ≠ r) => dropRef_ref_ne hd e
  refine ⟨?_, ?_, h.entries_nodup, h.uuids_nodup⟩
  · intro r' s' hr' hX'
    have e : r' ≠ r := by rintro rfl; simp [dropRef_ref_self hd] at hr'
    exact h.ref_entry r' s' (ref e ▸ hr') hX'
  · intro stf hs r' hm
    have e : r' ≠ r := by
      rintro rfl
      obtain ⟨s', h1, -, h3⟩ := h.entry_ref stf hs r' hm
      rw [hr] at h1; cases h1; exact h3 hX
    exact ref e ▸ h.entry_ref stf hs r' hm

theorem referenced_dropRef (h : Referenced X t) {r : Nat} {t1 : OvnDesiredFlowTable} {d : Nat}
    {f : DesiredFlow} (hd : dropRef t r = some (t1, d, f)) : Referenced (d :: X) t1 := by
  obtain ⟨s, g, -, rfl, -, rfl, rfl⟩ := dropRef_some hd
  intro d' g' hd' hX
  simp only [OvnDesiredFlowTable.setFlow_heap] at hd'
  split_ifs at hd' with e
  · exact absurd (by simp [e]) hX
  · exact h d' g' hd' (fun hm => hX (List.mem_cons_of_mem _ hm))

/-- Freeing a flow with no reference keeps the flow side. -/
theorem flowLinks_destroy (h : FlowLinks X Y t) {d : Nat} {g : DesiredFlow}
    (hg : t.flow_heap d = some g) (hr : g.references = []) :
    FlowLinks X Y { t with match_flow_table := t.match_flow_table.erase d,
                           flow_heap := Function.update t.flow_heap d none } := by
  have ne : ∀ {r s}, t.ref_heap r = some s → s.flow ≠ d := by
    rintro r s hs rfl
    obtain ⟨g', hg', hm⟩ := h.ref_flow r s hs
    rw [hg] at hg'; cases hg'; simp [hr] at hm
  refine ⟨?_, ?_, ?_, h.match_nodup.erase d, ?_, ?_, ?_, ?_⟩
  · intro r s hs
    simpa [Function.update_apply, ne hs] using h.ref_flow r s hs
  · intro d' g' hd'
    simp only [Function.update_apply] at hd'
    split_ifs at hd'
    exact h.flow_ref d' g' hd'
  · intro d' g' hd'
    simp only [Function.update_apply] at hd'
    split_ifs at hd'
    exact h.refs_nodup d' g' hd'
  · intro d'
    by_cases e : d' = d
    · subst e; simp [h.match_nodup.not_mem_erase]
    · simp [Function.update_apply, e, List.mem_erase_of_ne e, h.live d']
  · intro d' g' hd'
    simp only [Function.update_apply] at hd'
    split_ifs at hd'
    exact h.hash_ok d' g' hd'
  · intro d' g' hd'
    simp only [Function.update_apply] at hd'
    split_ifs at hd'
    exact h.listed d' g' hd'
  · intro n hn
    have := h.fresh n hn
    simp [Function.update_apply, this]

theorem linked_removeDesired {ft ft' : FlowTables} (h : Linked X Y uft ft.desired) {d : Nat}
    {f : DesiredFlow} (hr : removeDesired ft d f = some ft') : Linked X Y uft ft'.desired := by
  obtain ⟨g, hg, hr, e⟩ := removeDesired_desired hr
  rw [e]
  exact ⟨flowLinks_destroy h.flows hg hr, h.entries.of_refs rfl⟩

theorem referenced_removeDesired {ft ft' : FlowTables} {d : Nat} {f : DesiredFlow}
    (h : Referenced (d :: X) ft.desired) (hr : removeDesired ft d f = some ft') :
    Referenced X ft'.desired := by
  obtain ⟨g, -, -, e⟩ := removeDesired_desired hr
  rw [e]
  refine referenced_of_cons (d := d) (fun d' g' hd' hX => ?_) (by simp)
  simp only [Function.update_apply] at hd'
  split_ifs at hd'
  exact h d' g' hd' hX

theorem removeDesired_uuid {ft ft' : FlowTables} {d : Nat} {f : DesiredFlow}
    (hr : removeDesired ft d f = some ft') :
    ft'.desired.uuid_flow_table = ft.desired.uuid_flow_table := by
  obtain ⟨-, -, -, e⟩ := removeDesired_desired hr
  rw [e]

theorem linked_removeRef {ft ft' : FlowTables} (h : Linked [] [] uft ft.desired)
    (hR : Referenced [] ft.desired) {stf : SbToFlow} (hs : stf ∈ uft) {r : Nat}
    {rest : List Nat} (hf : stf.flows = r :: rest) (hr : removeRef ft r = some ft') :
    Linked [] [] (withEntry uft stf.sb_uuid rest) ft'.desired ∧ Referenced [] ft'.desired := by
  obtain ⟨t1, d, f, hd, hcase⟩ := removeRef_cases hr
  have h1 := linked_dropRef h hs hf hd
  have hR1 := referenced_dropRef hR hd
  rcases hcase with ⟨-, h2⟩ | ⟨hne, rfl⟩
  · exact ⟨linked_removeDesired (by exact h1) h2, referenced_removeDesired hR1 h2⟩
  · refine ⟨h1, referenced_of_cons hR1 fun g hg => ?_⟩
    rw [dropRef_heap hd] at hg; cases hg; exact hne

end Remove

/-! ## The removal operations -/

section Operations

variable {ft ft' : FlowTables}

theorem wellLinked_remove_flows_from_sb_to_flow (h : WellLinked ft.desired) {stf : SbToFlow}
    (hs : stf ∈ ft.desired.uuid_flow_table) (hr : remove_flows_from_sb_to_flow ft stf = some ft') :
    WellLinked ft'.desired := by
  have hu := remove_flows_from_sb_to_flow_uuid hr
  unfold remove_flows_from_sb_to_flow at hr
  obtain ⟨ft1, h1, h2⟩ := Option.bind_eq_some.1 hr
  cases h2
  have loop := foldlM_induct (fun rest (ft1 : FlowTables) =>
      Linked [] [] (withEntry ft.desired.uuid_flow_table stf.sb_uuid rest) ft1.desired ∧
      Referenced [] ft1.desired) ?_
    ⟨by rw [withEntry_self h.1.entries.uuids_nodup hs]; exact h.1, h.2⟩ h1
  · exact ⟨⟨loop.1.flows.with_uuid _, hu ▸ (entryLinks_eraseEntry loop.1.entries).of_refs rfl⟩,
      loop.2⟩
  · rintro r rest ft1 ft2 ⟨hl, hR⟩ hr
    simpa using linked_removeRef hl hR (mem_withEntry_self (l := r :: rest) hs rfl) rfl hr

theorem wellLinked_removeFlowsOf (h : WellLinked ft.desired) {u : Uuid}
    (hr : removeFlowsOf ft u = some ft') : WellLinked ft'.desired := by
  unfold removeFlowsOf at hr
  split at hr
  · exact wellLinked_remove_flows_from_sb_to_flow h (sb_to_flow_find_some ‹_›).1 hr
  · cases hr; exact h

theorem wellLinked_ovn_desired_flow_table_clear (h : WellLinked ft.desired)
    (hr : ovn_desired_flow_table_clear ft = some ft') : WellLinked ft'.desired := by
  refine (foldlM_induct (fun rest (ft1 : FlowTables) =>
      WellLinked ft1.desired ∧ ft1.desired.uuid_flow_table = rest) ?_ ⟨h, rfl⟩ hr).1
  rintro stf rest ft1 ft2 ⟨h1, hu⟩ hr
  refine ⟨wellLinked_remove_flows_from_sb_to_flow h1 (hu ▸ List.mem_cons_self _ _) hr, ?_⟩
  rw [remove_flows_from_sb_to_flow_uuid hr, hu]
  simp [eraseEntry, List.eraseP_cons]

end Operations

/-! ## Installed links are not the desired table's links -/

/-- The desired table with the installed links of its flows forgotten. -/
def OvnDesiredFlowTable.unlinked (t : OvnDesiredFlowTable) : OvnDesiredFlowTable :=
  { t with flow_heap := fun d => (t.flow_heap d).map fun g => { g with installed_flow := none } }

theorem unlinked_map {t t' : OvnDesiredFlowTable} (e : t'.unlinked = t.unlinked) {β : Type}
    (p : DesiredFlow → β) (hp : ∀ g, p { g with installed_flow := none } = p g) (d : Nat) :
    (t'.flow_heap d).map p = (t.flow_heap d).map p := by
  have := congrArg (Option.map p) (congrFun (congrArg (·.flow_heap) e) d)
  simpa [OvnDesiredFlowTable.unlinked, Option.map_map, Function.comp_def, hp] using this

theorem flow_of_unlinked {t t' : OvnDesiredFlowTable} (e : t'.unlinked = t.unlinked) {d : Nat}
    {g' : DesiredFlow} (hd : t'.flow_heap d = some g') :
    ∃ g, t.flow_heap d = some g ∧ g.flow = g'.flow ∧ g.references = g'.references ∧
      g.list_node = g'.list_node := by
  have := unlinked_map e (fun g => (g.flow, g.references, g.list_node)) (fun _ => rfl) d
  rw [hd] at this
  obtain ⟨g, hg, e'⟩ := Option.map_eq_some'.1 this.symm
  simp only [Prod.mk.injEq] at e'
  exact ⟨g, hg, e'.1, e'.2.1, e'.2.2⟩

theorem wellLinked_of_unlinked {t t' : OvnDesiredFlowTable} (h : WellLinked t)
    (e : t'.unlinked = t.unlinked) : WellLinked t' := by
  have hm : t'.match_flow_table = t.match_flow_table := congrArg (·.match_flow_table) e
  have hu : t'.uuid_flow_table = t.uuid_flow_table := congrArg (·.uuid_flow_table) e
  have hr : t'.ref_heap = t.ref_heap := congrArg (·.ref_heap) e
  have hn : t'.next_id = t.next_id := congrArg (·.next_id) e
  refine ⟨⟨h.1.flows.of_linkData hm hr hn (unlinked_map e linkData fun _ => rfl)
    fun d g' hd => ?_, hu ▸ h.1.entries.of_refs hr⟩, fun d g' hd hX => ?_⟩
  · obtain ⟨g, hg, -, -, e1⟩ := flow_of_unlinked e hd
    exact e1 ▸ h.1.flows.listed d g hg
  · obtain ⟨g, hg, -, e2, -⟩ := flow_of_unlinked e hd
    exact e2 ▸ h.2 d g hg hX

end OvnOfctrl
