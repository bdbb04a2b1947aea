-- The flood removal keeps the links of the desired table. Each call detaches the flows it
-- lists from their other uuids' entries before it recurses, so the recursive calls never
-- reach them: the invariant is `Linked` with those flows in `X`, and a call leaves the
-- flows of `X` as they were.
import OvnOfctrl.DesiredLinks
import OvnOfctrl.FloodRemove

namespace OvnOfctrl

/-! ## Edits that keep installed links -/

/-- What an installed link sees of a desired flow: the installed flow it names and its
key. -/
def installedLink (g : DesiredFlow) : Option Nat × FlowKey := (g.installed_flow, g.flow.key)

/-- `t'` has the flows of `t`, with their installed links and keys. -/
def KeepsLinks (t t' : OvnDesiredFlowTable) : Prop :=
  ∀ d, (t'.flow_heap d).map installedLink = (t.flow_heap d).map installedLink

theorem KeepsLinks.trans {t t1 t2 : OvnDesiredFlowTable} (h1 : KeepsLinks t t1)
    (h2 : KeepsLinks t1 t2) : KeepsLinks t t2 := fun d => (h2 d).trans (h1 d)

theorem keepsLinks_setFlow {t : OvnDesiredFlowTable} {d : Nat} {g g' : DesiredFlow}
    (hg : t.flow_heap d = some g) (e : installedLink g' = installedLink g) :
    KeepsLinks t (t.setFlow d (some g')) := by
  intro d'
  simp only [OvnDesiredFlowTable.setFlow_heap]
  split_ifs with h
  · subst h; simp [hg, e]
  · rfl

theorem keepsLinks_dropRef {t t1 : OvnDesiredFlowTable} {r d : Nat} {f : DesiredFlow}
    (hd : dropRef t r = some (t1, d, f)) : KeepsLinks t t1 := by
  obtain ⟨s, g, -, rfl, hg, rfl, rfl⟩ := dropRef_some hd
  exact keepsLinks_setFlow (t := { t with ref_heap := _ }) hg rfl

/-- A property of the tables that the flood's edits keep: changes of the desired table that
keep each flow's installed link and key, and the removal of a flow by `removeDesired` with
its current content. -/
structure FloodStable (Q : FlowTables → Prop) : Prop where
  keep : ∀ ft t', Q ft → KeepsLinks ft.desired t' → Q { ft with desired := t' }
  remove : ∀ ft ft' d g, Q ft → ft.desired.flow_heap d = some g →
    removeDesired ft d g = some ft' → Q ft'

/-! ## Listing, detaching and forgetting flows -/

section Steps

variable {X Y : List Nat} {uft : List SbToFlow} {t : OvnDesiredFlowTable}

theorem flowLinks_setListed (h : FlowLinks X Y t) {d : Nat} {g : DesiredFlow}
    (hg : t.flow_heap d = some g) :
    FlowLinks X (Y ++ [d]) (t.setFlow d (some { g with list_node := true })) := by
  refine h.of_linkData rfl rfl rfl (fun d' => ?_) fun d' g' hd' => ?_
  · simp only [OvnDesiredFlowTable.setFlow_heap]
    split_ifs with e
    · subst e; simp [hg, linkData]
    · rfl
  · simp only [OvnDesiredFlowTable.setFlow_heap] at hd'
    split_ifs at hd' with e
    · cases hd'; simp [e]
    · simp [h.listed d' g' hd', e]

theorem FlowLinks.congr {X' Y' : List Nat} (h : FlowLinks X Y t)
    (e : ∀ d g, t.flow_heap d = some g → (d ∈ X ∨ d ∈ Y ↔ d ∈ X' ∨ d ∈ Y')) :
    FlowLinks X' Y' t :=
  ⟨h.1, h.2, h.3, h.4, h.5, h.6, fun d g hg => (h.listed d g hg).trans (e d g hg), h.8⟩

theorem Linked.forget {X' : List Nat} (h : Linked X Y uft t) (hsub : ∀ d ∈ X', d ∈ X)
    (hgone : ∀ d ∈ X, d ∉ X' → t.flow_heap d = none) : Linked X' Y uft t := by
  have live : ∀ {r s}, t.ref_heap r = some s → s.flow ∈ X → s.flow ∈ X' := by
    intro r s hs hX
    by_contra hX'
    obtain ⟨g, hg, -⟩ := h.flows.ref_flow r s hs
    simp [hgone _ hX hX'] at hg
  refine ⟨h.flows.congr fun d g hg => ?_, ⟨?_, ?_, h.entries.3, h.entries.4⟩⟩
  · have : d ∈ X ↔ d ∈ X' := ⟨fun hX => by_contra fun hX' => by simp [hgone d hX hX'] at hg,
      hsub d⟩
    rw [this]
  · exact fun r s hs hX => h.entries.ref_entry r s hs fun hm => hX (live hs hm)
  · intro stf hs r hm
    obtain ⟨s, h1, h2, h3⟩ := h.entries.entry_ref stf hs r hm
    exact ⟨s, h1, h2, fun hm => h3 (hsub _ hm)⟩

theorem Referenced.forget {X' : List Nat} (h : Referenced X t)
    (hgone : ∀ d ∈ X, d ∉ X' → t.flow_heap d = none) : Referenced X' t := by
  intro d g hg hX'
  refine h d g hg fun hX => ?_
  simp [hgone d hX hX'] at hg

theorem foldl_detachRef (L : List Nat) (l : List SbToFlow) :
    L.foldl detachRef l = l.map fun stf => { stf with flows := L.foldl List.erase stf.flows } := by
  induction L generalizing l with
  | nil => simp
  | cons r L ih => simp [List.foldl, ih, detachRef, Function.comp_def]

theorem mem_foldl_erase {L l : List Nat} (hl : l.Nodup) {r : Nat} :
    r ∈ L.foldl List.erase l ↔ r ∈ l ∧ r ∉ L := by
  induction L generalizing l with
  | nil => simp
  | cons a L ih =>
    simp only [List.foldl, ih (hl.erase a), List.Nodup.mem_erase_iff hl, List.mem_cons, not_or]
    tauto

theorem nodup_foldl_erase {L l : List Nat} (hl : l.Nodup) : (L.foldl List.erase l).Nodup := by
  induction L generalizing l with
  | nil => exact hl
  | cons a L ih => exact ih (hl.erase a)

/-- The nodes of a live flow leave their entries: the flow joins the detached ones. -/
theorem entryLinks_detach {X0 Y0 : List Nat} (h : EntryLinks X uft t) (hf : FlowLinks X0 Y0 t)
    {d : Nat} {g : DesiredFlow} (hg : t.flow_heap d = some g) :
    EntryLinks (X ++ [d]) (g.references.foldl detachRef uft) t := by
  rw [foldl_detachRef]
  refine ⟨?_, ?_, ?_, by simpa [Function.comp_def] using h.uuids_nodup⟩
  · intro r s hs hX
    simp only [List.mem_append, List.mem_singleton, not_or] at hX
    obtain ⟨stf, hstf, hu, hm⟩ := h.ref_entry r s hs hX.1
    have hr : r ∉ g.references := fun hm' => by
      obtain ⟨s', h1, h2⟩ := hf.flow_ref d g hg r hm'
      rw [hs] at h1; cases h1; exact hX.2 h2
    exact ⟨_, List.mem_map_of_mem _ hstf, hu,
      (mem_foldl_erase (h.entries_nodup stf hstf)).2 ⟨hm, hr⟩⟩
  · simp only [List.mem_map]
    rintro _ ⟨stf, hstf, rfl⟩ r hm
    obtain ⟨hm, hr⟩ := (mem_foldl_erase (h.entries_nodup stf hstf)).1 hm
    obtain ⟨s, h1, h2, h3⟩ := h.entry_ref stf hstf r hm
    refine ⟨s, h1, h2, ?_⟩
    simp only [List.mem_append, List.mem_singleton, not_or]
    refine ⟨h3, fun e => hr ?_⟩
    obtain ⟨g', hg', hm'⟩ := hf.ref_flow r s h1
    rw [e, hg] at hg'; cases hg'; exact hm'
  · simp only [List.mem_map]
    rintro _ ⟨stf, hstf, rfl⟩
    exact nodup_foldl_erase (h.entries_nodup stf hstf)

end Steps

/-! ## The first loop -/

section Flood

variable {Q : FlowTables → Prop}

/-- The state of the first loop of a flood over the list of `u`'s entry of `uft`, from `ft0`,
with `rest` still to come: the flows listed so far are attached, live and outside `X`, and
the flows of `X` are as in `ft0`. -/
structure FirstLoopInv (Q : FlowTables → Prop) (X : List Nat) (uft : List SbToFlow) (u : Uuid)
    (ft0 : FlowTables) (rest : List Nat) (ft : FlowTables) (tbr : List Nat) : Prop where
  linked : Linked X tbr (withEntry uft u rest) ft.desired
  referenced : Referenced X ft.desired
  stable : Q ft
  uuid : ft.desired.uuid_flow_table = uft
  tbr_nodup : tbr.Nodup
  tbr_live : ∀ d ∈ tbr, d ∉ X ∧ (ft.desired.flow_heap d).isSome
  frame : ∀ d ∈ X, ft.desired.flow_heap d = ft0.desired.flow_heap d

/-- What one turn of the first loop does: it frees the node `r` of a flow in no list; that
flow is removed if `r` was its last node, and listed otherwise. -/
theorem floodFirstTurn_cases {ft ft' : FlowTables} {tbr tbr' : List Nat} {r : Nat}
    (hstep : floodFirstTurn (ft, tbr) r = some (ft', tbr')) :
    ∃ s g f t1, ft.desired.ref_heap r = some s ∧ ft.desired.flow_heap s.flow = some g ∧
      g.list_node = false ∧ f = { g with references := g.references.erase r } ∧
      dropRef ft.desired r = some (t1, s.flow, f) ∧
      ((f.references = [] ∧ tbr' = tbr ∧ removeDesired { ft with desired := t1 } s.flow f = some ft') ∨
        (f.references ≠ [] ∧ tbr' = tbr ++ [s.flow] ∧
          ft' = { ft with desired := t1.setFlow s.flow (some { f with list_node := true }) })) := by
  unfold floodFirstTurn at hstep
  obtain ⟨⟨t1, d, f⟩, hd, hstep⟩ := Option.bind_eq_some.1 hstep
  obtain ⟨s, g, hs, rfl, hg, rfl, -⟩ := dropRef_some hd
  dsimp only at hstep
  split at hstep
  · cases hstep
  refine ⟨s, g, _, t1, hs, hg, Bool.eq_false_iff.2 ‹_›, rfl, hd, ?_⟩
  split at hstep
  · obtain ⟨ft2, hrm, hstep⟩ := Option.bind_eq_some.1 hstep
    cases hstep
    exact .inl ⟨‹_›, rfl, hrm⟩
  · cases hstep
    exact .inr ⟨‹_›, rfl, rfl⟩

/-- One turn of the first loop. -/
theorem firstLoopInv_step (hQ : FloodStable Q) {X : List Nat} {uft : List SbToFlow}
    {stf : SbToFlow} (hs : stf ∈ uft) {ft0 ft ft' : FlowTables} {r : Nat} {rest tbr tbr' : List Nat}
    (h : FirstLoopInv Q X uft stf.sb_uuid ft0 (r :: rest) ft tbr)
    (hstep : floodFirstTurn (ft, tbr) r = some (ft', tbr')) :
    FirstLoopInv Q X uft stf.sb_uuid ft0 rest ft' tbr' := by
  have hmem := mem_withEntry_self (l := r :: rest) hs rfl
  obtain ⟨s, g, f, t1, -, hg, hln, rfl, hd, hcase⟩ := floodFirstTurn_cases hstep
  have hl1 : Linked X tbr (withEntry uft stf.sb_uuid rest) t1 := by
    simpa using linked_dropRef h.linked hmem rfl hd
  have hdX : s.flow ∉ X := h.linked.entries.dropRef_attached hmem rfl hd
  have hR1 := referenced_dropRef h.referenced hd
  have hq1 : Q { ft with desired := t1 } := hQ.keep _ _ h.stable (keepsLinks_dropRef hd)
  have hf1 := dropRef_heap hd
  have ne1 := fun {d'} (e : d' ≠ s.flow) => dropRef_heap_ne hd e
  -- the flow was in no list, so it is not listed yet
  have hdt : s.flow ∉ tbr := fun hm => by
    simpa [hln] using (h.linked.flows.listed _ g hg).2 (.inr hm)
  have live1 : ∀ d' ∈ tbr, d' ∉ X ∧ (t1.flow_heap d').isSome := fun d' hm =>
    ⟨(h.tbr_live d' hm).1, by rw [ne1 (fun e => hdt (e ▸ hm))]; exact (h.tbr_live d' hm).2⟩
  have frame1 : ∀ d' ∈ X, t1.flow_heap d' = ft0.desired.flow_heap d' := fun d' hm => by
    rw [ne1 (fun e => hdX (e ▸ hm))]; exact h.frame d' hm
  rcases hcase with ⟨-, rfl, hrm⟩ | ⟨hne, rfl, rfl⟩
  · have hh := removeDesired_heap hrm
    refine ⟨linked_removeDesired (by exact hl1) hrm,
      referenced_removeDesired hR1 hrm, hQ.remove _ _ _ _ hq1 hf1 hrm,
      (removeDesired_uuid hrm).trans ((dropRef_uuid hd).trans h.uuid), h.tbr_nodup,
      fun d' hm => ?_, fun d' hm => ?_⟩
    · rw [hh, if_neg (show d' ≠ s.flow from fun e => hdt (e ▸ hm))]; exact live1 d' hm
    · rw [hh, if_neg (show d' ≠ s.flow from fun e => hdX (e ▸ hm))]; exact frame1 d' hm
  · refine ⟨⟨flowLinks_setListed hl1.flows hf1, hl1.entries.of_refs rfl⟩, ?_, ?_, ?_,
      List.nodup_append_comm.2 (List.nodup_cons.2 ⟨hdt, h.tbr_nodup⟩), ?_, ?_⟩
    · refine referenced_of_cons (d := s.flow) (fun d' g' hd' hX => ?_) (by simp [hne])
      simp only [OvnDesiredFlowTable.setFlow_heap] at hd'
      split_ifs at hd' with e
      · exact absurd (by simp [e]) hX
      · exact hR1 d' g' hd' hX
    · exact hQ.keep { ft with desired := t1 } _ hq1 (keepsLinks_setFlow hf1 rfl)
    · exact (dropRef_uuid hd).trans h.uuid
    · intro d' hm
      rcases List.mem_append.1 hm with hm | hm
      · refine ⟨(live1 d' hm).1, ?_⟩
        simp only [OvnDesiredFlowTable.setFlow_heap]
        split_ifs
        · rfl
        · exact (live1 d' hm).2
      · simp at hm; subst hm; exact ⟨hdX, by simp⟩
    · intro d' hm
      simp only [OvnDesiredFlowTable.setFlow_heap,
        if_neg (show d' ≠ s.flow from fun e => hdX (e ▸ hm))]
      exact frame1 d' hm

/-- The invariant between two steps of a flood, with `X` the flows detached by the calls in
progress. -/
def FloodInv (Q : FlowTables → Prop) (X : List Nat) (ft : FlowTables) : Prop :=
  Linked X [] ft.desired.uuid_flow_table ft.desired ∧ Referenced X ft.desired ∧ Q ft

theorem firstLoopInv_init {X : List Nat} {ft : FlowTables} (h : FloodInv Q X ft) {stf : SbToFlow}
    (hs : stf ∈ ft.desired.uuid_flow_table) :
    FirstLoopInv Q X ft.desired.uuid_flow_table stf.sb_uuid ft stf.flows ft [] := by
  refine ⟨?_, h.2.1, h.2.2, rfl, List.nodup_nil, by simp, fun _ _ => rfl⟩
  rw [withEntry_self h.1.entries.uuids_nodup hs]
  exact h.1

theorem flood_first_loop (hQ : FloodStable Q) {X : List Nat} {ft ft1 : FlowTables}
    (h : FloodInv Q X ft) {stf : SbToFlow} (hs : stf ∈ ft.desired.uuid_flow_table)
    {tbr : List Nat} (hl : stf.flows.foldlM floodFirstTurn (ft, []) = some (ft1, tbr)) :
    FirstLoopInv Q X ft.desired.uuid_flow_table stf.sb_uuid ft [] ft1 tbr :=
  foldlM_induct (fun rest (acc : FlowTables × List Nat) =>
      FirstLoopInv Q X ft.desired.uuid_flow_table stf.sb_uuid ft rest acc.1 acc.2)
    (fun _ _ _ _ hi hstep => firstLoopInv_step hQ hs hi hstep) (firstLoopInv_init h hs) hl

/-- The detach loop: the listed flows join the detached ones, and only the lists of the uuid
table change. -/
theorem flood_detach_loop {X tbr : List Nat} {ft ft' : FlowTables}
    (h : Linked X tbr ft.desired.uuid_flow_table ft.desired)
    (hl : tbr.foldlM floodDetach ft = some ft') :
    ∃ l, ft' = { ft with desired := { ft.desired with uuid_flow_table := l } } ∧
      EntryLinks (X ++ tbr) l ft.desired ∧
      l.map (·.sb_uuid) = ft.desired.uuid_flow_table.map (·.sb_uuid) := by
  have := foldlM_induct (fun rest (ft1 : FlowTables) => ∃ done l, done ++ rest = tbr ∧
      ft1 = { ft with desired := { ft.desired with uuid_flow_table := l } } ∧
      EntryLinks (X ++ done) l ft.desired ∧
      l.map (·.sb_uuid) = ft.desired.uuid_flow_table.map (·.sb_uuid)) ?_
    ⟨[], _, rfl, rfl, by simpa using h.entries, rfl⟩ hl
  · obtain ⟨done, l, e, rfl, hE, hu⟩ := this
    simp only [List.append_nil] at e
    exact ⟨l, rfl, e ▸ hE, hu⟩
  · rintro d rest ft1 ft2 ⟨done, l, e, rfl, hE, hu⟩ hstep
    unfold floodDetach at hstep
    split at hstep
    · cases hstep
    · rename_i g hg
      split_ifs at hstep
      cases hstep
      refine ⟨done ++ [d], _, by simp [← e], rfl, by simpa using entryLinks_detach hE h.flows hg, ?_⟩
      simpa [foldl_detachRef, Function.comp_def] using hu

/-- The contract of a flood call: it keeps the invariant, whatever the flows detached by the
calls in progress, and leaves those flows as they were. -/
def FloodContract (Q : FlowTables → Prop) (recur : FlowTables → Uuid → List Uuid → FloodResult) :
    Prop :=
  ∀ X ft u nodes ft' nodes', FloodInv Q X ft → recur ft u nodes = some (ft', nodes') →
    FloodInv Q X ft' ∧ ∀ d ∈ X, ft'.desired.flow_heap d = ft.desired.flow_heap d

theorem referenced_of_detached {X : List Nat} {t : OvnDesiredFlowTable} {d : Nat}
    (h : Referenced (d :: X) t) (hd : d ∈ X) : Referenced X t :=
  fun d' g hg hX => h d' g hg fun hm => hX ((List.mem_cons.1 hm).elim (· ▸ hd) id)

theorem FloodInv.dropRef_detached {X : List Nat} {ft : FlowTables} (h : FloodInv Q X ft)
    (hQ : FloodStable Q) {r : Nat} {s : SbFlowRef} (hs : ft.desired.ref_heap r = some s)
    (hX : s.flow ∈ X) {t : OvnDesiredFlowTable} {d : Nat} {f : DesiredFlow}
    (hdrop : dropRef ft.desired r = some (t, d, f)) : FloodInv Q X { ft with desired := t } := by
  obtain ⟨s', -, hs', rfl, -⟩ := dropRef_some hdrop
  rw [hs] at hs'; cases hs'
  refine ⟨⟨flowLinks_dropRef h.1.flows hdrop, ?_⟩, referenced_of_detached
    (referenced_dropRef h.2.1 hdrop) hX, hQ.keep _ _ h.2.2 (keepsLinks_dropRef hdrop)⟩
  rw [dropRef_uuid hdrop]
  exact entryLinks_dropRef_detached h.1.entries hs hX hdrop

/-- A detached flow with no reference left is removed: it leaves the detached ones, and no
other flow changes. -/
theorem FloodInv.remove_detached {X rest : List Nat} {d : Nat} {ft ft' : FlowTables}
    (h : FloodInv Q (X ++ d :: rest) ft) (hQ : FloodStable Q) {g : DesiredFlow}
    (hg : ft.desired.flow_heap d = some g) (hr : g.references = [])
    (hrm : removeDesired { ft with desired := ft.desired.setFlow d (some { g with list_node := false }) }
      d { g with list_node := false } = some ft') :
    FloodInv Q (X ++ rest) ft' ∧ ∀ d', d' ≠ d → ft'.desired.flow_heap d' = ft.desired.flow_heap d' := by
  obtain ⟨g', hg', -, e⟩ := removeDesired_desired hrm
  simp only [OvnDesiredFlowTable.setFlow_heap, if_pos, Option.some.injEq] at hg'
  subst hg'
  have e2 : ft'.desired = { ft.desired with
      match_flow_table := ft.desired.match_flow_table.erase d,
      flow_heap := Function.update ft.desired.flow_heap d none } := by
    rw [e]; simp [OvnDesiredFlowTable.setFlow, Function.update_idem]
  have gone : ∀ d' ∈ X ++ d :: rest, d' ∉ X ++ rest → ft'.desired.flow_heap d' = none := by
    intro d' hm hm'
    have : d' = d := by simp at hm hm'; tauto
    simp [e2, this]
  have keep : ∀ d', d' ≠ d → ft'.desired.flow_heap d' = ft.desired.flow_heap d' := by
    intro d' ne; simp [e2, Function.update_apply, ne]
  have hk := hQ.keep _ (ft.desired.setFlow d (some { g with list_node := false })) h.2.2
    (keepsLinks_setFlow hg rfl)
  have c2 : FloodInv Q (X ++ d :: rest) ft' := by
    refine ⟨?_, ?_, hQ.remove _ _ _ _ hk (by simp) hrm⟩
    · rw [e2]
      exact ⟨flowLinks_destroy h.1.flows hg hr, h.1.entries.of_refs rfl⟩
    · intro d' g' hd' hX
      have ne : d' ≠ d := by rintro rfl; simp [e2] at hd'
      exact h.2.1 d' g' ((keep d' ne).symm.trans hd') hX
  exact ⟨⟨c2.1.forget (fun _ hm => ((List.sublist_cons_self d rest).append_left X).subset hm) gone,
    c2.2.1.forget gone, c2.2.2⟩, keep⟩

/-- The inner loop of the last loop, over the references of a detached flow `d`: every
node leaves, after the call for its uuid when that uuid is new. -/
theorem floodRemoveRefsOf_inv (hQ : FloodStable Q) {recur : FlowTables → Uuid → List Uuid → FloodResult}
    (hrec : FloodContract Q recur) {X : List Nat} {d : Nat} (hd : d ∈ X) :
    ∀ (rs : List Nat) {ft ft' : FlowTables} {nodes nodes' : List Uuid} {g : DesiredFlow},
      FloodInv Q X ft → ft.desired.flow_heap d = some g → g.references = rs →
      floodRemoveRefsOf recur rs (ft, nodes) = some (ft', nodes') →
      FloodInv Q X ft' ∧ ft'.desired.flow_heap d = some { g with references := [] } ∧
        ∀ d' ∈ X, d' ≠ d → ft'.desired.flow_heap d' = ft.desired.flow_heap d'
  | [], ft, ft', nodes, nodes', g, h, hg, hrs, hl => by
    simp only [floodRemoveRefsOf, Option.some.injEq, Prod.mk.injEq] at hl
    obtain ⟨rfl, rfl⟩ := hl
    refine ⟨h, ?_, fun _ _ _ => rfl⟩
    rw [hg]; cases g; simp_all
  | r :: rs, ft, ft', nodes, nodes', g, h, hg, hrs, hl => by
    simp only [floodRemoveRefsOf] at hl
    obtain ⟨sfr, -, hl⟩ := Option.bind_eq_some.1 hl
    obtain ⟨⟨ft1, nodes1⟩, h1, hl⟩ := Option.bind_eq_some.1 hl
    -- the call for the node's uuid, if any, keeps the invariant and the detached flows
    have c1 : FloodInv Q X ft1 ∧ ∀ d' ∈ X, ft1.desired.flow_heap d' = ft.desired.flow_heap d' := by
      split at h1
      · cases h1; exact ⟨h, fun _ _ => rfl⟩
      · exact hrec X ft _ _ ft1 nodes1 h h1
    dsimp only at hl
    obtain ⟨⟨t, d0, f0⟩, hdrop, hl⟩ := Option.bind_eq_some.1 hl
    have hg1 : ft1.desired.flow_heap d = some g := (c1.2 d hd).trans hg
    obtain ⟨s, hs, hsd⟩ := c1.1.1.flows.flow_ref d g hg1 r (by simp [hrs])
    obtain ⟨s', g', hs', hd0, hg', hf0, -⟩ := dropRef_some hdrop
    rw [hs] at hs'; cases hs'
    subst hd0 hsd
    rw [hg1] at hg'; cases hg'
    have h2 := c1.1.dropRef_detached hQ hs hd hdrop
    have hg2 : t.flow_heap s.flow = some { g with references := rs } := by
      rw [dropRef_heap hdrop, hf0, hrs, List.erase_cons_head]
    obtain ⟨h3, hd3, hf3⟩ := floodRemoveRefsOf_inv hQ hrec hd rs h2 hg2 rfl hl
    refine ⟨h3, hd3, fun d' hm ne => ?_⟩
    rw [hf3 d' hm ne]
    exact (dropRef_heap_ne hdrop ne).trans (c1.2 d' hm)

/-- One turn of the last loop: once its nodes are freed the flow `d` is removed; the flows
still to come stay live, and the detached ones are kept. -/
theorem floodRemoveEach_turn (hQ : FloodStable Q)
    {recur : FlowTables → Uuid → List Uuid → FloodResult} (hrec : FloodContract Q recur)
    {X rest : List Nat} {d : Nat} {ft ft1 ft2 : FlowTables} {nodes nodes1 : List Uuid}
    {g0 g : DesiredFlow} (h : FloodInv Q (X ++ d :: rest) ft) (hnd : (d :: rest).Nodup)
    (hlive : ∀ d' ∈ d :: rest, d' ∉ X ∧ (ft.desired.flow_heap d').isSome)
    (hg0 : ft.desired.flow_heap d = some g0)
    (h1 : floodRemoveRefsOf recur g0.references (ft, nodes) = some (ft1, nodes1))
    (hg : ft1.desired.flow_heap d = some g)
    (hrm : removeDesired { ft1 with desired := ft1.desired.setFlow d (some { g with list_node := false }) }
      d { g with list_node := false } = some ft2) :
    FloodInv Q (X ++ rest) ft2 ∧ g.references = [] ∧
      (∀ d' ∈ X, ft2.desired.flow_heap d' = ft.desired.flow_heap d') ∧
      ∀ d' ∈ rest, d' ∉ X ∧ (ft2.desired.flow_heap d').isSome := by
  have hdX : d ∈ X ++ d :: rest := by simp
  obtain ⟨c1, hd1, hf1⟩ := floodRemoveRefsOf_inv hQ hrec hdX _ h hg0 rfl h1
  rw [hd1] at hg; cases hg
  obtain ⟨c3, keep⟩ := c1.remove_detached hQ hd1 rfl hrm
  refine ⟨c3, rfl, fun d' hm => ?_, fun d' hm => ?_⟩
  · have ne : d' ≠ d := fun e => (hlive d (List.mem_cons_self _ _)).1 (e ▸ hm)
    rw [keep d' ne, hf1 d' (by simp [hm]) ne]
  · have ne : d' ≠ d := fun e => (List.nodup_cons.1 hnd).1 (e ▸ hm)
    refine ⟨(hlive d' (List.mem_cons_of_mem _ hm)).1, ?_⟩
    rw [keep d' ne, hf1 d' (by simp [hm]) ne]
    exact (hlive d' (List.mem_cons_of_mem _ hm)).2

/-- The last loop, over `to_be_removed`: each flow's other uuids are flooded, then the flow
is removed. The flows still to come are detached. -/
theorem floodRemoveEach_inv (hQ : FloodStable Q)
    {recur : FlowTables → Uuid → List Uuid → FloodResult} (hrec : FloodContract Q recur) :
    ∀ (rest : List Nat) {X : List Nat} {ft ft' : FlowTables} {nodes nodes' : List Uuid},
      FloodInv Q (X ++ rest) ft → rest.Nodup →
      (∀ d ∈ rest, d ∉ X ∧ (ft.desired.flow_heap d).isSome) →
      floodRemoveEach recur rest (ft, nodes) = some (ft', nodes') →
      FloodInv Q X ft' ∧ ∀ d ∈ X, ft'.desired.flow_heap d = ft.desired.flow_heap d
  | [], X, ft, ft', nodes, nodes', h, _, _, hl => by
    simp only [floodRemoveEach, Option.some.injEq, Prod.mk.injEq] at hl
    obtain ⟨rfl, rfl⟩ := hl
    exact ⟨by simpa using h, fun _ _ => rfl⟩
  | d :: rest, X, ft, ft', nodes, nodes', h, hnd, hlive, hl => by
    simp only [floodRemoveEach] at hl
    obtain ⟨g0, hg0, hl1⟩ := Option.bind_eq_some.1 hl
    obtain ⟨⟨ft1, nodes1⟩, h1, hl2⟩ := Option.bind_eq_some.1 hl1
    dsimp only at hl2
    obtain ⟨g, hg, hl3⟩ := Option.bind_eq_some.1 hl2
    obtain ⟨ft2, hrm, hl4⟩ := Option.bind_eq_some.1 hl3
    obtain ⟨c3, -, hf3, live3⟩ := floodRemoveEach_turn hQ hrec h hnd hlive hg0 h1 hg hrm
    obtain ⟨h4, hf4⟩ := floodRemoveEach_inv hQ hrec rest c3 (List.nodup_cons.1 hnd).2 live3 hl4
    exact ⟨h4, fun d' hm => (hf4 d' hm).trans (hf3 d' hm)⟩

/-- A call that finds its entry: after the first loop and the detach loop the listed flows
join the detached ones, and the entry is gone from the uuid table. -/
theorem flood_call_start (hQ : FloodStable Q) {X tbr : List Nat} {ft ft1 ft2 : FlowTables}
    {u : Uuid} {stf : SbToFlow} (h : FloodInv Q X ft)
    (hstf : sb_to_flow_find ft.desired.uuid_flow_table u = some stf)
    (h1 : stf.flows.foldlM floodFirstTurn (ft, []) = some (ft1, tbr))
    (h2 : tbr.foldlM floodDetach { ft1 with desired := { ft1.desired with
      uuid_flow_table := eraseEntry ft1.desired.uuid_flow_table u } } = some ft2) :
    FirstLoopInv Q X ft.desired.uuid_flow_table u ft [] ft1 tbr ∧ FloodInv Q (X ++ tbr) ft2 ∧
      ∃ l, ft2 = { ft1 with desired := { ft1.desired with uuid_flow_table := l } } ∧
        l.map (·.sb_uuid) = (eraseEntry ft.desired.uuid_flow_table u).map (·.sb_uuid) := by
  obtain ⟨hs, rfl⟩ := sb_to_flow_find_some hstf
  have c1 := flood_first_loop hQ h hs h1
  -- the entry goes; its list, as the loop saw it, is used up
  have l1 : Linked X tbr (eraseEntry ft1.desired.uuid_flow_table stf.sb_uuid) ft1.desired := by
    rw [c1.uuid]
    exact ⟨c1.linked.flows, entryLinks_eraseEntry c1.linked.entries⟩
  obtain ⟨l, rfl, hE, hl⟩ := flood_detach_loop (by exact ⟨l1.flows.with_uuid _, l1.entries.of_refs rfl⟩) h2
  refine ⟨c1, ⟨⟨(l1.flows.congr fun d _ _ => by simp [or_comm]).with_uuid _, hE.of_refs rfl⟩,
    fun d g hg hX => c1.referenced d g hg fun hm => hX (List.mem_append_left _ hm),
    hQ.keep ft1 _ c1.stable fun _ => rfl⟩, l, rfl, ?_⟩
  rw [hl, ← c1.uuid]

/-- Every depth of `flood_remove_flows_for_sb_uuid` keeps its contract. -/
theorem flood_contract (hQ : FloodStable Q) :
    ∀ fuel, FloodContract Q (flood_remove_flows_for_sb_uuid fuel)
  | 0 => by intro X ft u nodes ft' nodes' _ hf; simp [flood_remove_flows_for_sb_uuid] at hf
  | fuel + 1 => by
    intro X ft u nodes ft' nodes' h hf
    simp only [flood_remove_flows_for_sb_uuid, floodBody] at hf
    split at hf
    · cases hf; exact ⟨h, fun _ _ => rfl⟩
    rename_i stf hstf
    obtain ⟨⟨ft1, tbr⟩, h1, hf1⟩ := Option.bind_eq_some.1 hf
    dsimp only at hf1
    obtain ⟨ft2, h2, hf2⟩ := Option.bind_eq_some.1 hf1
    obtain ⟨c1, c2, l, rfl, -⟩ := flood_call_start hQ h hstf h1 h2
    obtain ⟨h3, hf3⟩ := floodRemoveEach_inv hQ (flood_contract hQ fuel) tbr c2 c1.tbr_nodup
      c1.tbr_live hf2
    exact ⟨h3, fun d hm => (hf3 d hm).trans (c1.frame d hm)⟩

theorem floodWalk_inv (hQ : FloodStable Q) (depth : Nat) :
    ∀ turns {ft ft' : FlowTables} {nodes nodes' : List Uuid} {u : Uuid}, FloodInv Q [] ft →
      floodWalk depth turns ft nodes u = some (ft', nodes') → FloodInv Q [] ft'
  | 0, _, _, _, _, _, _, hf => by simp [floodWalk] at hf
  | turns + 1, ft, ft', nodes, nodes', u, h, hf => by
    simp only [floodWalk] at hf
    obtain ⟨⟨ft1, nodes1⟩, h1, hf⟩ := Option.bind_eq_some.1 hf
    have c1 := (flood_contract hQ depth [] ft u nodes ft1 nodes1 h h1).1
    dsimp only at hf
    split at hf
    · cases hf; exact c1
    · exact floodWalk_inv hQ depth turns c1 hf

theorem floodRemoveFlows_inv (hQ : FloodStable Q) {ft ft' : FlowTables}
    {nodes nodes' : List Uuid} (h : WellLinked ft.desired) (hq : Q ft)
    (hf : floodRemoveFlows ft nodes = some (ft', nodes')) : WellLinked ft'.desired ∧ Q ft' := by
  unfold floodRemoveFlows at hf
  have : FloodInv Q [] ft' := by
    split at hf
    · cases hf; exact ⟨h.1, h.2, hq⟩
    · exact floodWalk_inv hQ _ _ ⟨h.1, h.2, hq⟩ hf
  exact ⟨⟨this.1, this.2.1⟩, this.2.2⟩

end Flood

end OvnOfctrl
