-- What the flood removal removes. From seeds `S0` it visits exactly the uuids reached from
-- them through shared flows, each once; it destroys every flow that links one of them and
-- their entries, and leaves every other flow as it was. And it never runs out of depth:
-- each nested call is for a uuid with an entry that is not yet visited.
import OvnOfctrl.DesiredOps
import OvnOfctrl.FloodLinks

namespace OvnOfctrl

/-! ## The uuids a flood reaches -/

/-- The uuids a flood from the seeds `S0` reaches in `t`: the seeds, and every uuid that
shares a flow with one it reaches. -/
inductive FloodReach (t : OvnDesiredFlowTable) (S0 : List Uuid) : Uuid → Prop
  | seed {u : Uuid} : u ∈ S0 → FloodReach t S0 u
  | share {u v : Uuid} {d : Nat} {g : DesiredFlow} : FloodReach t S0 u → t.flow_heap d = some g →
      LinksTo t g u → LinksTo t g v → FloodReach t S0 v

/-! ## The trace of a flood -/

/-- Flow `d` of `t`, detached by a call in progress of a flood from `S0` over `t0`: a flow of
`t0` that links a uuid the flood reaches, has no node `t0` did not give it, and has lost only
nodes of uuids in `nodes`. -/
def Detached (t0 : OvnDesiredFlowTable) (S0 nodes : List Uuid) (t : OvnDesiredFlowTable) (d : Nat) :
    Prop :=
  ∃ g g0, t.flow_heap d = some g ∧ t0.flow_heap d = some g0 ∧ g.references ⊆ g0.references ∧
    (∃ w, FloodReach t0 S0 w ∧ LinksTo t0 g0 w) ∧
    ∀ r ∈ g0.references, r ∉ g.references → ∃ s, t0.ref_heap r = some s ∧ s.sb_uuid ∈ nodes

/-- A flood from the seeds `S0` over the table `t0`, between two calls. `nodes` lists the
uuids visited, each once, all reached; `P` are the visited ones whose call has not started;
the flows of `X` are detached by the calls in progress. A visited uuid whose call has started
has no entry left, and every flow of `t0` that links it is gone or detached. A flow that is
gone linked only visited uuids. Every other flow, and every node left, is as in `t0`; an entry
of `t0` stays until its uuid is visited. -/
structure FloodTrace (t0 : OvnDesiredFlowTable) (S0 P : List Uuid) (X : List Nat) (ft : FlowTables)
    (nodes : List Uuid) : Prop where
  nodup : nodes.Nodup
  reach : ∀ v ∈ nodes, FloodReach t0 S0 v
  seeds : ∀ v ∈ S0, v ∈ nodes
  pending : ∀ v ∈ P, v ∈ nodes
  erased : ∀ v ∈ nodes, v ∉ P → v ∉ ft.desired.uuid_flow_table.map (·.sb_uuid)
  entries : ∀ v ∈ t0.uuid_flow_table.map (·.sb_uuid), v ∉ nodes →
    v ∈ ft.desired.uuid_flow_table.map (·.sb_uuid)
  done : ∀ v ∈ nodes, v ∉ P → ∀ d g0, t0.flow_heap d = some g0 → LinksTo t0 g0 v →
    ft.desired.flow_heap d = none ∨ d ∈ X
  gone : ∀ d g0, t0.flow_heap d = some g0 → ft.desired.flow_heap d = none →
    ∀ v, LinksTo t0 g0 v → v ∈ nodes
  kept : ∀ d g, d ∉ X → ft.desired.flow_heap d = some g → t0.flow_heap d = some g
  refs : ∀ r s, ft.desired.ref_heap r = some s → t0.ref_heap r = some s
  detached : ∀ d ∈ X, Detached t0 S0 nodes ft.desired d

section Trace

variable {t0 : OvnDesiredFlowTable} {S0 P : List Uuid} {X : List Nat} {ft : FlowTables}
  {nodes : List Uuid}

theorem Detached.mono {t : OvnDesiredFlowTable} {d : Nat} {nodes' : List Uuid}
    (h : Detached t0 S0 nodes t d) (hn : ∀ v ∈ nodes, v ∈ nodes') : Detached t0 S0 nodes' t d := by
  obtain ⟨g, g0, hg, hg0, hsub, hw, hgone⟩ := h
  refine ⟨g, g0, hg, hg0, hsub, hw, fun r hr hn' => ?_⟩
  obtain ⟨s, hs, hv⟩ := hgone r hr hn'
  exact ⟨s, hs, hn _ hv⟩

theorem Detached.congr {t t' : OvnDesiredFlowTable} {d : Nat} (h : Detached t0 S0 nodes t d)
    (e : t'.flow_heap d = t.flow_heap d) : Detached t0 S0 nodes t' d := by
  obtain ⟨g, g0, hg, rest⟩ := h
  exact ⟨g, g0, e.trans hg, rest⟩

theorem Detached.reach {t : OvnDesiredFlowTable} {d r : Nat} {g : DesiredFlow} {s : SbFlowRef}
    (h : Detached t0 S0 nodes t d) (hg : t.flow_heap d = some g) (hr : r ∈ g.references)
    (hs : t0.ref_heap r = some s) : FloodReach t0 S0 s.sb_uuid := by
  obtain ⟨g', g0, hg', hg0, hsub, ⟨w, hw, hlw⟩, -⟩ := h
  rw [hg] at hg'; cases hg'
  exact .share hw hg0 hlw ⟨r, hsub hr, s, hs, rfl⟩

/-- A new uuid is visited: it joins `nodes`, with its call still to start. -/
theorem FloodTrace.visit (tr : FloodTrace t0 S0 P X ft nodes) {v : Uuid} (hv : v ∉ nodes)
    (hr : FloodReach t0 S0 v) : FloodTrace t0 S0 (v :: P) X ft (nodes ++ [v]) := by
  have old : ∀ {w}, w ∈ nodes ++ [v] → w ∉ v :: P → w ∈ nodes ∧ w ∉ P := by
    intro w hw hP
    simp only [List.mem_append, List.mem_singleton, List.mem_cons, List.not_mem_nil, or_false,
      not_or] at hw hP
    exact ⟨hw.resolve_right hP.1, hP.2⟩
  refine ⟨tr.nodup.append (List.nodup_singleton v) (List.disjoint_singleton.2 hv), fun w hw => ?_,
    fun w hw => List.mem_append_left _ (tr.seeds w hw), fun w hw => ?_,
    fun w hw hP => tr.erased w (old hw hP).1 (old hw hP).2,
    fun w hw hn => tr.entries w hw fun h => hn (List.mem_append_left _ h),
    fun w hw hP => tr.done w (old hw hP).1 (old hw hP).2,
    fun d g0 hg0 hd w hl => List.mem_append_left _ (tr.gone d g0 hg0 hd w hl), tr.kept, tr.refs,
    fun d hd => (tr.detached d hd).mono fun w hw => List.mem_append_left _ hw⟩
  · rcases List.mem_append.1 hw with hw | hw
    · exact tr.reach w hw
    · rw [List.mem_singleton.1 hw]; exact hr
  · rcases List.mem_cons.1 hw with rfl | hw
    · exact List.mem_append_right _ (List.mem_singleton_self _)
    · exact List.mem_append_left _ (tr.pending w hw)

/-- A node of a detached flow is freed, once its uuid is visited. -/
theorem FloodTrace.dropRef (tr : FloodTrace t0 S0 P X ft nodes) {r d : Nat} {t : OvnDesiredFlowTable}
    {f : DesiredFlow} (hdrop : dropRef ft.desired r = some (t, d, f)) (hX : d ∈ X)
    (hv : ∀ s, ft.desired.ref_heap r = some s → s.sb_uuid ∈ nodes) :
    FloodTrace t0 S0 P X { ft with desired := t } nodes := by
  obtain ⟨s, g, hs, rfl, hg, rfl, -⟩ := dropRef_some hdrop
  have heap := fun {d'} (e : d' ≠ s.flow) => dropRef_heap_ne hdrop e
  refine ⟨tr.nodup, tr.reach, tr.seeds, tr.pending, dropRef_uuid hdrop ▸ tr.erased,
    dropRef_uuid hdrop ▸ tr.entries, fun v hv' hP d' g0 hg0 hl => ?_, fun d' g0 hg0 hd' => ?_,
    fun d' g' hX' hd' => ?_, fun r' s' hr' => ?_, fun d' hd' => ?_⟩
  · by_cases e : d' = s.flow
    · exact .inr (e ▸ hX)
    · rw [heap e]; exact tr.done v hv' hP d' g0 hg0 hl
  · have e : d' ≠ s.flow := by rintro rfl; simp [dropRef_heap hdrop] at hd'
    rw [heap e] at hd'; exact tr.gone d' g0 hg0 hd'
  · have e : d' ≠ s.flow := by rintro rfl; exact hX' hX
    rw [heap e] at hd'; exact tr.kept d' g' hX' hd'
  · have e : r' ≠ r := by rintro rfl; simp [dropRef_ref_self hdrop] at hr'
    rw [dropRef_ref_ne hdrop e] at hr'
    exact tr.refs r' s' hr'
  · by_cases e : d' = s.flow
    · subst e
      obtain ⟨g1, g0, hg1, hg0, hsub, hw, hgone⟩ := tr.detached _ hX
      rw [hg] at hg1; cases hg1
      refine ⟨_, g0, dropRef_heap hdrop, hg0, fun r' hr' => hsub (List.mem_of_mem_erase hr'), hw,
        fun r' hr' hn => ?_⟩
      by_cases er : r' = r
      · subst er; exact ⟨s, tr.refs _ _ hs, hv s hs⟩
      · exact hgone r' hr' fun hm => hn ((List.mem_erase_of_ne er).2 hm)
    · exact (tr.detached d' hd').congr (heap e)

/-- A detached flow with no node left is removed. -/
theorem FloodTrace.remove (tr : FloodTrace t0 S0 P X ft nodes) {d : Nat} {g : DesiredFlow}
    (hX : d ∈ X) (hg : ft.desired.flow_heap d = some g) (hr : g.references = []) {X' : List Nat}
    (hX' : ∀ d', d' ∈ X ↔ d' = d ∨ d' ∈ X') (hd' : d ∉ X') {ft' : FlowTables}
    (hheap : ∀ d', ft'.desired.flow_heap d' = if d' = d then none else ft.desired.flow_heap d')
    (hrefs : ft'.desired.ref_heap = ft.desired.ref_heap)
    (huuid : ft'.desired.uuid_flow_table = ft.desired.uuid_flow_table) :
    FloodTrace t0 S0 P X' ft' nodes := by
  have other : ∀ d', d' ≠ d → ft'.desired.flow_heap d' = ft.desired.flow_heap d' :=
    fun d' ne => by rw [hheap, if_neg ne]
  refine ⟨tr.nodup, tr.reach, tr.seeds, tr.pending, huuid ▸ tr.erased, huuid ▸ tr.entries,
    fun v hv hP d1 g0 hg0 hl => ?_, fun d1 g0 hg0 hd1 => ?_, fun d1 g1 hX1 hd1 => ?_,
    hrefs ▸ tr.refs, fun d1 hd1 => ?_⟩
  · by_cases e : d1 = d
    · exact .inl (by rw [hheap, if_pos e])
    · rw [other d1 e]
      exact (tr.done v hv hP d1 g0 hg0 hl).imp id fun hm => ((hX' d1).1 hm).resolve_left e
  · by_cases e : d1 = d
    · subst e
      obtain ⟨g1, g0', hg1, hg0', -, -, hgone⟩ := tr.detached d1 hX
      rw [hg] at hg1; cases hg1
      rw [hg0] at hg0'; cases hg0'
      rintro v ⟨r, hr0, s, hs, rfl⟩
      obtain ⟨s', hs', hv⟩ := hgone r hr0 (by simp [hr])
      rw [hs] at hs'; cases hs'; exact hv
    · rw [other d1 e] at hd1; exact tr.gone d1 g0 hg0 hd1
  · have e : d1 ≠ d := by rintro rfl; rw [hheap, if_pos rfl] at hd1; cases hd1
    rw [other d1 e] at hd1
    exact tr.kept d1 g1 (fun hm => hX1 (((hX' d1).1 hm).resolve_left e)) hd1
  · have e : d1 ≠ d := by rintro rfl; exact hd' hd1
    exact (tr.detached d1 ((hX' d1).2 (.inr hd1))).congr (other d1 e)

/-! ## The start of a call -/

theorem floodStable_true : FloodStable fun _ => True :=
  ⟨fun _ _ _ _ => trivial, fun _ _ _ _ _ _ _ => trivial⟩

theorem withEntry_cleared {uft : List SbToFlow} {u : Uuid} :
    ∀ stf ∈ withEntry uft u [], stf.sb_uuid = u → stf.flows = [] := by
  intro stf hm hu
  obtain ⟨stf0, -, rfl⟩ := List.mem_map.1 hm
  split_ifs at hu ⊢ with e
  · rfl
  · exact absurd hu e

/-- A live flow outside `X` has all its nodes in entries. So once the entries of `u` have no
node, every flow of `t0` that links `u` is gone, or in `X'`, or changed from `t0`. -/
theorem linking_gone_of_cleared {X Y X' : List Nat} {uft : List SbToFlow} {t : OvnDesiredFlowTable}
    (hE : EntryLinks X uft t) (hF : FlowLinks X Y t)
    (hrefs : ∀ r s, t.ref_heap r = some s → t0.ref_heap r = some s) {u : Uuid}
    (hu : ∀ stf ∈ uft, stf.sb_uuid = u → stf.flows = [])
    (hkept : ∀ d g, d ∉ X' → t.flow_heap d = some g → t0.flow_heap d = some g)
    (hX : ∀ d, d ∉ X' → d ∉ X) :
    ∀ d g0, t0.flow_heap d = some g0 → LinksTo t0 g0 u → t.flow_heap d = none ∨ d ∈ X' := by
  intro d g0 hg0 hl
  rcases hd : t.flow_heap d with _ | g
  · exact .inl rfl
  by_cases hX' : d ∈ X'
  · exact .inr hX'
  have e := hkept d g hX' hd
  rw [hg0, Option.some.injEq] at e; subst e
  obtain ⟨r, hr, s, hs, rfl⟩ := hl
  obtain ⟨s', hs', hsd⟩ := hF.flow_ref d g0 hd r hr
  have := hrefs r s' hs'
  rw [hs] at this; cases this
  obtain ⟨stf, hm, hsu, hrm⟩ := hE.ref_entry r s hs' (hsd ▸ hX d hX')
  simp [hu stf hm hsu] at hrm

theorem mem_map_eraseEntry {l : List SbToFlow} (hu : (l.map (·.sb_uuid)).Nodup) {u v : Uuid} :
    v ∈ (eraseEntry l u).map (·.sb_uuid) ↔ v ∈ l.map (·.sb_uuid) ∧ v ≠ u := by
  simp only [List.mem_map, mem_eraseEntry hu]
  constructor
  · rintro ⟨stf, ⟨hm, hne⟩, rfl⟩; exact ⟨⟨stf, hm, rfl⟩, hne⟩
  · rintro ⟨⟨stf, hm, rfl⟩, hne⟩; exact ⟨stf, ⟨hm, hne⟩, rfl⟩

theorem FloodTrace.start_none {u : Uuid} (tr : FloodTrace t0 S0 (u :: P) X ft nodes)
    (h : FloodInv (fun _ => True) X ft) (hnone : sb_to_flow_find ft.desired.uuid_flow_table u = none) :
    FloodTrace t0 S0 P X ft nodes := by
  have hu := sb_to_flow_find_none hnone
  refine ⟨tr.nodup, tr.reach, tr.seeds, fun v hv => tr.pending v (List.mem_cons_of_mem _ hv),
    fun v hv hP => ?_, tr.entries, fun v hv hP d g0 hg0 hl => ?_, tr.gone, tr.kept, tr.refs,
    tr.detached⟩
  · by_cases e : v = u
    · exact e ▸ hu
    · exact tr.erased v hv fun hm => (List.mem_cons.1 hm).elim e hP
  · by_cases e : v = u
    · exact linking_gone_of_cleared h.1.entries h.1.flows tr.refs
        (fun stf hm e => absurd (List.mem_map.2 ⟨stf, hm, e⟩) hu) tr.kept (fun _ => id) d g0 hg0
        (e ▸ hl)
    · exact tr.done v hv (fun hm => (List.mem_cons.1 hm).elim e hP) d g0 hg0 hl

/-- The first loop of a call from `ft0`, traced: the flows it listed are detached; a flow it
removed linked only visited uuids; it makes no flow. -/
structure FirstTrace (t0 : OvnDesiredFlowTable) (S0 : List Uuid) (X : List Nat) (ft0 : FlowTables)
    (nodes : List Uuid) (ft : FlowTables) (tbr : List Nat) : Prop where
  gone : ∀ d g0, t0.flow_heap d = some g0 → ft.desired.flow_heap d = none →
    ∀ v, LinksTo t0 g0 v → v ∈ nodes
  none_stays : ∀ d, ft0.desired.flow_heap d = none → ft.desired.flow_heap d = none
  kept : ∀ d g, d ∉ X → d ∉ tbr → ft.desired.flow_heap d = some g → t0.flow_heap d = some g
  refs : ∀ r s, ft.desired.ref_heap r = some s → t0.ref_heap r = some s
  listed : ∀ d ∈ tbr, Detached t0 S0 nodes ft.desired d

/-- One turn of the first loop of the call for a visited, reached uuid. -/
theorem firstTrace_step {uft : List SbToFlow} {stf : SbToFlow} (hs : stf ∈ uft)
    (hu : stf.sb_uuid ∈ nodes) (hreach : FloodReach t0 S0 stf.sb_uuid) {ft0 ft ft' : FlowTables}
    {r : Nat} {rest tbr tbr' : List Nat}
    (h : FirstLoopInv (fun _ => True) X uft stf.sb_uuid ft0 (r :: rest) ft tbr)
    (tr : FirstTrace t0 S0 X ft0 nodes ft tbr)
    (hstep : floodFirstTurn (ft, tbr) r = some (ft', tbr')) : FirstTrace t0 S0 X ft0 nodes ft' tbr' := by
  obtain ⟨s, hs', hsu, hsX⟩ := h.linked.entries.entry_ref _
    (mem_withEntry_self (l := r :: rest) hs rfl) r (List.mem_cons_self _ _)
  obtain ⟨s', g, f, t1, hs'', hg, hln, rfl, hd, hcase⟩ := floodFirstTurn_cases hstep
  rw [hs'] at hs''; cases hs''
  have ne1 := fun {d'} (e : d' ≠ s.flow) => dropRef_heap_ne hd e
  -- the flow is neither detached nor listed, so it is as in `t0`, and it links `u` there
  have hdt : s.flow ∉ tbr := fun hm => by
    simpa [hln] using (h.linked.flows.listed _ g hg).2 (.inr hm)
  have hg0 : t0.flow_heap s.flow = some g := tr.kept _ g hsX hdt hg
  have hrs0 : t0.ref_heap r = some s := tr.refs r s hs'
  have hrg : r ∈ g.references := by
    obtain ⟨f, hf, hr⟩ := h.linked.flows.ref_flow r s hs'
    rw [hg] at hf; cases hf; exact hr
  -- the one node it loses is `r`, of the visited `u`
  have hlost : ∀ r' ∈ g.references, r' ∉ g.references.erase r →
      ∃ s, t0.ref_heap r' = some s ∧ s.sb_uuid ∈ nodes := by
    intro r' hr' hn
    obtain rfl : r' = r := by
      by_contra ne
      exact hn ((List.mem_erase_of_ne ne).2 hr')
    exact ⟨s, hrs0, hsu ▸ hu⟩
  have refs1 : ∀ r' s', t1.ref_heap r' = some s' → t0.ref_heap r' = some s' := fun r' s' h' => by
    have e : r' ≠ r := by rintro rfl; simp [dropRef_ref_self hd] at h'
    rw [dropRef_ref_ne hd e] at h'; exact tr.refs r' s' h'
  rcases hcase with ⟨hnil, rfl, hrm⟩ | ⟨-, rfl, rfl⟩
  · -- that was its last node: it is removed, and it linked only `u`
    have hh := removeDesired_heap hrm
    have other : ∀ d', d' ≠ s.flow → ft'.desired.flow_heap d' = ft.desired.flow_heap d' :=
      fun d' e => by rw [hh, if_neg e]; exact ne1 e
    obtain ⟨-, -, -, e2⟩ := removeDesired_desired hrm
    refine ⟨fun d' g0 hd0 hd' v hl => ?_, fun d' hd' => ?_, fun d' g' hX hT hd' => ?_,
      fun r' s' h' => refs1 r' s' (by rw [e2] at h'; exact h'), fun d' hd' => ?_⟩
    · by_cases e : d' = s.flow
      · subst e
        rw [hg0] at hd0; cases hd0
        obtain ⟨r', hr', s', hs0', rfl⟩ := hl
        obtain ⟨s'', hs'', hv⟩ := hlost r' hr' (by rw [show g.references.erase r = [] from hnil]; simp)
        rw [hs0'] at hs''; cases hs''; exact hv
      · rw [other d' e] at hd'; exact tr.gone d' g0 hd0 hd' v hl
    · by_cases e : d' = s.flow
      · rw [hh, if_pos e]
      · rw [other d' e]; exact tr.none_stays d' hd'
    · have e : d' ≠ s.flow := by rintro rfl; rw [hh, if_pos rfl] at hd'; cases hd'
      rw [other d' e] at hd'; exact tr.kept d' g' hX hT hd'
    · exact (tr.listed d' hd').congr (other d' fun e => hdt (e ▸ hd'))
  · -- it keeps other nodes: it is listed, detached as far as `u`
    have other : ∀ d', d' ≠ s.flow →
        (t1.setFlow s.flow (some { g with references := g.references.erase r, list_node := true })).flow_heap d' =
          ft.desired.flow_heap d' := fun d' e => by
      rw [OvnDesiredFlowTable.setFlow_heap, if_neg e]; exact ne1 e
    refine ⟨fun d' g0 hd0 hd' v hl => ?_, fun d' hd' => ?_, fun d' g' hX hT hd' => ?_,
      fun r' s' h' => refs1 r' s' h', fun d' hd' => ?_⟩
    · have e : d' ≠ s.flow := by rintro rfl; simp at hd'
      rw [other d' e] at hd'; exact tr.gone d' g0 hd0 hd' v hl
    · have e : d' ≠ s.flow := by rintro rfl; rw [tr.none_stays _ hd'] at hg; cases hg
      rw [other d' e]; exact tr.none_stays d' hd'
    · have e : d' ≠ s.flow := fun e => hT (by simp [e])
      rw [other d' e] at hd'; exact tr.kept d' g' hX (fun hm => hT (List.mem_append_left _ hm)) hd'
    · rcases List.mem_append.1 hd' with hm | hm
      · exact (tr.listed d' hm).congr (other d' fun e => hdt (e ▸ hm))
      · rw [List.mem_singleton.1 hm]
        exact ⟨{ g with references := g.references.erase r, list_node := true }, g, by simp, hg0,
          fun r' hr' => List.mem_of_mem_erase hr', ⟨_, hreach, r, hrg, s, hrs0, hsu⟩, hlost⟩

theorem flood_first_trace {u : Uuid} (h : FloodInv (fun _ => True) X ft)
    (tr : FloodTrace t0 S0 (u :: P) X ft nodes) {stf : SbToFlow}
    (hs : stf ∈ ft.desired.uuid_flow_table) (hu : stf.sb_uuid = u) {ft1 : FlowTables}
    {tbr : List Nat} (hl : stf.flows.foldlM floodFirstTurn (ft, []) = some (ft1, tbr)) :
    FirstTrace t0 S0 X ft nodes ft1 tbr :=
  (foldlM_induct (fun rest (acc : FlowTables × List Nat) =>
      FirstLoopInv (fun _ => True) X ft.desired.uuid_flow_table stf.sb_uuid ft rest acc.1 acc.2 ∧
        FirstTrace t0 S0 X ft nodes acc.1 acc.2)
    (fun _ _ _ _ hi hstep => ⟨firstLoopInv_step floodStable_true hs hi.1 hstep,
      firstTrace_step hs (hu ▸ tr.pending u (List.mem_cons_self _ _))
        (hu ▸ tr.reach u (tr.pending u (List.mem_cons_self _ _))) hi.1 hi.2 hstep⟩)
    ⟨firstLoopInv_init h hs, ⟨tr.gone, fun _ h => h, fun d g hX _ => tr.kept d g hX, tr.refs,
      by simp⟩⟩ hl).2

/-- After the first loop and the detach loop of the call for `u`: its listed flows join the
detached ones, its entry is gone, and every flow that linked it is gone or detached. -/
theorem FloodTrace.started {u : Uuid} (tr : FloodTrace t0 S0 (u :: P) X ft nodes)
    {ft1 : FlowTables} {tbr : List Nat}
    (c1 : FirstLoopInv (fun _ => True) X ft.desired.uuid_flow_table u ft [] ft1 tbr)
    (t1 : FirstTrace t0 S0 X ft nodes ft1 tbr) {l : List SbToFlow}
    (hl : l.map (·.sb_uuid) = (eraseEntry ft.desired.uuid_flow_table u).map (·.sb_uuid)) :
    FloodTrace t0 S0 P (X ++ tbr) { ft1 with desired := { ft1.desired with uuid_flow_table := l } }
      nodes := by
  have hu : u ∈ nodes := tr.pending u (List.mem_cons_self _ _)
  have huu : (ft.desired.uuid_flow_table.map (·.sb_uuid)).Nodup := by
    simpa [← c1.uuid, map_sb_uuid_withEntry] using c1.linked.entries.uuids_nodup
  have hmem : ∀ v, v ∈ l.map (·.sb_uuid) ↔ v ∈ ft.desired.uuid_flow_table.map (·.sb_uuid) ∧ v ≠ u :=
    fun v => by rw [hl, mem_map_eraseEntry huu]
  have kept : ∀ d g, d ∉ X ++ tbr → ft1.desired.flow_heap d = some g → t0.flow_heap d = some g :=
    fun d g hX => t1.kept d g (fun hm => hX (List.mem_append_left _ hm))
      (fun hm => hX (List.mem_append_right _ hm))
  refine ⟨tr.nodup, tr.reach, tr.seeds, fun v hv => tr.pending v (List.mem_cons_of_mem _ hv),
    fun v hv hP hm => ?_, fun v hv hn => (hmem v).2 ⟨tr.entries v hv hn, fun e => hn (e ▸ hu)⟩,
    fun v hv hP d g0 hg0 hlk => ?_, t1.gone, kept, t1.refs, fun d hd => ?_⟩
  · have := (hmem v).1 hm
    exact tr.erased v hv (fun hm => (List.mem_cons.1 hm).elim this.2 hP) this.1
  · by_cases e : v = u
    · exact linking_gone_of_cleared c1.linked.entries c1.linked.flows t1.refs withEntry_cleared
        kept (fun d hX hm => hX (List.mem_append_left _ hm)) d g0 hg0 (e ▸ hlk)
    · exact (tr.done v hv (fun hm => (List.mem_cons.1 hm).elim e hP) d g0 hg0 hlk).imp
        (t1.none_stays d) (List.mem_append_left _)
  · rcases List.mem_append.1 hd with hm | hm
    · exact (tr.detached d hm).congr (c1.frame d hm)
    · exact t1.listed d hm

/-! ## The calls -/

/-- What a piece of a flood does to its trace: it ends in a trace, only adds nodes, and only
takes entries away. -/
structure TraceStep (t0 : OvnDesiredFlowTable) (S0 P : List Uuid) (X : List Nat) (ft : FlowTables)
    (nodes : List Uuid) (ft' : FlowTables) (nodes' : List Uuid) : Prop where
  trace : FloodTrace t0 S0 P X ft' nodes'
  grows : ∃ A, nodes' = nodes ++ A
  shrinks : (ft'.desired.uuid_flow_table.map (·.sb_uuid)).Sublist
    (ft.desired.uuid_flow_table.map (·.sb_uuid))

theorem TraceStep.trans {P1 P2 : List Uuid} {X1 X2 : List Nat} {ft1 ft2 : FlowTables}
    {nodes1 nodes2 : List Uuid} (s1 : TraceStep t0 S0 P1 X1 ft nodes ft1 nodes1)
    (s2 : TraceStep t0 S0 P2 X2 ft1 nodes1 ft2 nodes2) : TraceStep t0 S0 P2 X2 ft nodes ft2 nodes2 := by
  obtain ⟨-, ⟨A1, rfl⟩, h1⟩ := s1
  obtain ⟨tr, ⟨A2, rfl⟩, h2⟩ := s2
  exact ⟨tr, ⟨A1 ++ A2, by simp⟩, h2.trans h1⟩

theorem TraceStep.of_trace {ft' : FlowTables} (tr : FloodTrace t0 S0 P X ft' nodes)
    (hu : ft'.desired.uuid_flow_table = ft.desired.uuid_flow_table) :
    TraceStep t0 S0 P X ft nodes ft' nodes :=
  ⟨tr, ⟨[], by simp⟩, hu ▸ List.Sublist.refl _⟩

/-- The contract of a flood call for the trace: called for the next uuid to start, it leaves
that uuid done. -/
def TraceContract (t0 : OvnDesiredFlowTable) (S0 : List Uuid)
    (recur : FlowTables → Uuid → List Uuid → FloodResult) : Prop :=
  ∀ P X ft u nodes ft' nodes', FloodInv (fun _ => True) X ft → FloodTrace t0 S0 (u :: P) X ft nodes →
    recur ft u nodes = some (ft', nodes') → TraceStep t0 S0 P X ft nodes ft' nodes'

variable {recur : FlowTables → Uuid → List Uuid → FloodResult}

/-- The call, if any, for the uuid of a node of a detached flow: the uuid is visited after,
and the node is still there. -/
theorem refsOf_visit (hrec : FloodContract (fun _ => True) recur) (htr : TraceContract t0 S0 recur)
    (h : FloodInv (fun _ => True) X ft) (tr : FloodTrace t0 S0 P X ft nodes) {d r : Nat}
    {g : DesiredFlow} (hd : d ∈ X) (hg : ft.desired.flow_heap d = some g) (hr : r ∈ g.references)
    {sfr : SbFlowRef} (hsfr : ft.desired.ref_heap r = some sfr) {ft1 : FlowTables}
    {nodes1 : List Uuid}
    (h1 : (if sfr.sb_uuid ∈ nodes then some (ft, nodes)
      else recur ft sfr.sb_uuid (nodes ++ [sfr.sb_uuid])) = some (ft1, nodes1)) :
    FloodInv (fun _ => True) X ft1 ∧ (∀ d' ∈ X, ft1.desired.flow_heap d' = ft.desired.flow_heap d') ∧
      TraceStep t0 S0 P X ft nodes ft1 nodes1 ∧ ft1.desired.ref_heap r = some sfr ∧
      sfr.sb_uuid ∈ nodes1 := by
  have c1 : FloodInv (fun _ => True) X ft1 ∧
      (∀ d' ∈ X, ft1.desired.flow_heap d' = ft.desired.flow_heap d') ∧
      TraceStep t0 S0 P X ft nodes ft1 nodes1 ∧ sfr.sb_uuid ∈ nodes1 := by
    split at h1
    · cases h1; exact ⟨h, fun _ _ => rfl, .of_trace tr rfl, ‹_›⟩
    · rename_i hv
      have hreach := (tr.detached d hd).reach hg hr (tr.refs r sfr hsfr)
      obtain ⟨c1, f1⟩ := hrec X ft _ _ ft1 nodes1 h h1
      obtain ⟨s1, ⟨A, rfl⟩, hsub⟩ := htr P X ft _ _ ft1 nodes1 h (tr.visit hv hreach) h1
      exact ⟨c1, f1, ⟨s1, ⟨[sfr.sb_uuid] ++ A, by simp⟩, hsub⟩, by simp⟩
  obtain ⟨c1, f1, s1, hv⟩ := c1
  -- the node is still the flow's: the call left the detached flows as they were
  obtain ⟨s, hs, -⟩ := c1.1.flows.flow_ref d g ((f1 d hd).trans hg) r hr
  have := s1.trace.refs r s hs
  rw [tr.refs r sfr hsfr] at this; cases this
  exact ⟨c1, f1, s1, hs, hv⟩

theorem refsOf_drop (h : FloodInv (fun _ => True) X ft) (tr : FloodTrace t0 S0 P X ft nodes)
    {d r : Nat} {rs : List Nat} {g : DesiredFlow} (hd : d ∈ X) (hg : ft.desired.flow_heap d = some g)
    (hrs : g.references = r :: rs) {s : SbFlowRef} (hs : ft.desired.ref_heap r = some s)
    (hv : s.sb_uuid ∈ nodes) {t : OvnDesiredFlowTable} {d0 : Nat} {f0 : DesiredFlow}
    (hdrop : dropRef ft.desired r = some (t, d0, f0)) :
    FloodInv (fun _ => True) X { ft with desired := t } ∧
      TraceStep t0 S0 P X ft nodes { ft with desired := t } nodes ∧
      t.flow_heap d = some { g with references := rs } := by
  obtain ⟨s', g', hs', rfl, hg', rfl, -⟩ := dropRef_some hdrop
  rw [hs] at hs'; cases hs'
  obtain ⟨s2, hs2, hsd⟩ := h.1.flows.flow_ref d g hg r (by simp [hrs])
  rw [hs] at hs2; cases hs2
  subst hsd
  rw [hg] at hg'; cases hg'
  refine ⟨h.dropRef_detached floodStable_true hs hd hdrop,
    .of_trace (tr.dropRef hdrop hd fun s' hs' => by rw [hs] at hs'; cases hs'; exact hv)
      (dropRef_uuid hdrop), ?_⟩
  rw [dropRef_heap hdrop, hrs, List.erase_cons_head]

/-- The inner loop of the last loop, over the nodes of a detached flow `d`. -/
theorem floodRemoveRefsOf_trace (hrec : FloodContract (fun _ => True) recur)
    (htr : TraceContract t0 S0 recur) {d : Nat} (hd : d ∈ X) :
    ∀ (rs : List Nat) {P : List Uuid} {ft ft' : FlowTables} {nodes nodes' : List Uuid}
      {g : DesiredFlow}, FloodInv (fun _ => True) X ft → FloodTrace t0 S0 P X ft nodes →
      ft.desired.flow_heap d = some g → g.references = rs →
      floodRemoveRefsOf recur rs (ft, nodes) = some (ft', nodes') →
      TraceStep t0 S0 P X ft nodes ft' nodes'
  | [], P, ft, ft', nodes, nodes', g, _, tr, _, _, hl => by
    simp only [floodRemoveRefsOf, Option.some.injEq, Prod.mk.injEq] at hl
    obtain ⟨rfl, rfl⟩ := hl
    exact .of_trace tr rfl
  | r :: rs, P, ft, ft', nodes, nodes', g, h, tr, hg, hrs, hl => by
    simp only [floodRemoveRefsOf] at hl
    obtain ⟨sfr, hsfr, hl⟩ := Option.bind_eq_some.1 hl
    obtain ⟨⟨ft1, nodes1⟩, h1, hl⟩ := Option.bind_eq_some.1 hl
    obtain ⟨c1, f1, s1, hs1, hv1⟩ := refsOf_visit hrec htr h tr hd hg (by simp [hrs]) hsfr h1
    dsimp only at hl
    obtain ⟨⟨t, d0, f0⟩, hdrop, hl⟩ := Option.bind_eq_some.1 hl
    obtain ⟨c2, s2, hg2⟩ := refsOf_drop c1 s1.trace hd ((f1 d hd).trans hg) hrs hs1 hv1 hdrop
    exact s1.trans (s2.trans (floodRemoveRefsOf_trace hrec htr hd rs c2 s2.trace hg2 rfl hl))

/-- One turn of the last loop: once the nodes of `d` are freed, `d` is removed. -/
theorem removeEach_turn (hrec : FloodContract (fun _ => True) recur)
    (htr : TraceContract t0 S0 recur) {d : Nat} {rest : List Nat} {ft ft1 ft2 : FlowTables}
    {nodes nodes1 : List Uuid} {g0 g : DesiredFlow} (h : FloodInv (fun _ => True) (X ++ d :: rest) ft)
    (tr : FloodTrace t0 S0 P (X ++ d :: rest) ft nodes) (hnd : (d :: rest).Nodup)
    (hlive : ∀ d' ∈ d :: rest, d' ∉ X ∧ (ft.desired.flow_heap d').isSome)
    (hg0 : ft.desired.flow_heap d = some g0)
    (h1 : floodRemoveRefsOf recur g0.references (ft, nodes) = some (ft1, nodes1))
    (hg : ft1.desired.flow_heap d = some g)
    (hrm : removeDesired { ft1 with desired := ft1.desired.setFlow d (some { g with list_node := false }) }
      d { g with list_node := false } = some ft2) :
    FloodInv (fun _ => True) (X ++ rest) ft2 ∧ TraceStep t0 S0 P (X ++ rest) ft nodes ft2 nodes1 ∧
      ∀ d' ∈ rest, d' ∉ X ∧ (ft2.desired.flow_heap d').isSome := by
  have hdX : d ∈ X ++ d :: rest := by simp
  obtain ⟨c3, hnil, -, live⟩ := floodRemoveEach_turn floodStable_true hrec h hnd hlive hg0 h1 hg hrm
  have s1 := floodRemoveRefsOf_trace hrec htr hdX _ h tr hg0 rfl h1
  obtain ⟨-, -, -, e⟩ := removeDesired_desired hrm
  exact ⟨c3, s1.trans (.of_trace (s1.trace.remove hdX hg hnil (fun d' => by simp [or_left_comm])
      (by simp [(List.nodup_cons.1 hnd).1, (hlive d (List.mem_cons_self _ _)).1])
      (fun d' => by rw [removeDesired_heap hrm]; split_ifs with e' <;> simp [e'])
      (by rw [e]; rfl) (by rw [e]; rfl)) (by rw [e]; rfl)), live⟩

/-- The last loop, over `to_be_removed`: each flow's other uuids are flooded, then the flow
is removed. -/
theorem floodRemoveEach_trace (hrec : FloodContract (fun _ => True) recur)
    (htr : TraceContract t0 S0 recur) :
    ∀ (rest : List Nat) {X : List Nat} {ft ft' : FlowTables} {nodes nodes' : List Uuid},
      FloodInv (fun _ => True) (X ++ rest) ft → FloodTrace t0 S0 P (X ++ rest) ft nodes →
      rest.Nodup → (∀ d ∈ rest, d ∉ X ∧ (ft.desired.flow_heap d).isSome) →
      floodRemoveEach recur rest (ft, nodes) = some (ft', nodes') →
      TraceStep t0 S0 P X ft nodes ft' nodes'
  | [], X, ft, ft', nodes, nodes', _, tr, _, _, hl => by
    simp only [floodRemoveEach, Option.some.injEq, Prod.mk.injEq] at hl
    obtain ⟨rfl, rfl⟩ := hl
    exact .of_trace (by simpa using tr) rfl
  | d :: rest, X, ft, ft', nodes, nodes', h, tr, hnd, hlive, hl => by
    simp only [floodRemoveEach] at hl
    obtain ⟨g0, hg0, hl1⟩ := Option.bind_eq_some.1 hl
    obtain ⟨⟨ft1, nodes1⟩, h1, hl2⟩ := Option.bind_eq_some.1 hl1
    dsimp only at hl2
    obtain ⟨g, hg, hl3⟩ := Option.bind_eq_some.1 hl2
    obtain ⟨ft2, hrm, hl4⟩ := Option.bind_eq_some.1 hl3
    obtain ⟨c2, s2, live2⟩ := removeEach_turn hrec htr h tr hnd hlive hg0 h1 hg hrm
    exact s2.trans (floodRemoveEach_trace hrec htr rest c2 s2.trace (List.nodup_cons.1 hnd).2 live2 hl4)

theorem flood_call_started {u : Uuid} (h : FloodInv (fun _ => True) X ft)
    (tr : FloodTrace t0 S0 (u :: P) X ft nodes) {stf : SbToFlow}
    (hstf : sb_to_flow_find ft.desired.uuid_flow_table u = some stf) {ft1 ft2 : FlowTables}
    {tbr : List Nat} (h1 : stf.flows.foldlM floodFirstTurn (ft, []) = some (ft1, tbr))
    (h2 : tbr.foldlM floodDetach { ft1 with desired := { ft1.desired with
      uuid_flow_table := eraseEntry ft1.desired.uuid_flow_table u } } = some ft2) :
    FloodInv (fun _ => True) (X ++ tbr) ft2 ∧ TraceStep t0 S0 P (X ++ tbr) ft nodes ft2 nodes ∧
      tbr.Nodup ∧ ∀ d ∈ tbr, d ∉ X ∧ (ft2.desired.flow_heap d).isSome := by
  obtain ⟨hs, hu⟩ := sb_to_flow_find_some hstf
  obtain ⟨c1, c2, l, rfl, hl⟩ := flood_call_start floodStable_true h hstf h1 h2
  exact ⟨c2, ⟨tr.started c1 (flood_first_trace h tr hs hu h1) hl, ⟨[], by simp⟩,
    by rw [hl]; exact (List.eraseP_sublist _).map _⟩, c1.tbr_nodup, c1.tbr_live⟩

/-- Every depth of `flood_remove_flows_for_sb_uuid` keeps the trace contract. -/
theorem flood_trace_contract : ∀ fuel, TraceContract t0 S0 (flood_remove_flows_for_sb_uuid fuel)
  | 0 => by intro P X ft u nodes ft' nodes' _ _ hf; simp [flood_remove_flows_for_sb_uuid] at hf
  | fuel + 1 => by
    intro P X ft u nodes ft' nodes' h tr hf
    simp only [flood_remove_flows_for_sb_uuid, floodBody] at hf
    split at hf
    · rename_i hnone
      cases hf; exact .of_trace (tr.start_none h hnone) rfl
    rename_i stf hstf
    obtain ⟨⟨ft1, tbr⟩, h1, hf1⟩ := Option.bind_eq_some.1 hf
    dsimp only at hf1
    obtain ⟨ft2, h2, hf2⟩ := Option.bind_eq_some.1 hf1
    obtain ⟨c2, s2, hnd, hlive⟩ := flood_call_started h tr hstf h1 h2
    exact s2.trans (floodRemoveEach_trace (flood_contract floodStable_true fuel)
      (flood_trace_contract fuel) tbr c2 s2.trace hnd hlive hf2)


theorem FloodTrace.pending_congr {P' : List Uuid} (tr : FloodTrace t0 S0 P X ft nodes)
    (hP : ∀ v, v ∈ P' ↔ v ∈ P) : FloodTrace t0 S0 P' X ft nodes :=
  ⟨tr.nodup, tr.reach, tr.seeds, fun v hv => tr.pending v ((hP v).1 hv),
    fun v hv hn => tr.erased v hv fun hm => hn ((hP v).2 hm), tr.entries,
    fun v hv hn => tr.done v hv fun hm => hn ((hP v).2 hm), tr.gone, tr.kept, tr.refs,
    tr.detached⟩

theorem FloodTrace.at_visited (tr : FloodTrace t0 S0 P X ft nodes) {u : Uuid} (hu : u ∈ nodes) :
    FloodTrace t0 S0 (u :: P.filter (· ≠ u)) X ft nodes ∨
      (sb_to_flow_find ft.desired.uuid_flow_table u = none ∧
        FloodTrace t0 S0 (P.filter (· ≠ u)) X ft nodes) := by
  have hmem : ∀ v, v ∈ P.filter (· ≠ u) ↔ v ∈ P ∧ v ≠ u := fun v => by simp
  by_cases hP : u ∈ P
  · exact .inl (tr.pending_congr fun v => by by_cases e : v = u <;> simp [hmem, e, hP])
  · exact .inr ⟨by simpa [sb_to_flow_find, List.find?_eq_none] using tr.erased u hu hP,
      tr.pending_congr fun v => by
        rw [hmem]; exact ⟨And.left, fun hv => ⟨hv, fun e => hP (e ▸ hv)⟩⟩⟩

theorem floodWalk_turn (h : FloodInv (fun _ => True) [] ft) (tr : FloodTrace t0 S0 P [] ft nodes)
    {u : Uuid} (hu : u ∈ nodes) {depth : Nat} {ft' : FlowTables} {nodes' : List Uuid}
    (hf : flood_remove_flows_for_sb_uuid (depth + 1) ft u nodes = some (ft', nodes')) :
    TraceStep t0 S0 (P.filter (· ≠ u)) [] ft nodes ft' nodes' := by
  rcases tr.at_visited hu with tr' | ⟨hnone, tr'⟩
  · exact flood_trace_contract _ _ [] ft u nodes ft' nodes' h tr' hf
  · simp only [flood_remove_flows_for_sb_uuid, floodBody, hnone, Option.some.injEq,
      Prod.mk.injEq] at hf
    obtain ⟨rfl, rfl⟩ := hf
    exact .of_trace tr' rfl

end Trace

/-! ## The walk over `flood_remove_nodes`

HMAP_FOR_EACH follows the map as the calls leave it. While the map keeps its mask, the nodes
already there keep their order, and a seed after the current node stays after it; once it
grows, a seed can land before the current node and the walk never meets it. -/

theorem floodNodesMap_spec (nodes : List Uuid) :
    HmapOk uuid_hash (floodNodesMap nodes) ∧ (floodNodesMap nodes).buckets.flatten.Perm nodes :=
  hmapOfList_spec nodes

theorem floodNodesMap_cut {nodes : List Uuid} {u : Uuid} (hu : u ∈ nodes) :
    ∃ l1 l2, (floodNodesMap nodes).buckets.flatten = l1 ++ u :: l2 :=
  List.append_of_mem ((floodNodesMap_spec nodes).2.mem_iff.2 hu)

theorem floodNodesMap_append (l A : List Uuid) :
    (floodNodesMap l).mask ≤ (floodNodesMap (l ++ A)).mask ∧
      ((floodNodesMap (l ++ A)).mask = (floodNodesMap l).mask →
        (floodNodesMap l).buckets.flatten.Sublist (floodNodesMap (l ++ A)).buckets.flatten) :=
  hmapOfList_append l A

/-- `hmap_next` in the map of visited uuids is the uuid after it in the map's order. -/
theorem floodNodesMap_next {nodes : List Uuid} (hn : nodes.Nodup) {u : Uuid} {l1 l2 : List Uuid}
    (hx : (floodNodesMap nodes).buckets.flatten = l1 ++ u :: l2) :
    hmap_next uuid_hash (floodNodesMap nodes) u = l2.head? :=
  (floodNodesMap_spec nodes).1.hmap_next_eq ((floodNodesMap_spec nodes).2.nodup_iff.2 hn) hx

/-- Every uuid whose call has not started is `u` or after it in the map's order. -/
def WalkAhead (nodes : List Uuid) (u : Uuid) (P : List Uuid) : Prop :=
  ∃ l1 l2, (floodNodesMap nodes).buckets.flatten = l1 ++ u :: l2 ∧ ∀ p ∈ P, p = u ∨ p ∈ l2

section Walk

variable {t0 : OvnDesiredFlowTable} {S0 : List Uuid}

/-- The walk from `u` only adds uuids; and when the map keeps its mask, or no call but `u`'s
is still to start, every call that had not started is done at its end. -/
theorem floodWalk_trace (depth : Nat) : ∀ turns {P : List Uuid} {ft ft' : FlowTables}
    {nodes nodes' : List Uuid} {u : Uuid}, FloodInv (fun _ => True) [] ft →
    FloodTrace t0 S0 P [] ft nodes → u ∈ nodes →
    floodWalk (depth + 1) turns ft nodes u = some (ft', nodes') →
    ∃ A, nodes' = nodes ++ A ∧
      (((floodNodesMap nodes').mask = (floodNodesMap nodes).mask ∨ P.filter (· ≠ u) = []) →
        WalkAhead nodes u P → FloodTrace t0 S0 [] [] ft' nodes')
  | 0, _, _, _, _, _, _, _, _, _, hf => by simp [floodWalk] at hf
  | turns + 1, P, ft, ft', nodes, nodes', u, h, tr, hu, hf => by
    simp only [floodWalk] at hf
    obtain ⟨⟨ft1, nodes1⟩, h1, hf⟩ := Option.bind_eq_some.1 hf
    have s := floodWalk_turn h tr hu h1
    have c1 := (flood_contract floodStable_true _ [] ft u nodes ft1 nodes1 h h1).1
    obtain ⟨A1, rfl⟩ := s.grows
    obtain ⟨m1, m2, hm⟩ := floodNodesMap_cut (List.mem_append_left A1 hu)
    dsimp only at hf
    rw [floodNodesMap_next s.trace.nodup hm] at hf
    have hle := (floodNodesMap_append nodes A1).1
    -- the calls still to start are after `u` in the map after its call
    have ahead : ((floodNodesMap (nodes ++ A1)).mask = (floodNodesMap nodes).mask ∨
        P.filter (· ≠ u) = []) → WalkAhead nodes u P →
        ∀ p ∈ P.filter (· ≠ u), p ∈ m2 := by
      rintro (hmask | hnil) ⟨l1, l2, hl, hP⟩ p hp
      · rw [List.mem_filter, decide_eq_true_eq] at hp
        exact mem_of_cut_sublist (hl ▸ hm ▸ (floodNodesMap_append nodes A1).2 hmask)
          (hm ▸ (floodNodesMap_spec _).2.nodup_iff.2 s.trace.nodup)
          ((hP p hp.1).resolve_left hp.2)
      · exact absurd hp (hnil ▸ List.not_mem_nil p)
    cases m2 with
    | nil =>
      cases hf
      refine ⟨A1, rfl, fun hc hw => s.trace.pending_congr fun v => ?_⟩
      exact ⟨fun hv => absurd hv (List.not_mem_nil _),
        fun hv => absurd (ahead hc hw v hv) (List.not_mem_nil _)⟩
    | cons v m2 =>
      have hv : v ∈ nodes ++ A1 :=
        (floodNodesMap_spec _).2.subset (hm ▸ List.mem_append_right _ (by simp))
      obtain ⟨A2, rfl, hi⟩ := floodWalk_trace depth turns c1 s.trace hv hf
      refine ⟨A1 ++ A2, by simp, fun hc hw => ?_⟩
      have hle2 := (floodNodesMap_append (nodes ++ A1) A2).1
      -- the map after `u`'s call has the mask too
      have hc1 : (floodNodesMap (nodes ++ A1)).mask = (floodNodesMap nodes).mask ∨
          P.filter (· ≠ u) = [] := hc.imp_left fun _ => by omega
      exact hi (hc.imp (fun _ => by omega) fun hnil => by rw [hnil]; rfl)
        ⟨m1 ++ [u], m2, by simp [hm], fun p hp => List.mem_cons.1 (ahead hc1 hw p hp)⟩

end Walk

theorem floodTrace_init {ft : FlowTables} {S0 : List Uuid} (hS : S0.Nodup) :
    FloodTrace ft.desired S0 S0 [] ft S0 :=
  ⟨hS, fun _ h => .seed h, fun _ h => h, fun _ h => h, fun _ hv hP => absurd hv hP,
    fun _ hv _ => hv, fun _ hv hP => absurd hv hP, fun _ _ hg0 hd => (by rw [hg0] at hd; cases hd),
    fun _ _ _ h => h, fun _ _ h => h, fun _ h => absurd h (List.not_mem_nil _)⟩

/-- The flood of `ofctrl_flood_remove_flows` from a set of seeds ends with every seed's call
done, when the map of visited uuids ends with the mask it started with or there is one seed. -/
theorem floodRemoveFlows_trace {ft ft' : FlowTables} (hw : WellLinked ft.desired)
    {S0 nodes' : List Uuid} (hS : S0.Nodup) (hf : floodRemoveFlows ft S0 = some (ft', nodes'))
    (hm : (floodNodesMap nodes').mask = (floodNodesMap S0).mask ∨ S0.length ≤ 1) :
    FloodTrace ft.desired S0 [] [] ft' nodes' := by
  unfold floodRemoveFlows at hf
  have hperm := (floodNodesMap_spec S0).2
  rw [hmap_first_eq] at hf
  cases hF : (floodNodesMap S0).buckets.flatten with
  | nil =>
    rw [hF] at hperm
    obtain rfl := List.nil_perm.1 hperm
    simp only [hF, List.head?_nil, Option.some.injEq, Prod.mk.injEq] at hf
    obtain ⟨rfl, rfl⟩ := hf
    exact floodTrace_init hS
  | cons u l =>
    rw [hF] at hperm
    simp only [hF, List.head?_cons] at hf
    obtain ⟨A, rfl, hi⟩ := floodWalk_trace _ _ ⟨hw.1, hw.2, trivial⟩ (floodTrace_init hS)
      (hperm.subset (List.mem_cons_self u l)) hf
    refine hi (hm.imp_right fun h1 => ?_)
      ⟨[], l, hF, fun p hp => List.mem_cons.1 (hperm.symm.subset hp)⟩
    -- one seed: it is `u`
    have hl : l = [] := List.eq_nil_of_length_eq_zero (by simpa using hperm.length_eq.le.trans h1)
    subst hl
    exact List.filter_eq_nil_iff.2 fun p hp => by simp [List.mem_singleton.1 (hperm.symm.subset hp)]

/-- `ofctrl_flood_remove_flows` from a set of seeds `S0`, when the walk keeps the map's mask or
there is one seed: it destroys exactly the flows that link a uuid reached from `S0` through
shared flows, and unlinks them from the installed flows; every other flow stays as it was; the
reached uuids lose their entries; and `flood_remove_nodes` ends as the reached uuids, each
once. -/
theorem flood_closure_without_resize {e : Ofctrl} (h : Reachable e) {S0 : List Uuid}
    (hS : S0.Nodup) {e' : Ofctrl} {nodes : List Uuid}
    (hf : ofctrl_flood_remove_flows e S0 = some (e', nodes))
    (hm : (floodNodesMap nodes).mask = (floodNodesMap S0).mask ∨ S0.length ≤ 1) :
    (∀ d g, e.tables.desired.flow_heap d = some g →
      (∃ u, FloodReach e.tables.desired S0 u ∧ LinksTo e.tables.desired g u) →
      e'.tables.desired.flow_heap d = none ∧ d ∉ e'.tables.desired.match_flow_table ∧
        ∀ i f, e'.tables.installed.flow_heap i = some f →
          d ∉ f.desired_refs ∧ f.desired_flow ≠ some d) ∧
    (∀ d g, e.tables.desired.flow_heap d = some g →
      (∀ u, FloodReach e.tables.desired S0 u → ¬LinksTo e.tables.desired g u) →
      e'.tables.desired.flow_heap d = some g) ∧
    (∀ u, FloodReach e.tables.desired S0 u →
      u ∉ e'.tables.desired.uuid_flow_table.map (·.sb_uuid)) ∧
    nodes.Nodup ∧ ∀ u, u ∈ nodes ↔ FloodReach e.tables.desired S0 u := by
  have ht := reachable_tablesOk h
  obtain ⟨⟨ft', nodes⟩, hfl, he⟩ := Option.bind_eq_some.1 hf
  cases he
  have tr := floodRemoveFlows_trace ht.desired hS hfl hm
  obtain ⟨hw', hl'⟩ := floodRemoveFlows_inv floodStable_linksOk ht.desired ht.links hfl
  -- every reached uuid is visited: the visited ones are closed under shared flows
  have closed : ∀ u, FloodReach e.tables.desired S0 u → u ∈ nodes := by
    intro u hu
    induction hu with
    | seed hm => exact tr.seeds _ hm
    | share _ hg hlu hlv ih =>
      exact tr.gone _ _ hg ((tr.done _ ih (List.not_mem_nil _) _ _ hg hlu).resolve_right
        (List.not_mem_nil _)) _ hlv
  refine ⟨fun d g hg ⟨u, hu, hlu⟩ => ?_, fun d g hg hC => ?_,
    fun u hu => tr.erased u (closed u hu) (List.not_mem_nil _), tr.nodup,
    fun u => ⟨tr.reach u, closed u⟩⟩
  · have hd := (tr.done u (closed u hu) (List.not_mem_nil _) d g hg hlu).resolve_right
      (List.not_mem_nil _)
    have hnot : ∀ i f, ft'.installed.flow_heap i = some f → d ∉ f.desired_refs := by
      intro i f hi hm
      obtain ⟨g', hg', -⟩ := hl'.refs.refs_linked i f hi d hm
      rw [hd] at hg'; cases hg'
    refine ⟨hd, fun hm => by simpa [hd] using (hw'.1.flows.live d).2 hm, fun i f hi =>
      ⟨hnot i f hi,
        fun e => hnot i f hi (List.mem_of_mem_head? ((hl'.refs.primary i f hi) ▸ e))⟩⟩
  · rcases hd : ft'.desired.flow_heap d with _ | g'
    · -- a flow that is gone linked only visited uuids, and it links one
      obtain ⟨r, hr⟩ := List.exists_mem_of_ne_nil _ (ht.desired.2 d g hg (List.not_mem_nil _))
      obtain ⟨s, hs, -⟩ := ht.desired.1.flows.flow_ref d g hg r hr
      exact absurd ⟨r, hr, s, hs, rfl⟩
        (hC _ (tr.reach _ (tr.gone d g hg hd _ ⟨r, hr, s, hs, rfl⟩)))
    · have := tr.kept d g' (List.not_mem_nil _) hd
      rw [hg] at this; cases this; rfl

/-- Three flows of table 0: the first links uuids 1 and 2, the second 2 and 3, the third 4. -/
def floodChain : List Event :=
  [.desired (.add_or_append 0 100 7 ipMatch [1] 1), .desired (.add_or_append 0 100 7 ipMatch [1] 2),
   .desired (.add_or_append 0 101 7 ipMatch [1] 2), .desired (.add_or_append 0 101 7 ipMatch [1] 3),
   .desired (.add_or_append 0 102 7 ipMatch [1] 4)]

/-- From the seeds 1 and 4 the walk starts at 4, then floods 1, which reaches 2 through the
first flow and 3 through the second; the map keeps its four buckets, and every flow goes. -/
theorem flood_chain_closure :
    ∃ e, Reachable e ∧ (ofctrl_flood_remove_flows e [1, 4]).map (·.2) = some [1, 4, 2, 3] ∧
      (ofctrl_flood_remove_flows e [1, 4]).map (·.1.tables.desired.match_flow_table) = some [] ∧
      ∃ e' nodes, ofctrl_flood_remove_flows e [1, 4] = some (e', nodes) ∧
      ((floodNodesMap nodes).mask = (floodNodesMap [1, 4]).mask ∨ [1, 4].length ≤ 1) ∧
      (∀ d g, e.tables.desired.flow_heap d = some g →
        (∃ u, FloodReach e.tables.desired [1, 4] u ∧ LinksTo e.tables.desired g u) →
        e'.tables.desired.flow_heap d = none ∧ d ∉ e'.tables.desired.match_flow_table ∧
          ∀ i f, e'.tables.installed.flow_heap i = some f →
            d ∉ f.desired_refs ∧ f.desired_flow ≠ some d) ∧
      (∀ d g, e.tables.desired.flow_heap d = some g →
        (∀ u, FloodReach e.tables.desired [1, 4] u → ¬LinksTo e.tables.desired g u) →
        e'.tables.desired.flow_heap d = some g) ∧
      (∀ u, FloodReach e.tables.desired [1, 4] u →
        u ∉ e'.tables.desired.uuid_flow_table.map (·.sb_uuid)) ∧
      nodes.Nodup ∧ ∀ u, u ∈ nodes ↔ FloodReach e.tables.desired [1, 4] u :=
  have h := reachable_of_isSome floodChain (by decide)
  have hs : (ofctrl_flood_remove_flows _ [1, 4]).isSome := by decide
  ⟨_, h, by decide, by decide, _, _, (Option.some_get hs).symm, .inl (by decide),
    flood_closure_without_resize h (by decide) (Option.some_get hs).symm (.inl (by decide))⟩

/-- Seven uuids, 5 to 11, share one flow; uuid 2 has a flow of its own. -/
def floodResize : List Event :=
  [5, 6, 7, 8, 9, 10, 11].map (fun u => .desired (.add_or_append 0 100 7 ipMatch [1] u)) ++
    [.desired (.add_or_append 0 101 7 ipMatch [1] 2)]

/-- From the seeds 5 and 2, in a map of four buckets, the walk starts at 5. Its flood inserts
uuids 6 to 11; the sixth insert grows the map to eight buckets, where 2 lands in a bucket before
5's, so the walk goes on from 5 to 6 and 7 and ends. Seed 2 keeps its entry, and its flow 8, which
links it, survives. -/
theorem flood_skips_seed_on_resize :
    ∃ e, exec ofctrl_init floodResize = some e ∧
      ∃ g, e.tables.desired.flow_heap 8 = some g ∧ LinksTo e.tables.desired g 2 ∧
      ∃ e' nodes, ofctrl_flood_remove_flows e [5, 2] = some (e', nodes) ∧
        nodes = [5, 2, 6, 7, 8, 9, 10, 11] ∧ (floodNodesMap [5, 2]).mask = 3 ∧
        (floodNodesMap nodes).mask = 7 ∧ e'.tables.desired.flow_heap 8 = some g ∧
        e'.tables.desired.uuid_flow_table.map (·.sb_uuid) = [2] := by
  have k1 : (exec ofctrl_init floodResize).map (fun e =>
      ((e.tables.desired.flow_heap 8).map (·.references), e.tables.desired.ref_heap 9)) =
      some (some [9], some ⟨8, 2⟩) := by decide
  have k2 : (exec ofctrl_init floodResize).bind (fun e =>
      (ofctrl_flood_remove_flows e [5, 2]).map fun p => (p.2, (floodNodesMap p.2).mask,
        p.1.tables.desired.flow_heap 8 == e.tables.desired.flow_heap 8,
        p.1.tables.desired.uuid_flow_table.map (·.sb_uuid))) =
      some ([5, 2, 6, 7, 8, 9, 10, 11], 7, true, [2]) := by decide
  obtain ⟨e, he, k1⟩ := Option.map_eq_some'.1 k1
  rw [he, Option.some_bind] at k2
  simp only [Prod.mk.injEq] at k1
  obtain ⟨g, hg, hgr⟩ := Option.map_eq_some'.1 k1.1
  obtain ⟨⟨e', nodes⟩, hf, hp⟩ := Option.map_eq_some'.1 k2
  simp only [Prod.mk.injEq, beq_iff_eq] at hp
  obtain ⟨rfl, hmask, h8, hu⟩ := hp
  exact ⟨e, he, g, hg, ⟨9, by simp [hgr], _, k1.2, rfl⟩, e', _, hf, rfl, by decide, hmask,
    h8.trans hg, hu⟩

end OvnOfctrl
