-- The flood removal always completes on a table where no flow links one uuid twice. Each
-- nested call is for a uuid that a live node names and the map does not hold yet; that uuid
-- still has an entry, so the entries whose uuid is not visited drop at each level and one
-- level more than there are entries is enough. The walk ends too: each turn moves to a later
-- node of the map, or the map has gained a uuid. And no assert of the flood fails there.
import OvnOfctrl.FloodClosure
import OvnOfctrl.AddOrAppend

namespace OvnOfctrl

/-! ## Links to one uuid -/

/-- No flow of the table links one uuid twice. -/
def LinksOnce (t : OvnDesiredFlowTable) : Prop :=
  ∀ d ∈ t.match_flow_table, ∀ g ∈ t.flow_heap d, (linkUuids t g).Nodup

instance (t : OvnDesiredFlowTable) : Decidable (LinksOnce t) :=
  inferInstanceAs (Decidable (∀ d ∈ t.match_flow_table, ∀ g ∈ t.flow_heap d, (linkUuids t g).Nodup))

/-- Two live nodes of one flow that name one uuid are the same node. -/
def LinkedOnce (t : OvnDesiredFlowTable) : Prop :=
  ∀ d g, t.flow_heap d = some g → ∀ r ∈ g.references, ∀ r' ∈ g.references, ∀ s s',
    t.ref_heap r = some s → t.ref_heap r' = some s' → s.sb_uuid = s'.sb_uuid → r = r'

/-- Every node and every reference of `t` is one of `t0`. -/
def RefsWithin (t0 t : OvnDesiredFlowTable) : Prop :=
  (∀ d g, t.flow_heap d = some g → ∃ g0, t0.flow_heap d = some g0 ∧ g.references ⊆ g0.references) ∧
    ∀ r s, t.ref_heap r = some s → t0.ref_heap r = some s

/-- Flow `d` of `t` has no live node for `u`. -/
def NoLinkTo (t : OvnDesiredFlowTable) (u : Uuid) (d : Nat) : Prop :=
  ∀ g, t.flow_heap d = some g → ∀ r ∈ g.references, ∀ s, t.ref_heap r = some s → s.sb_uuid ≠ u

section Links

variable {t0 t t1 t2 : OvnDesiredFlowTable}

theorem eq_of_mem_filterMap_nodup {α β : Type} {f : α → Option β} {x : β} :
    ∀ {l : List α}, (l.filterMap f).Nodup → ∀ {a b}, a ∈ l → b ∈ l → f a = some x →
      f b = some x → a = b
  | [], _, _, _, ha, _, _, _ => absurd ha (List.not_mem_nil _)
  | c :: l, hn, a, b, ha, hb, fa, fb => by
    have tail := hn.sublist ((List.sublist_cons_self c l).filterMap f)
    have first : ∀ y ∈ l, f y = some x → f c ≠ some x := fun y hy fy fc => by
      rw [List.filterMap_cons_some fc] at hn
      exact (List.nodup_cons.1 hn).1 (List.mem_filterMap.2 ⟨y, hy, fy⟩)
    rcases List.mem_cons.1 ha with rfl | ha' <;> rcases List.mem_cons.1 hb with rfl | hb'
    · rfl
    · exact absurd fa (first b hb' fb)
    · exact absurd fb (first a ha' fa)
    · exact eq_of_mem_filterMap_nodup tail ha' hb' fa fb

theorem LinksOnce.linkedOnce (h : LinksOnce t) {X Y : List Nat} (hf : FlowLinks X Y t) :
    LinkedOnce t := fun d g hg r hr r' hr' s s' hs hs' e =>
  eq_of_mem_filterMap_nodup (h d ((hf.live d).1 (by simp [hg])) g hg) hr hr'
    (x := s.sb_uuid) (by simp [hs]) (by simp [hs', e])

theorem RefsWithin.refl (t : OvnDesiredFlowTable) : RefsWithin t t :=
  ⟨fun _ g hg => ⟨g, hg, List.Subset.refl _⟩, fun _ _ h => h⟩

theorem RefsWithin.trans (h1 : RefsWithin t0 t1) (h2 : RefsWithin t1 t2) : RefsWithin t0 t2 := by
  refine ⟨fun d g hg => ?_, fun r s hs => h1.2 r s (h2.2 r s hs)⟩
  obtain ⟨g1, hg1, s1⟩ := h2.1 d g hg
  obtain ⟨g0, hg0, s0⟩ := h1.1 d g1 hg1
  exact ⟨g0, hg0, s1.trans s0⟩

theorem LinkedOnce.mono (h : LinkedOnce t0) (hw : RefsWithin t0 t) : LinkedOnce t :=
  fun d g hg r hr r' hr' s s' hs hs' e =>
    let ⟨g0, hg0, hsub⟩ := hw.1 d g hg
    h d g0 hg0 r (hsub hr) r' (hsub hr') s s' (hw.2 r s hs) (hw.2 r' s' hs') e

theorem NoLinkTo.mono {u : Uuid} {d : Nat} (h : NoLinkTo t0 u d) (hw : RefsWithin t0 t) :
    NoLinkTo t u d := fun g hg r hr s hs =>
  let ⟨g0, hg0, hsub⟩ := hw.1 d g hg
  h g0 hg0 r (hsub hr) s (hw.2 r s hs)

theorem refsWithin_dropRef {r d : Nat} {f : DesiredFlow} (hd : dropRef t r = some (t1, d, f)) :
    RefsWithin t t1 := by
  refine ⟨fun d' g' hd' => ?_, fun r' s' hs' => ?_⟩
  · obtain ⟨s, g, -, rfl, hg, rfl, rfl⟩ := dropRef_some hd
    simp only [OvnDesiredFlowTable.setFlow_heap] at hd'
    split_ifs at hd' with e
    · cases hd'; exact ⟨g, e ▸ hg, List.erase_subset _ _⟩
    · exact ⟨g', hd', List.Subset.refl _⟩
  · by_cases e : r' = r
    · rw [e, dropRef_ref_self hd] at hs'; cases hs'
    · rwa [dropRef_ref_ne hd e] at hs'

theorem refsWithin_setFlow {d : Nat} {g : DesiredFlow} (g' : DesiredFlow)
    (hg : t.flow_heap d = some g) (hr : g'.references = g.references) : RefsWithin t (t.setFlow d (some g')) := by
  refine ⟨fun d' g'' hd' => ?_, fun _ _ h => h⟩
  simp only [OvnDesiredFlowTable.setFlow_heap] at hd'
  split_ifs at hd' with e
  · cases hd'; exact ⟨g, e ▸ hg, hr ▸ List.Subset.refl _⟩
  · exact ⟨g'', hd', List.Subset.refl _⟩

theorem refsWithin_removeDesired {ft ft' : FlowTables} {d : Nat} {f : DesiredFlow}
    (h : removeDesired ft d f = some ft') : RefsWithin ft.desired ft'.desired := by
  obtain ⟨-, -, -, e⟩ := removeDesired_desired h
  rw [e]
  refine ⟨fun d' g hd' => ⟨g, ?_, List.Subset.refl _⟩, fun _ _ h => h⟩
  simp only [Function.update_apply] at hd'
  split_ifs at hd'
  exact hd'

end Links

/-! ## The first loop and the detach loop -/

section Start

variable {X : List Nat} {uft : List SbToFlow} {ft0 ft : FlowTables}

theorem floodFirstTurn_refsWithin {ft' : FlowTables} {tbr tbr' : List Nat} {r : Nat}
    (hstep : floodFirstTurn (ft, tbr) r = some (ft', tbr')) :
    RefsWithin ft.desired ft'.desired := by
  obtain ⟨s, g, f, t1, -, -, -, rfl, hd, hcase⟩ := floodFirstTurn_cases hstep
  have h1 := refsWithin_dropRef hd
  rcases hcase with ⟨-, -, hrm⟩ | ⟨-, -, rfl⟩
  · exact h1.trans (refsWithin_removeDesired hrm)
  · exact h1.trans (refsWithin_setFlow _ (dropRef_heap hd) rfl)

/-- One turn of the first loop of the call for `u`, when no flow links a uuid twice: the flow of
the node is in no list, since a listed flow has lost its one node for `u`; the turn never aborts,
and a flow it lists has no node for `u` left. -/
theorem floodFirstTurn_exists {stf : SbToFlow} (hs : stf ∈ uft) {r : Nat} {rest tbr : List Nat}
    (h : FirstLoopInv LinksOk X uft stf.sb_uuid ft0 (r :: rest) ft tbr) (h1 : LinkedOnce ft.desired)
    (hn : ∀ d ∈ tbr, NoLinkTo ft.desired stf.sb_uuid d) :
    ∃ ft' tbr', floodFirstTurn (ft, tbr) r = some (ft', tbr') ∧
      ∀ d ∈ tbr', NoLinkTo ft'.desired stf.sb_uuid d := by
  obtain ⟨s, hs', hsu, hsX⟩ := h.linked.entries.entry_ref _
    (mem_withEntry_self (l := r :: rest) hs rfl) r (List.mem_cons_self _ _)
  obtain ⟨g, hg, hrg⟩ := h.linked.flows.ref_flow r s hs'
  have hdt : s.flow ∉ tbr := fun hm => hn _ hm g hg r hrg s hs' hsu
  have hln : g.list_node = false := by
    simpa [hsX, hdt] using (h.linked.flows.listed _ g hg).not
  obtain ⟨t1, hd⟩ := dropRef_live hs' hg
  have w1 := refsWithin_dropRef hd
  by_cases hnil : g.references.erase r = []
  · obtain ⟨ft2, hrm⟩ := removeDesired_exists (h.stable.keep (keepsLinks_dropRef hd))
      (dropRef_heap hd) hnil
    refine ⟨ft2, tbr, ?_, fun d hm => ?_⟩
    · simp only [floodFirstTurn, hd, Option.bind_eq_bind, Option.some_bind]
      rw [if_neg (by simp [hln]), if_pos hnil, hrm]
      rfl
    exact (hn d hm).mono (w1.trans (refsWithin_removeDesired hrm))
  · refine ⟨{ ft with desired := t1.setFlow s.flow (some { g with
      references := g.references.erase r, list_node := true }) }, tbr ++ [s.flow], ?_,
      fun d hm => ?_⟩
    · simp only [floodFirstTurn, hd, Option.bind_eq_bind, Option.some_bind]
      rw [if_neg (by simp [hln]), if_neg hnil]
    have w2 := w1.trans (refsWithin_setFlow { g with
      references := g.references.erase r, list_node := true } (dropRef_heap hd) rfl)
    rcases List.mem_append.1 hm with hm | hm
    · exact (hn d hm).mono w2
    -- the listed flow: its one node for `u` was `r`
    obtain rfl := List.mem_singleton.1 hm
    intro g' hg' r' hr' s' hs'' e
    simp only [OvnDesiredFlowTable.setFlow_heap, if_pos, Option.some.injEq] at hg'
    subst hg'
    have hr'g := List.mem_of_mem_erase hr'
    obtain rfl := h1 _ g hg r hrg r' hr'g s s' hs' (w2.2 r' s' hs'') (hsu.trans e.symm)
    exact (h.linked.flows.refs_nodup _ g hg).not_mem_erase hr'

theorem flood_first_loop_exists (h : FloodInv LinksOk X ft) (h1 : LinkedOnce ft.desired)
    {stf : SbToFlow} (hs : stf ∈ ft.desired.uuid_flow_table) :
    ∃ ft1 tbr, stf.flows.foldlM floodFirstTurn (ft, []) = some (ft1, tbr) := by
  obtain ⟨⟨ft1, tbr⟩, hl, -⟩ := foldlM_exists (fun rest (acc : FlowTables × List Nat) =>
      FirstLoopInv LinksOk X ft.desired.uuid_flow_table stf.sb_uuid ft rest acc.1 acc.2 ∧
        RefsWithin ft.desired acc.1.desired ∧
          ∀ d ∈ acc.2, NoLinkTo acc.1.desired stf.sb_uuid d)
    (fun r rest ⟨ft', tbr⟩ ⟨hi, hw, hn⟩ => by
      obtain ⟨ft2, tbr2, hstep, hn2⟩ := floodFirstTurn_exists hs hi (h1.mono hw) hn
      exact ⟨(ft2, tbr2), hstep, firstLoopInv_step floodStable_linksOk hs hi hstep,
        hw.trans (floodFirstTurn_refsWithin hstep), hn2⟩)
    (f := floodFirstTurn) (l := stf.flows) (b := (ft, []))
    ⟨firstLoopInv_init h hs, RefsWithin.refl _, by simp⟩
  exact ⟨ft1, tbr, hl⟩

theorem flood_detach_exists :
    ∀ (tbr : List Nat) (ft : FlowTables),
      (∀ d ∈ tbr, ∃ g, ft.desired.flow_heap d = some g ∧ g.references ≠ []) →
      ∃ ft', tbr.foldlM floodDetach ft = some ft'
  | [], ft, _ => ⟨ft, rfl⟩
  | d :: rest, ft, hl => by
    obtain ⟨g, hg, hr⟩ := hl d (List.mem_cons_self _ _)
    obtain ⟨ft', h'⟩ := flood_detach_exists rest { ft with desired := { ft.desired with
      uuid_flow_table := g.references.foldl detachRef ft.desired.uuid_flow_table } }
      fun d' hm => hl d' (List.mem_cons_of_mem _ hm)
    exact ⟨ft', by simp [floodDetach, hg, hr, h']⟩

end Start

/-! ## The depth of the recursion -/

/-- The entries of the uuid table whose uuid the flood has not visited. -/
def unvisited (ft : FlowTables) (nodes : List Uuid) : Nat :=
  (ft.desired.uuid_flow_table.map (·.sb_uuid)).countP (· ∉ nodes)

theorem unvisited_le_length (ft : FlowTables) (nodes : List Uuid) :
    unvisited ft nodes ≤ ft.desired.uuid_flow_table.length :=
  (List.countP_le_length _).trans (List.length_map _ _).le

theorem unvisited_mono {ft ft' : FlowTables} {nodes nodes' : List Uuid}
    (hsub : (ft'.desired.uuid_flow_table.map (·.sb_uuid)).Sublist
      (ft.desired.uuid_flow_table.map (·.sb_uuid)))
    (hn : ∀ v ∈ nodes, v ∈ nodes') : unvisited ft' nodes' ≤ unvisited ft nodes :=
  calc unvisited ft' nodes'
      ≤ (ft.desired.uuid_flow_table.map (·.sb_uuid)).countP (· ∉ nodes') := hsub.countP_le _
    _ ≤ unvisited ft nodes := List.countP_mono_left fun v _ h => by
        simp only [decide_eq_true_eq] at h ⊢
        exact fun hm => h (hn v hm)

theorem unvisited_visit {ft : FlowTables} {nodes : List Uuid} {v : Uuid}
    (hv : v ∈ ft.desired.uuid_flow_table.map (·.sb_uuid)) (hn : v ∉ nodes) :
    unvisited ft (nodes ++ [v]) < unvisited ft nodes := by
  unfold unvisited
  obtain ⟨s, t, e⟩ := List.append_of_mem hv
  have mono : ∀ l : List Uuid, l.countP (· ∉ nodes ++ [v]) ≤ l.countP (· ∉ nodes) :=
    fun l => List.countP_mono_left fun w _ h => by
      simp only [decide_eq_true_eq] at h ⊢
      exact fun hm => h (List.mem_append_left _ hm)
  have := mono s
  have := mono t
  rw [e, List.countP_append, List.countP_append, List.countP_cons, List.countP_cons,
    if_neg (by simp), if_pos (by simpa using hn)]
  omega

section Depth

variable {t0 : OvnDesiredFlowTable} {S0 P : List Uuid} {X : List Nat} {ft : FlowTables}
  {nodes : List Uuid}

theorem TraceStep.unvisited_le {ft' : FlowTables} {nodes' : List Uuid}
    (s : TraceStep t0 S0 P X ft nodes ft' nodes') :
    unvisited ft' nodes' ≤ unvisited ft nodes := by
  obtain ⟨-, ⟨A, rfl⟩, hsub⟩ := s
  exact unvisited_mono hsub fun v hv => List.mem_append_left _ hv

theorem FloodTrace.mem_uuids (ht0 : WellLinked t0) (tr : FloodTrace t0 S0 P X ft nodes) {r : Nat}
    {s : SbFlowRef} (hs : ft.desired.ref_heap r = some s) (hv : s.sb_uuid ∉ nodes) :
    s.sb_uuid ∈ ft.desired.uuid_flow_table.map (·.sb_uuid) := by
  obtain ⟨stf, hm, hsu, -⟩ := ht0.1.entries.ref_entry r s (tr.refs r s hs) (List.not_mem_nil _)
  exact tr.entries _ (List.mem_map.2 ⟨stf, hm, hsu⟩) hv

theorem FloodTrace.refsWithin (tr : FloodTrace t0 S0 P X ft nodes) : RefsWithin t0 ft.desired := by
  refine ⟨fun d g hg => ?_, tr.refs⟩
  by_cases hd : d ∈ X
  · obtain ⟨g', g0, hg', hg0, hsub, -⟩ := tr.detached d hd
    rw [hg] at hg'; cases hg'
    exact ⟨g0, hg0, hsub⟩
  · exact ⟨g, tr.kept d g hd hg, List.Subset.refl _⟩

theorem FloodReach.mem (ht0 : WellLinked t0) {v : Uuid} (h : FloodReach t0 S0 v) :
    v ∈ S0 ∨ v ∈ t0.uuid_flow_table.map (·.sb_uuid) := by
  cases h with
  | seed hm => exact .inl hm
  | share _ _ _ hlv =>
    obtain ⟨r, -, s, hs, rfl⟩ := hlv
    obtain ⟨stf, hm, hsu, -⟩ := ht0.1.entries.ref_entry r s hs (List.not_mem_nil _)
    exact .inr (List.mem_map.2 ⟨stf, hm, hsu⟩)

theorem FloodTrace.length_le (ht0 : WellLinked t0) (tr : FloodTrace t0 S0 P X ft nodes) :
    nodes.length ≤ S0.length + t0.uuid_flow_table.length := by
  have hsub : nodes ⊆ S0 ++ t0.uuid_flow_table.map (·.sb_uuid) := fun v hv =>
    List.mem_append.2 ((tr.reach v hv).mem ht0)
  simpa using (List.subperm_of_subset tr.nodup hsub).length_le

/-- A version of the recursive call that returns on every call a flood from `S0` over `t0`
makes with fewer than `B` unvisited entries. -/
def TotalBelow (t0 : OvnDesiredFlowTable) (S0 : List Uuid) (B : Nat)
    (recur : FlowTables → Uuid → List Uuid → FloodResult) : Prop :=
  ∀ P X ft u nodes, FloodInv LinksOk X ft → FloodTrace t0 S0 (u :: P) X ft nodes →
    unvisited ft nodes < B → ∃ r, recur ft u nodes = some r

theorem FloodInv.weaken {Q : FlowTables → Prop} (h : FloodInv Q X ft) :
    FloodInv (fun _ => True) X ft :=
  ⟨h.1, h.2.1, trivial⟩

variable {recur : FlowTables → Uuid → List Uuid → FloodResult} {B : Nat}
  (ht0 : WellLinked t0) (hrec : FloodContract (fun _ => True) recur)
  (hrecL : FloodContract LinksOk recur) (htr : TraceContract t0 S0 recur)
  (htot : TotalBelow t0 S0 B recur)
include ht0 hrec hrecL htr htot

/-- The inner loop of the last loop returns: each call it makes has fewer unvisited entries
than the loop starts with, and each node it frees is live. -/
theorem floodRemoveRefsOf_exists {d : Nat} (hd : d ∈ X) :
    ∀ (rs : List Nat) {P : List Uuid} {ft : FlowTables} {nodes : List Uuid} {g : DesiredFlow},
      FloodInv LinksOk X ft → FloodTrace t0 S0 P X ft nodes → unvisited ft nodes ≤ B →
      ft.desired.flow_heap d = some g → g.references = rs →
      ∃ res, floodRemoveRefsOf recur rs (ft, nodes) = some res
  | [], _, _, _, _, _, _, _, _, _ => ⟨_, rfl⟩
  | r :: rs, P, ft, nodes, g, h, tr, hB, hg, hrs => by
    have hr : r ∈ g.references := by simp [hrs]
    obtain ⟨sfr, hsfr, hsd⟩ := h.1.flows.flow_ref d g hg r hr
    obtain ⟨⟨ft1, nodes1⟩, h1⟩ : ∃ p, (if sfr.sb_uuid ∈ nodes then some (ft, nodes)
        else recur ft sfr.sb_uuid (nodes ++ [sfr.sb_uuid])) = some p := by
      split
      · exact ⟨_, rfl⟩
      · rename_i hv
        exact htot P X ft _ _ h (tr.visit hv ((tr.detached d hd).reach hg hr (tr.refs r sfr hsfr)))
          ((unvisited_visit (tr.mem_uuids ht0 hsfr hv) hv).trans_le hB)
    obtain ⟨c1, f1, s1, hs1, hv1⟩ := refsOf_visit hrec htr h.weaken tr hd hg hr hsfr h1
    have c1L : FloodInv LinksOk X ft1 := by
      split at h1
      · cases h1; exact h
      · exact (hrecL X ft _ _ ft1 nodes1 h h1).1
    have hg1 : ft1.desired.flow_heap sfr.flow = some g := hsd ▸ (f1 d hd).trans hg
    obtain ⟨t1, hdrop⟩ := dropRef_live hs1 hg1
    obtain ⟨c2, s2, hg2⟩ := refsOf_drop c1 s1.trace hd (hsd ▸ hg1) hrs hs1 hv1 hdrop
    obtain ⟨res, hres⟩ := floodRemoveRefsOf_exists hd rs
      (c1L.dropRef_detached floodStable_linksOk hs1 (hsd ▸ hd) hdrop) s2.trace
      ((s2.unvisited_le.trans s1.unvisited_le).trans hB) hg2 rfl
    exact ⟨res, by
      simp only [floodRemoveRefsOf, hsfr, Option.bind_eq_bind, Option.some_bind, h1, hdrop, hres]⟩

/-- The last loop returns: every flow it removes has lost all its nodes, and no flow it
removes links an installed flow it cannot unlink. -/
theorem floodRemoveEach_exists :
    ∀ (rest : List Nat) {X : List Nat} {ft : FlowTables} {nodes : List Uuid},
      FloodInv LinksOk (X ++ rest) ft → FloodTrace t0 S0 P (X ++ rest) ft nodes →
      unvisited ft nodes ≤ B → rest.Nodup →
      (∀ d ∈ rest, d ∉ X ∧ (ft.desired.flow_heap d).isSome) →
      ∃ res, floodRemoveEach recur rest (ft, nodes) = some res
  | [], _, _, _, _, _, _, _, _ => ⟨_, rfl⟩
  | d :: rest, X, ft, nodes, h, tr, hB, hnd, hlive => by
    obtain ⟨g0, hg0⟩ := Option.isSome_iff_exists.1 (hlive d (List.mem_cons_self _ _)).2
    have hdX : d ∈ X ++ d :: rest := by simp
    obtain ⟨⟨ft1, nodes1⟩, h1⟩ :=
      floodRemoveRefsOf_exists ht0 hrec hrecL htr htot hdX _ h tr hB hg0 rfl
    obtain ⟨c1, hd1, -⟩ := floodRemoveRefsOf_inv floodStable_linksOk hrecL hdX _ h hg0 rfl h1
    have e : installedLink { g0 with references := [], list_node := false } =
        installedLink { g0 with references := [] } := rfl
    obtain ⟨ft2, hrm⟩ := removeDesired_exists (d := d)
      (g := { g0 with references := [], list_node := false })
      (c1.2.2.keep (keepsLinks_setFlow hd1 e)) (by simp) rfl
    obtain ⟨c2, -, -, live2⟩ :=
      floodRemoveEach_turn floodStable_linksOk hrecL h hnd hlive hg0 h1 hd1 hrm
    obtain ⟨-, s2, -⟩ := removeEach_turn hrec htr h.weaken tr hnd hlive hg0 h1 hd1 hrm
    obtain ⟨res, hres⟩ := floodRemoveEach_exists rest c2 s2.trace (s2.unvisited_le.trans hB)
      (List.nodup_cons.1 hnd).2 live2
    exact ⟨res, by
      simp only [floodRemoveEach, hg0, Option.bind_eq_bind, Option.some_bind, h1, hd1, hrm, hres]⟩

/-- A call returns when its nested calls do: its first loop, its detach loop and its last
loop never abort on a table where no flow links a uuid twice. -/
theorem floodBody_exists (h0 : LinkedOnce t0) {u : Uuid} (h : FloodInv LinksOk X ft)
    (tr : FloodTrace t0 S0 (u :: P) X ft nodes) (hB : unvisited ft nodes ≤ B) :
    ∃ res, floodBody recur ft u nodes = some res := by
  unfold floodBody
  split
  · exact ⟨_, rfl⟩
  rename_i stf hstf
  have hs := (sb_to_flow_find_some hstf).1
  obtain ⟨ft1, tbr, h1⟩ := flood_first_loop_exists h (h0.mono tr.refsWithin) hs
  have c1 := flood_first_loop floodStable_linksOk h hs h1
  obtain ⟨ft2, h2⟩ := flood_detach_exists tbr { ft1 with desired := { ft1.desired with
      uuid_flow_table := eraseEntry ft1.desired.uuid_flow_table u } } fun d hd =>
    let ⟨hX, hl⟩ := c1.tbr_live d hd
    let ⟨g, hg⟩ := Option.isSome_iff_exists.1 hl
    ⟨g, hg, c1.referenced d g hg hX⟩
  obtain ⟨-, c2, -⟩ := flood_call_start floodStable_linksOk h hstf h1 h2
  obtain ⟨-, s2, hnd, hlive⟩ := flood_call_started h.weaken tr hstf h1 h2
  obtain ⟨res, hres⟩ := floodRemoveEach_exists ht0 hrec hrecL htr htot tbr c2 s2.trace
    (s2.unvisited_le.trans hB) hnd hlive
  exact ⟨res, by simp only [h1, h2, Option.bind_eq_bind, Option.some_bind, hres]⟩

end Depth

/-- With `n` levels, a call that starts with fewer than `n` unvisited entries returns. -/
theorem flood_total {t0 : OvnDesiredFlowTable} {S0 : List Uuid} (ht0 : WellLinked t0)
    (h0 : LinkedOnce t0) : ∀ n, TotalBelow t0 S0 n (flood_remove_flows_for_sb_uuid n)
  | 0 => fun _ _ _ _ _ _ _ hB => absurd hB (Nat.not_lt_zero _)
  | n + 1 => fun _ _ _ _ _ h tr hB =>
    floodBody_exists ht0 (flood_contract floodStable_true n) (flood_contract floodStable_linksOk n)
      (flood_trace_contract n) (flood_total ht0 h0 n) h0 h tr (Nat.lt_succ_iff.1 hB)

/-! ## The walk -/

section Walk

variable {t0 : OvnDesiredFlowTable} {S0 : List Uuid}

/-- The walk from `u` returns, for any `N` at least the number of seeds and entries. Its
measure: the nodes after `u` in the map's order, and, weighing more, the uuids the map can
still gain. -/
theorem floodWalk_exists (ht0 : WellLinked t0) (h0 : LinkedOnce t0) (N : Nat)
    (hN : S0.length + t0.uuid_flow_table.length ≤ N) :
    ∀ turns {P : List Uuid} {ft : FlowTables} {nodes : List Uuid} {u : Uuid} {l1 l2 : List Uuid},
      FloodInv LinksOk [] ft → FloodTrace t0 S0 P [] ft nodes →
      unvisited ft nodes ≤ t0.uuid_flow_table.length →
      (floodNodesMap nodes).buckets.flatten = l1 ++ u :: l2 →
      l2.length + (N + 1) * (N - nodes.length) < turns →
      ∃ res, floodWalk (t0.uuid_flow_table.length + 1) turns ft nodes u = some res
  | 0, _, _, _, _, _, _, _, _, _, _, hm => absurd hm (Nat.not_lt_zero _)
  | turns + 1, P, ft, nodes, u, l1, l2, h, tr, hB, hcut, hm => by
    have hu : u ∈ nodes := (floodNodesMap_spec nodes).2.subset
      (hcut ▸ List.mem_append_right _ (List.mem_cons_self _ _))
    -- the call for `u` returns: it has not started, or `u` has no entry left
    obtain ⟨⟨ft1, nodes1⟩, h1⟩ : ∃ p, flood_remove_flows_for_sb_uuid
        (t0.uuid_flow_table.length + 1) ft u nodes = some p := by
      rcases tr.at_visited hu with tr' | ⟨hnone, -⟩
      · exact flood_total ht0 h0 _ _ [] ft u nodes h tr' (Nat.lt_succ_of_le hB)
      · exact ⟨(ft, nodes), by simp [flood_remove_flows_for_sb_uuid, floodBody, hnone]⟩
    have s := floodWalk_turn h.weaken tr hu h1
    have c1 := (flood_contract floodStable_linksOk _ [] ft u nodes ft1 nodes1 h h1).1
    obtain ⟨A1, rfl⟩ := s.grows
    obtain ⟨m1, m2, hm1⟩ := floodNodesMap_cut (List.mem_append_left A1 hu)
    have hnext := floodNodesMap_next s.trace.nodup hm1
    cases m2 with
    | nil =>
      exact ⟨(ft1, nodes ++ A1), by simp only [floodWalk, h1, Option.bind_eq_bind,
        Option.some_bind, hnext, List.head?_nil]⟩
    | cons v m2 =>
      -- the measure drops: `v` is the node after `u`, or the map has gained a uuid
      have hlen := (s.trace.length_le ht0).trans hN
      have hperm := (floodNodesMap_spec (nodes ++ A1)).2.length_eq
      rw [hm1] at hperm
      simp only [List.length_append, List.length_cons] at hperm hlen
      have hnew : m2.length + (N + 1) * (N - (nodes ++ A1).length) < turns := by
        rw [List.length_append]
        rcases eq_or_ne A1 [] with rfl | hA
        · simp only [List.append_nil] at hm1
          have hn := (floodNodesMap_spec nodes).2.nodup_iff.2 tr.nodup
          rw [hcut] at hn
          obtain rfl := eq_of_cut hn (hcut.symm.trans hm1)
          simp only [List.length_cons, List.length_nil, Nat.add_zero] at hm ⊢
          omega
        · have hA1 : 0 < A1.length := List.length_pos.2 hA
          have key := Nat.mul_le_mul_left (N + 1)
            (show N - (nodes.length + A1.length) + 1 ≤ N - nodes.length by omega)
          rw [Nat.mul_succ] at key
          omega
      obtain ⟨res, hres⟩ := floodWalk_exists ht0 h0 N hN turns c1 s.trace
        (s.unvisited_le.trans hB)
        (show _ = (m1 ++ [u]) ++ v :: m2 by rw [hm1]; simp) hnew
      exact ⟨res, by simp only [floodWalk, h1, Option.bind_eq_bind, Option.some_bind, hnext,
        List.head?_cons, hres]⟩

end Walk

/-- The flood of `ofctrl_flood_remove_flows` returns on tables where no flow links a uuid
twice, for any set of seeds. -/
theorem floodRemoveFlows_exists {ft : FlowTables} (hw : WellLinked ft.desired) (hl : LinksOk ft)
    (h1 : LinksOnce ft.desired) {S0 : List Uuid} (hS : S0.Nodup) :
    ∃ res, floodRemoveFlows ft S0 = some res := by
  unfold floodRemoveFlows
  rw [hmap_first_eq]
  have hperm := (floodNodesMap_spec S0).2
  cases hF : (floodNodesMap S0).buckets.flatten with
  | nil => exact ⟨(ft, S0), by simp only [List.head?_nil]⟩
  | cons u l =>
    rw [hF] at hperm
    have hlen : l.length + 1 = S0.length := by simpa using hperm.length_eq
    simp only [List.head?_cons]
    refine floodWalk_exists hw (h1.linkedOnce hw.1.flows) _ le_rfl _ ⟨hw.1, hw.2, hl⟩
      (floodTrace_init hS) (unvisited_le_length _ _) (show _ = [] ++ u :: l from hF) ?_
    rw [show S0.length + ft.desired.uuid_flow_table.length - S0.length =
      ft.desired.uuid_flow_table.length by omega, Nat.mul_succ]
    omega

end OvnOfctrl
