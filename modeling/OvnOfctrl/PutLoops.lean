-- The two loops of `ofctrl_put`. The first unlinks every installed flow and deletes it or
-- brings it to the desired flow of its key; the second adds the desired flows with no
-- installed flow and links each desired flow to the installed flow of its key. Neither
-- stops on an assert, both keep the links, and at the end the installed table agrees with
-- the desired table and the flow_mods sent bring the switch from the old installed table to
-- the new one.
import OvnOfctrl.TableOps
import OvnOfctrl.Switch
import OvnOfctrl.Put

namespace OvnOfctrl

variable {ft : FlowTables} {it : InstalledTable} {i d : Nat} {f : InstalledFlow} {g : DesiredFlow}

/-! ## Lookups -/

theorem installed_flow_lookup_some {target : OvnFlow} (h : installed_flow_lookup it target = some i) :
    ∃ f, it.flow_heap i = some f ∧ f.flow.key = target.key := by
  have hp := List.find?_some h
  cases hf : it.flow_heap i with
  | none => simp [hf] at hp
  | some f =>
    simp only [hf, Bool.and_eq_true, beq_iff_eq] at hp
    exact ⟨f, rfl, hp.2⟩

theorem installed_flow_lookup_none (hi : InstalledOk it) {target : OvnFlow} (ht : target.HashOk)
    (h : installed_flow_lookup it target = none) :
    ∀ j f, it.flow_heap j = some f → f.flow.key ≠ target.key := by
  intro j f hf hk
  have hm : j ∈ it.installed_flows := (hi.live j).1 (by simp [hf])
  have := List.find?_eq_none.1 h j hm
  simp [hf, hk, hash_eq_of_key_eq (hi.hash_ok j f hf) ht hk] at this

/-! ## Editing installed flows -/

/-- What the links see of an installed flow. -/
def linkView (f : InstalledFlow) : List Nat × Option Nat × FlowKey :=
  (f.desired_refs, f.desired_flow, f.flow.key)

/-- The links only read the list, the primary and the key of each installed flow. -/
theorem RefsOk.of_linkView (h : RefsOk ft) {it' : InstalledTable}
    (hv : ∀ j, (it'.flow_heap j).map linkView = (ft.installed.flow_heap j).map linkView) :
    RefsOk { ft with installed := it' } := by
  have back : ∀ {j f'}, it'.flow_heap j = some f' → ∃ f, ft.installed.flow_heap j = some f ∧
      linkView f' = linkView f := by
    intro j f' hj
    have := hv j
    rw [hj, Option.map_some'] at this
    obtain ⟨f, hf, e⟩ := Option.map_eq_some'.1 this.symm
    exact ⟨f, hf, e.symm⟩
  refine ⟨fun j f' hj => ?_, fun j f' hj => ?_, fun j f' hj d' hd' => ?_, fun d' g' j hg hj => ?_⟩
  · obtain ⟨f, hf, e⟩ := back hj
    simp only [linkView, Prod.mk.injEq] at e
    rw [e.1, e.2.1]; exact h.primary j f hf
  · obtain ⟨f, hf, e⟩ := back hj
    simp only [linkView, Prod.mk.injEq] at e
    rw [e.1]; exact h.refs_nodup j f hf
  · obtain ⟨f, hf, e⟩ := back hj
    simp only [linkView, Prod.mk.injEq] at e
    rw [e.2.2]; exact h.refs_linked j f hf d' (e.1 ▸ hd')
  · obtain ⟨f, hf, hm⟩ := h.linked_refs d' g' j hg hj
    have := hv j
    rw [hf, Option.map_some'] at this
    obtain ⟨f', hf', e⟩ := Option.map_eq_some'.1 this
    simp only [linkView, Prod.mk.injEq] at e
    exact ⟨f', hf', e.1 ▸ hm⟩

theorem InstalledOk.setFlow_same (h : InstalledOk it) {f' : InstalledFlow}
    (hf : it.flow_heap i = some f) (e : installedKey f' = installedKey f) :
    InstalledOk (it.setFlow i (some f')) :=
  h.of_keys rfl rfl fun j => by
    by_cases ej : j = i
    · subst ej; simp [hf, e]
    · simp [ej]

theorem InstalledOk.erase_destroy (h : InstalledOk it) (hf : it.flow_heap i = some f) :
    InstalledOk ({ it with installed_flows := it.installed_flows.erase i }.setFlow i none) := by
  refine ⟨h.list_nodup.erase i, fun j => ?_, fun j k f1 g1 hj hk => ?_, fun j f1 hj => ?_,
    fun n hn => ?_⟩
  · by_cases e : j = i
    · subst e; simp [h.list_nodup.not_mem_erase]
    · simp [e, h.live j, List.mem_erase_of_ne e]
  · simp only [InstalledTable.setFlow_heap] at hj hk
    split_ifs at hj hk
    exact h.key_unique j k f1 g1 hj hk
  · simp only [InstalledTable.setFlow_heap] at hj
    split_ifs at hj
    exact h.hash_ok j f1 hj
  · simp [Function.update_apply, h.fresh n hn]

/-- A new installed flow at the next address, for a key no installed flow has. -/
theorem InstalledOk.insert (h : InstalledOk it) {f : InstalledFlow}
    (hk : ∀ j g, it.flow_heap j = some g → g.flow.key ≠ f.flow.key) (hh : f.flow.HashOk) :
    InstalledOk { it with
      flow_heap := Function.update it.flow_heap it.next_id (some f),
      installed_flows := it.next_id :: it.installed_flows, next_id := it.next_id + 1 } := by
  have hn := h.fresh it.next_id le_rfl
  have heap : ∀ {j g}, Function.update it.flow_heap it.next_id (some f) j = some g →
      j = it.next_id ∧ g = f ∨ j ≠ it.next_id ∧ it.flow_heap j = some g := by
    intro j g hj
    simp only [Function.update_apply] at hj
    split_ifs at hj with e
    · exact .inl ⟨e, (Option.some.inj hj).symm⟩
    · exact .inr ⟨e, hj⟩
  refine ⟨List.nodup_cons.2 ⟨fun hm => by simpa [hn] using (h.live _).2 hm, h.list_nodup⟩,
    fun j => ?_, fun j k f1 g1 hj hk' e => ?_, fun j f1 hj => ?_, fun n hn' => ?_⟩
  · by_cases e : j = it.next_id
    · subst e; simp
    · simp [Function.update_apply, e, h.live j]
  · rcases heap hj with ⟨ej, ef⟩ | ⟨-, hj1⟩ <;> rcases heap hk' with ⟨ek, eg⟩ | ⟨-, hk1⟩
    · exact ej.trans ek.symm
    · subst ef; exact absurd e.symm (hk k g1 hk1)
    · subst eg; exact absurd e (hk j f1 hj1)
    · exact h.key_unique j k f1 g1 hj1 hk1 e
  · rcases heap hj with ⟨-, rfl⟩ | ⟨-, hj⟩
    · exact hh
    · exact h.hash_ok j f1 hj
  · simp only at hn'
    simp [Function.update_apply, show n ≠ it.next_id by omega, h.fresh n (by omega)]

/-- A new installed flow, linked to nothing, keeps the links. -/
theorem RefsOk.insert (h : RefsOk ft) (hn : ft.installed.flow_heap n = none) {f : InstalledFlow}
    (hr : f.desired_refs = []) (hp : f.desired_flow = none) (l : List Nat) (m : Nat) :
    RefsOk { ft with installed := { ft.installed with
      flow_heap := Function.update ft.installed.flow_heap n (some f), installed_flows := l,
      next_id := m } } := by
  have heap : ∀ {j f'}, Function.update ft.installed.flow_heap n (some f) j = some f' →
      j = n ∧ f' = f ∨ j ≠ n ∧ ft.installed.flow_heap j = some f' := by
    intro j f' hj
    simp only [Function.update_apply] at hj
    split_ifs at hj with e
    · exact .inl ⟨e, (Option.some.inj hj).symm⟩
    · exact .inr ⟨e, hj⟩
  refine ⟨fun j f' hj => ?_, fun j f' hj => ?_, fun j f' hj d' hd' => ?_, fun d' g' j hg hj => ?_⟩
  · rcases heap hj with ⟨-, rfl⟩ | ⟨-, hj⟩
    · simp [hr, hp]
    · exact h.primary j f' hj
  · rcases heap hj with ⟨-, rfl⟩ | ⟨-, hj⟩
    · simp [hr]
    · exact h.refs_nodup j f' hj
  · rcases heap hj with ⟨-, rfl⟩ | ⟨-, hj⟩
    · simp [hr] at hd'
    · exact h.refs_linked j f' hj d' hd'
  · obtain ⟨f', hf', hm⟩ := h.linked_refs d' g' j hg hj
    have ne : j ≠ n := by rintro rfl; rw [hn] at hf'; cases hf'
    exact ⟨f', by simp [Function.update_apply, ne, hf'], hm⟩

/-! ## Linking -/

section Link

theorem link_installed_to_desired_primary (hf : ft.installed.flow_heap i = some f)
    (hp : f.desired_flow = some d) : link_installed_to_desired ft i d = some ft := by
  simp [link_installed_to_desired, hf, hp]

/-- A desired flow linked to nothing joins the end of `i`'s list, and is the primary when
the list was empty. -/
theorem link_installed_to_desired_unlinked (h : RefsOk ft) (hf : ft.installed.flow_heap i = some f)
    (hg : ft.desired.flow_heap d = some g) (hd : g.installed_flow = none) :
    link_installed_to_desired ft i d = some
      { desired := ft.desired.setFlow d (some { g with installed_flow := some i }),
        installed := ft.installed.setFlow i (some { f with
          desired_refs := f.desired_refs ++ [d], desired_flow := (f.desired_refs ++ [d]).head? }) } := by
  have hp := h.primary i f hf
  have hnp : f.desired_flow ≠ some d := by
    intro e
    obtain ⟨g', hg', hi, -⟩ := h.refs_linked i f hf d (List.mem_of_mem_head? (hp ▸ e))
    rw [hg] at hg'; cases hg'; simp [hd] at hi
  have hm : ft.desired.modifyFlow d ({ · with installed_flow := some i }) =
      ft.desired.setFlow d (some { g with installed_flow := some i }) := by
    simp [OvnDesiredFlowTable.modifyFlow, hg]
  cases hr : f.desired_refs with
  | nil => simp [link_installed_to_desired, hf, hnp, hp, hr, hm]
  | cons a l =>
    simp only [hr, List.cons_append, List.head?_cons] at hp ⊢
    have had : a ≠ d := fun e => hnp (hp.trans (congrArg some e))
    simp [link_installed_to_desired, hf, hnp, hp, hr, hm, had]

theorem RefsOk.not_mem_of_unlinked (h : RefsOk ft) (hf : ft.installed.flow_heap i = some f)
    (hg : ft.desired.flow_heap d = some g) (hd : g.installed_flow = none) : d ∉ f.desired_refs := by
  intro hm
  obtain ⟨g', hg', hi, -⟩ := h.refs_linked i f hf d hm
  rw [hg] at hg'; cases hg'; simp [hd] at hi

/-- The link of a desired flow linked to nothing to the installed flow of its key keeps
the links. -/
theorem linksOk_link (h : LinksOk ft) (hf : ft.installed.flow_heap i = some f)
    (hg : ft.desired.flow_heap d = some g) (hd : g.installed_flow = none)
    (hk : g.flow.key = f.flow.key) :
    LinksOk
      { desired := ft.desired.setFlow d (some { g with installed_flow := some i }),
        installed := ft.installed.setFlow i (some { f with
          desired_refs := f.desired_refs ++ [d], desired_flow := (f.desired_refs ++ [d]).head? }) } := by
  have hdn := h.refs.not_mem_of_unlinked hf hg hd
  -- a flow of a list is linked, so it is not `d`
  have ne : ∀ {j f' d'}, ft.installed.flow_heap j = some f' → d' ∈ f'.desired_refs → d' ≠ d := by
    rintro j f' d' hj hm rfl
    exact h.refs.not_mem_of_unlinked hj hg hd hm
  refine ⟨h.installed.setFlow_same hf rfl, fun j f' hj => ?_, fun j f' hj => ?_,
    fun j f' hj d' hd' => ?_, fun d' g' j hg' hj => ?_⟩
  · simp only [InstalledTable.setFlow_heap] at hj
    split_ifs at hj
    · cases hj; rfl
    · exact h.refs.primary j f' hj
  · simp only [InstalledTable.setFlow_heap] at hj
    split_ifs at hj
    · cases hj
      exact (h.refs.refs_nodup i f hf).append (List.nodup_singleton d)
        (List.disjoint_singleton.2 hdn)
    · exact h.refs.refs_nodup j f' hj
  · simp only [InstalledTable.setFlow_heap] at hj
    split_ifs at hj with ej
    · cases hj; subst ej
      rcases List.mem_append.1 hd' with hm | hm
      · obtain ⟨g', hg', hi, hk'⟩ := h.refs.refs_linked j f hf d' hm
        exact ⟨g', by simp [ne hf hm, hg'], hi, hk'⟩
      · obtain rfl := List.mem_singleton.1 hm
        exact ⟨{ g with installed_flow := some j }, by simp, rfl, hk⟩
    · obtain ⟨g', hg', hi, hk'⟩ := h.refs.refs_linked j f' hj d' hd'
      exact ⟨g', by simp [ne hj hd', hg'], hi, hk'⟩
  · simp only [OvnDesiredFlowTable.setFlow_heap] at hg'
    split_ifs at hg' with e
    · cases hg'; cases hj
      exact ⟨{ f with
        desired_refs := f.desired_refs ++ [d], desired_flow := (f.desired_refs ++ [d]).head? },
        by simp, by simp [e]⟩
    · obtain ⟨f', hf', hm⟩ := h.refs.linked_refs d' g' j hg' hj
      by_cases ej : j = i
      · subst ej; rw [hf] at hf'; cases hf'
        exact ⟨{ f with
          desired_refs := f.desired_refs ++ [d], desired_flow := (f.desired_refs ++ [d]).head? },
          by simp, List.mem_append_left _ hm⟩
      · exact ⟨f', by simp [ej, hf'], hm⟩

theorem unlinked_setFlow {t : OvnDesiredFlowTable} (hg : t.flow_heap d = some g) (x : Option Nat) :
    (t.setFlow d (some { g with installed_flow := x })).unlinked = t.unlinked := by
  simp only [OvnDesiredFlowTable.unlinked, OvnDesiredFlowTable.setFlow]
  congr 1; funext d'
  by_cases e : d' = d
  · subst e; simp [hg]
  · simp [Function.update_apply, e]

theorem LinksOk.unlinked_of_key (h : LinksOk ft) (hf : ft.installed.flow_heap i = some f)
    (hr : f.desired_refs = []) (hg : ft.desired.flow_heap d = some g)
    (hk : g.flow.key = f.flow.key) : g.installed_flow = none := by
  cases hj : g.installed_flow with
  | none => rfl
  | some j =>
    obtain ⟨f', hf', hm⟩ := h.refs.linked_refs d g j hg hj
    obtain ⟨g', hg', -, hk'⟩ := h.refs.refs_linked j f' hf' d hm
    rw [hg] at hg'; cases hg'
    obtain rfl := h.installed.key_unique j i f' f hf' hf (hk'.symm.trans hk)
    rw [hf] at hf'; cases hf'
    simp [hr] at hm

end Link

/-! ## The loop over installed flows -/

section InstalledLoop

variable {ft0 : FlowTables} {rest : List Nat} {msgs : List OfpMsg}

/-- The invariant of the loop of `ofctrl_put` over installed flows, started from `ft0`,
with `rest` still to come. Each flow done is linked to one desired flow, which has its
actions and cookie; the flow_mods sent bring a switch that mirrored `ft0` to the installed
table. A turn keeps it with its flow still counted as to come until the turn ends. -/
structure InstalledLoopInv (ft0 : FlowTables) (rest : List Nat)
    (acc : FlowTables × List OfpMsg) : Prop where
  links : LinksOk acc.1
  frame : acc.1.desired.unlinked = ft0.desired.unlinked
  pending : ∀ i ∈ rest, i ∈ acc.1.installed.installed_flows
  rest_nodup : rest.Nodup
  done : ∀ j f, acc.1.installed.flow_heap j = some f → j ∉ rest → ∃ d g,
    f.desired_refs = [d] ∧ ft0.desired.flow_heap d = some g ∧
    g.flow.ofpacts = f.flow.ofpacts ∧ g.flow.cookie = f.flow.cookie
  mirror : ∀ T, Mirrors T ft0.installed → Mirrors (applyMsgs T acc.2) acc.1.installed

theorem installedLoopInv_init (h : LinksOk ft0) :
    InstalledLoopInv ft0 ft0.installed.installed_flows (ft0, []) :=
  ⟨h, rfl, fun _ => id, h.installed.list_nodup,
    fun j f hj hn => absurd ((h.installed.live j).1 (Option.isSome_iff_exists.2 ⟨f, hj⟩)) hn,
    fun _ hT => hT⟩

theorem InstalledLoopInv.done_setFlow (inv : InstalledLoopInv ft0 (i :: rest) (ft, msgs))
    {f' : InstalledFlow} {j : Nat} {f1 : InstalledFlow}
    (hj : (ft.installed.setFlow i (some f')).flow_heap j = some f1) (hn : j ∉ rest) (ne : j ≠ i) :
    ∃ d g, f1.desired_refs = [d] ∧ ft0.desired.flow_heap d = some g ∧
      g.flow.ofpacts = f1.flow.ofpacts ∧ g.flow.cookie = f1.flow.cookie := by
  simp only [InstalledTable.setFlow_heap, ne, if_false] at hj
  exact inv.done j f1 hj (by simp [ne, hn])

/-- A turn first unlinks the installed flow from all its desired flows. -/
theorem InstalledLoopInv.unlink (inv : InstalledLoopInv ft0 (i :: rest) (ft, msgs)) :
    ∃ (f : InstalledFlow) (ft1 : FlowTables), unlink_all_refs_for_installed_flow ft i = some ft1 ∧
      ft1.installed.flow_heap i = some { f with desired_refs := [], desired_flow := none } ∧
      InstalledLoopInv ft0 (i :: rest) (ft1, msgs) := by
  obtain ⟨f, hf⟩ : ∃ f, ft.installed.flow_heap i = some f := Option.isSome_iff_exists.1
    ((inv.links.installed.live i).2 (inv.pending i (List.mem_cons_self _ _)))
  obtain ⟨ft1, hu, r1, e1, u1⟩ := unlink_all_spec inv.links.refs hf
  refine ⟨f, ft1, hu, by rw [e1]; simp, ⟨⟨e1 ▸ inv.links.installed.setFlow_same hf rfl, r1⟩,
    u1.trans inv.frame, fun j hj => by rw [e1]; exact inv.pending j hj, inv.rest_nodup,
    fun j f1 hj hn => ?_, fun T hT => ?_⟩⟩
  · have ne : j ≠ i := fun e => hn (e ▸ List.mem_cons_self _ _)
    rw [e1] at hj
    simp only [InstalledTable.setFlow_heap, ne, if_false] at hj
    exact inv.done j f1 hj hn
  · rw [e1]
    refine (inv.mirror T hT).congr fun j => ?_
    by_cases ej : j = i
    · subst ej; simp [hf, mirrorData]
    · simp [ej]

theorem applyFlowMod_installed_flow_mod {T : SwitchTable} {fi fd : OvnFlow}
    (hT : T fi.key = some (fi.ofpacts, fi.cookie)) :
    applyFlowMod T (installed_flow_mod fi fd).1 =
      Function.update T fi.key (some (fd.ofpacts, fd.cookie)) := by
  simp only [installed_flow_mod]
  split_ifs with hc
  · rfl
  · rw [not_not] at hc
    simp [applyFlowMod, hT, hc]

/-- The flow, unlinked, takes the actions and cookie of a desired flow. -/
theorem InstalledLoopInv.update (inv : InstalledLoopInv ft0 (i :: rest) (ft, msgs))
    (hf : ft.installed.flow_heap i = some f) (fd : OvnFlow) :
    InstalledLoopInv ft0 (i :: rest)
      ({ ft with installed := ft.installed.setFlow i (some { f with flow := (installed_flow_mod f.flow fd).2 }) },
       msgs ++ [.flowMod (installed_flow_mod f.flow fd).1]) := by
  refine ⟨⟨inv.links.installed.setFlow_same hf rfl, inv.links.refs.of_linkView fun j => ?_⟩,
    inv.frame, inv.pending, inv.rest_nodup, fun j f1 hj hn => ?_, fun T hT => ?_⟩
  · by_cases ej : j = i
    · subst ej; simp [hf, linkView]; rfl
    · simp [ej]
  · by_cases ej : j = i
    · exact absurd (ej ▸ List.mem_cons_self _ _) hn
    · exact inv.done_setFlow hj (fun h => hn (List.mem_cons_of_mem _ h)) ej
  · have hm : Mirrors (applyMsgs T msgs) ft.installed := inv.mirror T hT
    have hT' : applyMsgs T msgs f.flow.key = some (f.flow.ofpacts, f.flow.cookie) :=
      (hm _ _).2 ⟨i, f, hf, rfl, rfl⟩
    rw [applyMsgs_append, applyMsgs_flowMod, applyFlowMod_installed_flow_mod hT']
    exact @Mirrors.update _ _ hm inv.links.installed i f
      { f with flow := (installed_flow_mod f.flow fd).2 } hf rfl

/-- The flow, unlinked, is linked to the desired flow of its key, which has its actions
and cookie: the turn is done. -/
theorem InstalledLoopInv.link (inv : InstalledLoopInv ft0 (i :: rest) (ft, msgs))
    (hf : ft.installed.flow_heap i = some f) (hr : f.desired_refs = [])
    (hg : ft.desired.flow_heap d = some g) (hk : g.flow.key = f.flow.key)
    (ha : g.flow.ofpacts = f.flow.ofpacts) (hc : g.flow.cookie = f.flow.cookie) :
    ∃ ft', link_installed_to_desired ft i d = some ft' ∧ InstalledLoopInv ft0 rest (ft', msgs) := by
  have hd := inv.links.unlinked_of_key hf hr hg hk
  refine ⟨_, link_installed_to_desired_unlinked inv.links.refs hf hg hd,
    linksOk_link inv.links hf hg hd hk, (unlinked_setFlow hg _).trans inv.frame,
    fun j hj => inv.pending j (List.mem_cons_of_mem _ hj), (List.nodup_cons.1 inv.rest_nodup).2,
    fun j f1 hj hn => ?_, fun T hT => (inv.mirror T hT).congr fun j => ?_⟩
  · by_cases ej : j = i
    · subst ej
      simp only [InstalledTable.setFlow_heap, if_true, Option.some.injEq] at hj
      subst hj
      obtain ⟨g0, hg0, e, -, -⟩ := flow_of_unlinked inv.frame hg
      exact ⟨d, g0, by simp [hr], hg0, e ▸ ha, e ▸ hc⟩
    · exact inv.done_setFlow hj hn ej
  · by_cases ej : j = i
    · subst ej; simp [hf, mirrorData]
    · simp [ej]

/-- The flow, unlinked, has no desired flow of its key: it is deleted on the switch, leaves
the list and is freed. -/
theorem InstalledLoopInv.delete (inv : InstalledLoopInv ft0 (i :: rest) (ft, msgs))
    (hf : ft.installed.flow_heap i = some f) (hr : f.desired_refs = []) (hp : f.desired_flow = none) :
    ∃ ft', installed_flow_destroy { ft with installed := { ft.installed with
        installed_flows := ft.installed.installed_flows.erase i } } i = some ft' ∧
      InstalledLoopInv ft0 rest (ft', msgs ++ [.flowMod (installed_flow_del f.flow)]) := by
  have hd : installed_flow_destroy { ft with installed := { ft.installed with
      installed_flows := ft.installed.installed_flows.erase i } } i =
      some { ft with installed := { ft.installed with
        installed_flows := ft.installed.installed_flows.erase i }.setFlow i none } := by
    simp [installed_flow_destroy, hf, hr, hp]
  have hnd := List.nodup_cons.1 inv.rest_nodup
  refine ⟨_, hd, ⟨inv.links.installed.erase_destroy hf,
    refsOk_installed_flow_destroy (show RefsOk { ft with installed := { ft.installed with
      installed_flows := ft.installed.installed_flows.erase i } } from ⟨inv.links.refs.primary,
      inv.links.refs.refs_nodup, inv.links.refs.refs_linked, inv.links.refs.linked_refs⟩) hd⟩,
    inv.frame, fun j hj => ?_, hnd.2, fun j f1 hj hn => ?_, fun T hT => ?_⟩
  · have ne : j ≠ i := by rintro rfl; exact hnd.1 hj
    exact (List.mem_erase_of_ne ne).2 (inv.pending j (List.mem_cons_of_mem _ hj))
  · simp only [InstalledTable.setFlow_heap] at hj
    split_ifs at hj with ej
    exact inv.done j f1 hj (by simp [ej, hn])
  · rw [applyMsgs_append, applyMsgs_flowMod]
    exact (inv.mirror T hT).delete inv.links.installed hf _

/-- A turn of the loop over installed flows never aborts and keeps the invariant. -/
theorem installedLoop_step {acc : FlowTables × List OfpMsg}
    (inv : InstalledLoopInv ft0 (i :: rest) acc) :
    ∃ acc', putInstalledTurn acc i = some acc' ∧ InstalledLoopInv ft0 rest acc' := by
  obtain ⟨ft, msgs⟩ := acc
  obtain ⟨f, ft1, hu, hf1, inv1⟩ := inv.unlink
  unfold putInstalledTurn
  simp only [hu, hf1, Option.bind_eq_bind, Option.some_bind]
  split
  · obtain ⟨ft', hd, inv'⟩ := inv1.delete hf1 rfl rfl
    exact ⟨_, by simp [hd], inv'⟩
  · rename_i d hl
    obtain ⟨-, g, hg, hk, -⟩ := desired_flow_lookup_some hl
    simp only [hg, Option.some_bind]
    split_ifs with c
    · obtain ⟨ft', hl', inv'⟩ := (inv1.update hf1 g.flow).link (f := { f with
        flow := (installed_flow_mod f.flow g.flow).2, desired_refs := [], desired_flow := none })
        (by simp) rfl hg hk rfl rfl
      exact ⟨_, by simp [hl'], inv'⟩
    · push_neg at c
      obtain ⟨ft', hl', inv'⟩ := inv1.link hf1 rfl hg hk c.1.symm c.2.symm
      exact ⟨_, by simp [hl'], inv'⟩

theorem installedLoop_spec (h : LinksOk ft0) :
    ∃ ft1 msgs1, ft0.installed.installed_flows.foldlM putInstalledTurn (ft0, []) = some (ft1, msgs1) ∧
      InstalledLoopInv ft0 [] (ft1, msgs1) := by
  obtain ⟨⟨ft1, msgs1⟩, h1, h2⟩ := foldlM_exists (InstalledLoopInv ft0)
    (fun _ _ _ inv => installedLoop_step inv) (installedLoopInv_init h)
  exact ⟨ft1, msgs1, h1, h2⟩

end InstalledLoop

/-! ## The loop over desired flows -/

/-- The installed table agrees with the desired table: the same keys, and each installed
flow has the actions and cookie of its primary desired flow. -/
structure Agrees (ft : FlowTables) : Prop where
  installed : ∀ i f, ft.installed.flow_heap i = some f → ∃ d g, f.desired_flow = some d ∧
    ft.desired.flow_heap d = some g ∧ g.flow.key = f.flow.key ∧
    g.flow.ofpacts = f.flow.ofpacts ∧ g.flow.cookie = f.flow.cookie
  desired : ∀ d g, ft.desired.flow_heap d = some g →
    ∃ i f, ft.installed.flow_heap i = some f ∧ f.flow.key = g.flow.key

section DesiredLoop

variable {ft1 : FlowTables} {rest : List Nat} {msgs : List OfpMsg}

/-- The invariant of the loop of `ofctrl_put` over desired flows, started from `ft1`, with
`rest` still to come. A flow to come that is linked is the primary of its installed flow;
every installed flow has a primary with its actions and cookie; the flows done are linked;
the flow_mods sent bring a switch that mirrored `ft1` to the installed table. -/
structure DesiredLoopInv (ft1 : FlowTables) (rest : List Nat) (acc : FlowTables × List OfpMsg) :
    Prop where
  links : LinksOk acc.1
  frame : acc.1.desired.unlinked = ft1.desired.unlinked
  pending : ∀ d ∈ rest, d ∈ ft1.desired.match_flow_table
  rest_nodup : rest.Nodup
  primaries : ∀ d ∈ rest, ∀ g j, acc.1.desired.flow_heap d = some g → g.installed_flow = some j →
    ∃ f, acc.1.installed.flow_heap j = some f ∧ f.desired_flow = some d
  agree : ∀ j f, acc.1.installed.flow_heap j = some f → ∃ d g, f.desired_flow = some d ∧
    ft1.desired.flow_heap d = some g ∧ g.flow.ofpacts = f.flow.ofpacts ∧ g.flow.cookie = f.flow.cookie
  done : ∀ d g, acc.1.desired.flow_heap d = some g → d ∉ rest → g.installed_flow ≠ none
  mirror : ∀ T, Mirrors T ft1.installed → Mirrors (applyMsgs T acc.2) acc.1.installed

theorem desiredLoopInv_init {ft0 : FlowTables} {msgs1 : List OfpMsg} (hw : WellLinked ft0.desired)
    (inv : InstalledLoopInv ft0 [] (ft1, msgs1)) :
    DesiredLoopInv ft1 ft1.desired.match_flow_table (ft1, []) := by
  have hw1 := wellLinked_of_unlinked hw inv.frame
  refine ⟨inv.links, rfl, fun _ => id, hw1.1.flows.match_nodup, fun d _ g j hg hj => ?_,
    fun j f hj => ?_,
    fun d g hg hn => absurd ((hw1.1.flows.live d).1 (Option.isSome_iff_exists.2 ⟨g, hg⟩)) hn,
    fun _ hT => hT⟩
  · obtain ⟨f, hf, hm⟩ := inv.links.refs.linked_refs d g j hg hj
    obtain ⟨d0, -, hr, -⟩ := inv.done j f hf (List.not_mem_nil j)
    rw [hr, List.mem_singleton] at hm
    subst hm
    exact ⟨f, hf, by rw [inv.links.refs.primary j f hf, hr]; rfl⟩
  · obtain ⟨d0, g0, hr, hg0, ha, hc⟩ := inv.done j f hj (List.not_mem_nil j)
    obtain ⟨g1, hg1, e, -, -⟩ := flow_of_unlinked inv.frame.symm hg0
    exact ⟨d0, g1, by rw [inv.links.refs.primary j f hj, hr]; rfl, hg1, e ▸ ha, e ▸ hc⟩

theorem RefsOk.primary_linked (h : RefsOk ft) (hf : ft.installed.flow_heap i = some f)
    (hp : f.desired_flow = some d) :
    ∃ g, ft.desired.flow_heap d = some g ∧ g.installed_flow = some i ∧ g.flow.key = f.flow.key :=
  h.refs_linked i f hf d (List.mem_of_mem_head? (h.primary i f hf ▸ hp))

theorem DesiredLoopInv.skip (inv : DesiredLoopInv ft1 (d :: rest) (ft, msgs))
    (hf : ft.installed.flow_heap i = some f) (hp : f.desired_flow = some d) :
    DesiredLoopInv ft1 rest (ft, msgs) := by
  refine ⟨inv.links, inv.frame, fun d' h => inv.pending d' (List.mem_cons_of_mem _ h),
    (List.nodup_cons.1 inv.rest_nodup).2,
    fun d' h => inv.primaries d' (List.mem_cons_of_mem _ h), inv.agree, fun d' g hg hn => ?_,
    inv.mirror⟩
  by_cases e : d' = d
  · subst e
    obtain ⟨g', hg', hi, -⟩ := inv.links.refs.primary_linked hf hp
    rw [hg] at hg'; cases hg'; simp [hi]
  · exact inv.done d' g hg (by simp [e, hn])

/-- The flow, linked to nothing, joins the list of the installed flow of its key. -/
theorem DesiredLoopInv.append (inv : DesiredLoopInv ft1 (d :: rest) (ft, msgs))
    (hf : ft.installed.flow_heap i = some f) (hg : ft.desired.flow_heap d = some g)
    (hk : g.flow.key = f.flow.key) (hp : f.desired_flow ≠ some d) :
    ∃ ft', link_installed_to_desired ft i d = some ft' ∧ DesiredLoopInv ft1 rest (ft', msgs) := by
  have hd : g.installed_flow = none := by
    cases hj : g.installed_flow with
    | none => rfl
    | some j =>
      obtain ⟨fj, hfj, hpj⟩ := inv.primaries d (List.mem_cons_self _ _) g j hg hj
      obtain ⟨g', hg', -, hk'⟩ := inv.links.refs.primary_linked hfj hpj
      rw [hg] at hg'; cases hg'
      obtain rfl := inv.links.installed.key_unique j i fj f hfj hf (hk'.symm.trans hk)
      rw [hf] at hfj; cases hfj
      exact absurd hpj hp
  have hnd := List.nodup_cons.1 inv.rest_nodup
  -- the primary of a flow with a primary stays
  have keep : ∀ {d0}, f.desired_flow = some d0 → (f.desired_refs ++ [d]).head? = some d0 := by
    intro d0 h0
    rw [inv.links.refs.primary i f hf] at h0
    rw [List.head?_append, h0]; rfl
  refine ⟨_, link_installed_to_desired_unlinked inv.links.refs hf hg hd,
    linksOk_link inv.links hf hg hd hk, (unlinked_setFlow hg _).trans inv.frame,
    fun d' h => inv.pending d' (List.mem_cons_of_mem _ h), hnd.2,
    fun d' h' g' j hg' hj => ?_, fun j f' hj => ?_, fun d' g' hg' hn => ?_,
    fun T hT => (inv.mirror T hT).congr fun j => ?_⟩
  · have ne : d' ≠ d := by rintro rfl; exact hnd.1 h'
    simp only [OvnDesiredFlowTable.setFlow_heap, ne, if_false] at hg'
    obtain ⟨fj, hfj, hpj⟩ := inv.primaries d' (List.mem_cons_of_mem _ h') g' j hg' hj
    by_cases ej : j = i
    · subst ej; rw [hf] at hfj; cases hfj
      exact ⟨{ f with
        desired_refs := f.desired_refs ++ [d], desired_flow := (f.desired_refs ++ [d]).head? },
        by simp, keep hpj⟩
    · exact ⟨fj, by simp only [InstalledTable.setFlow_heap, ej, if_false]; exact hfj, hpj⟩
  · simp only [InstalledTable.setFlow_heap] at hj
    split_ifs at hj with ej
    · cases hj; subst ej
      obtain ⟨d0, g0, hp0, hg0, ha, hc⟩ := inv.agree j f hf
      exact ⟨d0, g0, keep hp0, hg0, ha, hc⟩
    · exact inv.agree j f' hj
  · simp only [OvnDesiredFlowTable.setFlow_heap] at hg'
    split_ifs at hg' with e
    · cases hg'; simp
    · exact inv.done d' g' hg' (by simp [e, hn])
  · by_cases ej : j = i
    · subst ej; simp [hf, mirrorData]
    · simp [ej]

/-- The flow has no installed flow of its key: it is added on the switch, copied into the
installed table and linked to the copy. -/
theorem DesiredLoopInv.add (hw1 : WellLinked ft1.desired) (inv : DesiredLoopInv ft1 (d :: rest) (ft, msgs))
    (hg : ft.desired.flow_heap d = some g) (hl : installed_flow_lookup ft.installed g.flow = none) :
    ∃ ft', link_installed_to_desired { ft with installed := { ft.installed with
        flow_heap := Function.update ft.installed.flow_heap ft.installed.next_id
          (some (installed_flow_dup g)),
        installed_flows := ft.installed.next_id :: ft.installed.installed_flows,
        next_id := ft.installed.next_id + 1 } } ft.installed.next_id d = some ft' ∧
      DesiredLoopInv ft1 rest (ft', msgs ++ [.flowMod (installed_flow_add g.flow)]) := by
  obtain ⟨g1, hg1, e1, -, -⟩ := flow_of_unlinked inv.frame hg
  have hh : g.flow.HashOk := e1 ▸ hw1.1.flows.hash_ok d g1 hg1
  have hk := installed_flow_lookup_none inv.links.installed hh hl
  have hn := inv.links.installed.fresh _ le_rfl
  have hd : g.installed_flow = none := by
    cases hj : g.installed_flow with
    | none => rfl
    | some j =>
      obtain ⟨fj, hfj, hm⟩ := inv.links.refs.linked_refs d g j hg hj
      obtain ⟨g', hg', -, hk'⟩ := inv.links.refs.refs_linked j fj hfj d hm
      rw [hg] at hg'; cases hg'
      exact absurd hk'.symm (hk j fj hfj)
  set n := ft.installed.next_id
  set ftA : FlowTables := { ft with installed := { ft.installed with
    flow_heap := Function.update ft.installed.flow_heap n (some (installed_flow_dup g)),
    installed_flows := n :: ft.installed.installed_flows, next_id := n + 1 } } with hA
  have hA1 : LinksOk ftA := ⟨inv.links.installed.insert hk hh,
    inv.links.refs.insert hn rfl rfl _ _⟩
  have hfA : ftA.installed.flow_heap n = some (installed_flow_dup g) := by simp [hA]
  have hnd := List.nodup_cons.1 inv.rest_nodup
  -- flows other than the copy are as they were
  have other : ∀ {j}, j ≠ n → ∀ x, ((ftA.installed.setFlow n x).flow_heap j) = ft.installed.flow_heap j := by
    intro j ne x
    simp [hA, ne, Function.update_apply]
  refine ⟨_, link_installed_to_desired_unlinked hA1.refs hfA hg hd,
    linksOk_link hA1 hfA hg hd rfl, (unlinked_setFlow hg _).trans inv.frame,
    fun d' h => inv.pending d' (List.mem_cons_of_mem _ h), hnd.2,
    fun d' h' g' j hg' hj => ?_, fun j f' hj => ?_, fun d' g' hg' hn' => ?_, fun T hT => ?_⟩
  · have ne : d' ≠ d := by rintro rfl; exact hnd.1 h'
    simp only [OvnDesiredFlowTable.setFlow_heap, ne, if_false] at hg'
    obtain ⟨fj, hfj, hpj⟩ := inv.primaries d' (List.mem_cons_of_mem _ h') g' j hg' hj
    have ej : j ≠ n := by rintro rfl; rw [hn] at hfj; cases hfj
    exact ⟨fj, by rw [other ej]; exact hfj, hpj⟩
  · by_cases ej : j = n
    · subst ej
      simp only [InstalledTable.setFlow_heap, if_true, Option.some.injEq] at hj
      subst hj
      exact ⟨d, g1, rfl, hg1, by rw [e1]; rfl, by rw [e1]; rfl⟩
    · rw [other ej] at hj
      exact inv.agree j f' hj
  · simp only [OvnDesiredFlowTable.setFlow_heap] at hg'
    split_ifs at hg' with e
    · cases hg'; simp
    · exact inv.done d' g' hg' (by simp [e, hn'])
  · rw [applyMsgs_append, applyMsgs_flowMod]
    refine ((inv.mirror T hT).insert (f := installed_flow_dup g) hn hk
      (n :: ft.installed.installed_flows) (n + 1)).congr fun j => ?_
    by_cases ej : j = n
    · subst ej; simp [hA, mirrorData]
    · simp [ej]

/-- A turn of the loop over desired flows never aborts and keeps the invariant. -/
theorem desiredLoop_step (hw1 : WellLinked ft1.desired) {acc : FlowTables × List OfpMsg}
    (inv : DesiredLoopInv ft1 (d :: rest) acc) :
    ∃ acc', putDesiredTurn acc d = some acc' ∧ DesiredLoopInv ft1 rest acc' := by
  obtain ⟨ft, msgs⟩ := acc
  obtain ⟨g1, hg1⟩ := Option.isSome_iff_exists.1
    ((hw1.1.flows.live d).2 (inv.pending d (List.mem_cons_self _ _)))
  obtain ⟨g, hg, -, -, -⟩ := flow_of_unlinked inv.frame.symm hg1
  dsimp only at hg
  unfold putDesiredTurn
  simp only [hg, Option.bind_eq_bind, Option.some_bind]
  split
  · rename_i i hl
    obtain ⟨f, hf, hk⟩ := installed_flow_lookup_some hl
    by_cases hp : f.desired_flow = some d
    · exact ⟨_, by simp [link_installed_to_desired_primary hf hp], inv.skip hf hp⟩
    · obtain ⟨ft', hl', inv'⟩ := inv.append hf hg hk.symm hp
      exact ⟨_, by simp [hl'], inv'⟩
  · rename_i hl
    obtain ⟨ft', hl', inv'⟩ := inv.add hw1 hg hl
    exact ⟨_, by simp [hl'], inv'⟩

theorem DesiredLoopInv.agrees (inv : DesiredLoopInv ft1 [] (ft, msgs)) : Agrees ft := by
  refine ⟨fun j f hj => ?_, fun d g hg => ?_⟩
  · obtain ⟨d, g1, hp, hg1, ha, hc⟩ := inv.agree j f hj
    obtain ⟨g, hg, hi, hk⟩ := inv.links.refs.primary_linked hj hp
    obtain ⟨g1', hg1', e, -, -⟩ := flow_of_unlinked inv.frame hg
    rw [hg1] at hg1'; cases hg1'
    exact ⟨d, g, hp, hg, hk, e ▸ ha, e ▸ hc⟩
  · obtain ⟨j, hj⟩ := Option.ne_none_iff_exists'.1 (inv.done d g hg (List.not_mem_nil d))
    obtain ⟨f, hf, hm⟩ := inv.links.refs.linked_refs d g j hg hj
    obtain ⟨g', hg', -, hk⟩ := inv.links.refs.refs_linked j f hf d hm
    rw [hg] at hg'; cases hg'
    exact ⟨j, f, hf, hk.symm⟩

end DesiredLoop

/-! ## Both loops -/

/-- The two loops of `ofctrl_put` never abort. They keep the links, change nothing of the
desired table but its installed links, leave the installed table agreeing with the desired
table, and their flow_mods bring a switch that mirrored the installed table to the new
one. -/
theorem putLoops_spec {ft0 : FlowTables} (hw : WellLinked ft0.desired) (h : LinksOk ft0) :
    ∃ ft1 msgs1 ft2 msgs2,
      ft0.installed.installed_flows.foldlM putInstalledTurn (ft0, []) = some (ft1, msgs1) ∧
      ft1.desired.match_flow_table.foldlM putDesiredTurn (ft1, []) = some (ft2, msgs2) ∧
      LinksOk ft2 ∧ ft2.desired.unlinked = ft0.desired.unlinked ∧ Agrees ft2 ∧
      ∀ T, Mirrors T ft0.installed → Mirrors (applyMsgs (applyMsgs T msgs1) msgs2) ft2.installed := by
  obtain ⟨ft1, msgs1, h1, inv1⟩ := installedLoop_spec h
  have hw1 := wellLinked_of_unlinked hw inv1.frame
  obtain ⟨⟨ft2, msgs2⟩, h2, inv2⟩ := foldlM_exists (DesiredLoopInv ft1)
    (fun _ _ _ inv => desiredLoop_step hw1 inv) (desiredLoopInv_init hw inv1)
  exact ⟨ft1, msgs1, ft2, msgs2, h1, h2, inv2.links, inv2.frame.trans inv1.frame, inv2.agrees,
    fun T hT => inv2.mirror _ (inv1.mirror T hT)⟩

end OvnOfctrl
