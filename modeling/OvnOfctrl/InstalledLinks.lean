-- The links between installed and desired flows: an installed flow's `desired_refs` lists
-- the desired flows linked to it, each once, its primary `desired_flow` is the first of
-- them, and a desired flow is in that list exactly when its `installed_flow` names it.
import OvnOfctrl.FloodLinks

namespace OvnOfctrl

/-! ## The invariant -/

/-- The installed table alone: `installed_flows` lists the live installed flows, each once,
one per key, each under the hash of its key. -/
structure InstalledOk (it : InstalledTable) : Prop where
  list_nodup : it.installed_flows.Nodup
  live : ∀ i, (it.flow_heap i).isSome ↔ i ∈ it.installed_flows
  key_unique : ∀ i j f g, it.flow_heap i = some f → it.flow_heap j = some g →
    f.flow.key = g.flow.key → i = j
  hash_ok : ∀ i f, it.flow_heap i = some f → f.flow.HashOk
  fresh : ∀ n, it.next_id ≤ n → it.flow_heap n = none

/-- The links in both directions between installed and desired flows. -/
structure RefsOk (ft : FlowTables) : Prop where
  primary : ∀ i f, ft.installed.flow_heap i = some f → f.desired_flow = f.desired_refs.head?
  refs_nodup : ∀ i f, ft.installed.flow_heap i = some f → f.desired_refs.Nodup
  refs_linked : ∀ i f, ft.installed.flow_heap i = some f → ∀ d ∈ f.desired_refs,
    ∃ g, ft.desired.flow_heap d = some g ∧ g.installed_flow = some i ∧ g.flow.key = f.flow.key
  linked_refs : ∀ d g i, ft.desired.flow_heap d = some g → g.installed_flow = some i →
    ∃ f, ft.installed.flow_heap i = some f ∧ d ∈ f.desired_refs

/-- The invariant of the installed table and its links. -/
structure LinksOk (ft : FlowTables) : Prop where
  installed : InstalledOk ft.installed
  refs : RefsOk ft

theorem linksOk_init : LinksOk ⟨ovn_desired_flow_table_init, InstalledTable.empty⟩ := by
  refine ⟨⟨?_, ?_, ?_, ?_, ?_⟩, ⟨?_, ?_, ?_, ?_⟩⟩ <;>
    simp [InstalledTable.empty, ovn_desired_flow_table_init]

/-! ## Frames -/

section Frames

variable {ft : FlowTables}

/-- What the installed table alone sees of an installed flow: its hash and key. -/
def installedKey (f : InstalledFlow) : UInt32 × FlowKey := (f.flow.hash, f.flow.key)

/-- The installed table alone only reads the list, the next address and the hash and key of
each flow. -/
theorem InstalledOk.of_keys {it it' : InstalledTable} (h : InstalledOk it)
    (hl : it'.installed_flows = it.installed_flows) (hn : it'.next_id = it.next_id)
    (hf : ∀ i, (it'.flow_heap i).map installedKey = (it.flow_heap i).map installedKey) :
    InstalledOk it' := by
  have back : ∀ {i f'}, it'.flow_heap i = some f' → ∃ f, it.flow_heap i = some f ∧
      f'.flow.hash = f.flow.hash ∧ f'.flow.key = f.flow.key := by
    intro i f' h'
    have := hf i
    rw [h'] at this
    obtain ⟨f, hf', e⟩ := Option.map_eq_some'.1 this.symm
    simp only [installedKey, Prod.mk.injEq] at e
    exact ⟨f, hf', e.1.symm, e.2.symm⟩
  refine ⟨hl ▸ h.list_nodup, fun i => ?_, fun i j f' g' hi hj e => ?_, fun i f' hi => ?_,
    fun n hn' => ?_⟩
  · rw [hl, ← h.live i]
    simpa using congrArg Option.isSome (hf i)
  · obtain ⟨f, hf1, -, e1⟩ := back hi
    obtain ⟨g, hg1, -, e2⟩ := back hj
    exact h.key_unique i j f g hf1 hg1 (e1.symm.trans (e.trans e2))
  · obtain ⟨f, hf1, e1, e2⟩ := back hi
    have := h.hash_ok i f hf1
    simp only [OvnFlow.HashOk, OvnFlow.key, FlowKey.mk.injEq] at this e2 ⊢
    rw [e1, e2.1, e2.2.1, e2.2.2]
    exact this
  · have := hf n
    rw [h.fresh n (hn ▸ hn')] at this
    simpa using this

theorem RefsOk.keep (h : RefsOk ft) {t' : OvnDesiredFlowTable} (hk : KeepsLinks ft.desired t') :
    RefsOk { ft with desired := t' } := by
  refine ⟨h.primary, h.refs_nodup, fun i f hf d hd => ?_, fun d g' i hg' hi => ?_⟩
  · obtain ⟨g, hg, hi, e⟩ := h.refs_linked i f hf d hd
    have := hk d
    rw [hg] at this
    obtain ⟨g', hg', e'⟩ := Option.map_eq_some'.1 this
    simp only [installedLink, Prod.mk.injEq] at e'
    exact ⟨g', hg', e'.1.trans hi, e'.2.trans e⟩
  · have := hk d
    rw [hg'] at this
    obtain ⟨g, hg, e'⟩ := Option.map_eq_some'.1 this.symm
    simp only [installedLink, Prod.mk.injEq] at e'
    exact h.linked_refs d g i hg (e'.1.trans hi)

theorem LinksOk.keep (h : LinksOk ft) {t' : OvnDesiredFlowTable} (hk : KeepsLinks ft.desired t') :
    LinksOk { ft with desired := t' } :=
  ⟨h.installed, h.refs.keep hk⟩

end Frames

/-! ## Unlinking and freeing -/

section Unlink

variable {ft ft' : FlowTables} {i d : Nat}

theorem head?_erase_of_ne {l : List Nat} (h : l.head? ≠ some d) : (l.erase d).head? = l.head? := by
  cases l with
  | nil => rfl
  | cons a l =>
    have : a ≠ d := fun e => h (by simp [e])
    simp [List.erase_cons, this]

theorem unlink_exists (h : RefsOk ft) {f : InstalledFlow} (hf : ft.installed.flow_heap i = some f)
    (hd : d ∈ f.desired_refs) : ∃ ft', unlink_installed_to_desired ft i d = some ft' := by
  obtain ⟨g, hg, hi, -⟩ := h.refs_linked i f hf d hd
  obtain ⟨a, l, e⟩ := List.exists_cons_of_ne_nil (List.ne_nil_of_mem hd)
  have hp : f.desired_flow ≠ none := by rw [h.primary i f hf, e]; simp
  simp [unlink_installed_to_desired, hf, hg, hp, e, hi]

/-- `unlink_installed_to_desired` keeps the links: the primary passes to the next flow of
the list when it was the one unlinked. -/
theorem refsOk_unlink (h : RefsOk ft) (hu : unlink_installed_to_desired ft i d = some ft') :
    RefsOk ft' := by
  obtain ⟨f, g, hf, hg, -, -, hgi, rfl⟩ := unlink_installed_to_desired_some hu
  have hnd := h.refs_nodup i f hf
  refine ⟨?_, ?_, ?_, ?_⟩
  · intro j f' hj
    by_cases e : j = i
    · simp only [e, InstalledTable.setFlow_heap, if_true, Option.some.injEq] at hj
      subst hj
      rw [h.primary i f hf]
      split_ifs with e'
      · rfl
      · exact (head?_erase_of_ne e').symm
    · simp only [e, InstalledTable.setFlow_heap, if_false] at hj
      exact h.primary j f' hj
  · intro j f' hj
    by_cases e : j = i
    · simp only [e, InstalledTable.setFlow_heap, if_true, Option.some.injEq] at hj
      subst hj; exact hnd.erase d
    · simp only [e, InstalledTable.setFlow_heap, if_false] at hj
      exact h.refs_nodup j f' hj
  · intro j f' hj d' hd'
    by_cases e : j = i
    · simp only [e, InstalledTable.setFlow_heap, if_true, Option.some.injEq] at hj
      subst hj e
      obtain ⟨ne, hd'⟩ := (List.Nodup.mem_erase_iff hnd).1 hd'
      obtain ⟨g', hg', hi', hk⟩ := h.refs_linked j f hf d' hd'
      exact ⟨g', by simp [ne, hg'], hi', hk⟩
    · simp only [e, InstalledTable.setFlow_heap, if_false] at hj
      obtain ⟨g', hg', hi', hk⟩ := h.refs_linked j f' hj d' hd'
      have ne : d' ≠ d := by
        rintro rfl; rw [hg] at hg'; cases hg'; rw [hgi] at hi'; cases hi'; exact e rfl
      exact ⟨g', by simp [ne, hg'], hi', hk⟩
  · intro d' g' j hg' hj
    simp only [OvnDesiredFlowTable.setFlow_heap] at hg'
    split_ifs at hg' with e
    · cases hg'; simp at hj
    · obtain ⟨f', hf', hm⟩ := h.linked_refs d' g' j hg' hj
      by_cases ej : j = i
      · subst ej; rw [hf] at hf'; cases hf'
        exact ⟨_, by simp only [InstalledTable.setFlow_heap, ite_true]; rfl,
          (List.mem_erase_of_ne e).2 hm⟩
      · exact ⟨f', by simp [ej, hf'], hm⟩

theorem unlink_installed (hu : unlink_installed_to_desired ft i d = some ft') :
    ∃ f, ft.installed.flow_heap i = some f ∧ ft'.installed = ft.installed.setFlow i (some
      { f with desired_refs := f.desired_refs.erase d,
               desired_flow := if f.desired_flow = some d then (f.desired_refs.erase d).head?
                               else f.desired_flow }) ∧
      ft'.desired.unlinked = ft.desired.unlinked := by
  obtain ⟨f, g, hf, hg, -, -, -, rfl⟩ := unlink_installed_to_desired_some hu
  refine ⟨f, hf, rfl, ?_⟩
  simp only [OvnDesiredFlowTable.unlinked, OvnDesiredFlowTable.setFlow]
  congr 1; funext d'
  by_cases e : d' = d
  · subst e; simp [hg]
  · simp [Function.update_apply, e]

theorem linksOk_unlink (h : LinksOk ft) (hu : unlink_installed_to_desired ft i d = some ft') :
    LinksOk ft' := by
  obtain ⟨f, hf, e, -⟩ := unlink_installed hu
  refine ⟨?_, refsOk_unlink h.refs hu⟩
  rw [e]
  refine h.installed.of_keys rfl rfl fun j => ?_
  by_cases e : j = i
  · subst e; simp [hf, installedKey]
  · simp [e]

theorem linksOk_desired_flow_destroy (h : LinksOk ft) (hd : desired_flow_destroy ft d = some ft') :
    LinksOk ft' := by
  obtain ⟨g, hg, -, hgi, rfl⟩ := desired_flow_destroy_some hd
  refine ⟨h.installed, h.refs.primary, h.refs.refs_nodup, fun j f hf d' hd' => ?_,
    fun d' g' j hg' hj => ?_⟩
  · obtain ⟨g', hg', hi', hk⟩ := h.refs.refs_linked j f hf d' hd'
    have ne : d' ≠ d := by rintro rfl; rw [hg] at hg'; cases hg'; simp [hgi] at hi'
    exact ⟨g', by simp [ne, hg'], hi', hk⟩
  · simp only [OvnDesiredFlowTable.setFlow_heap] at hg'
    split_ifs at hg'
    exact h.refs.linked_refs d' g' j hg' hj

theorem linksOk_removeDesired (h : LinksOk ft) {g : DesiredFlow}
    (hr : removeDesired ft d g = some ft') : LinksOk ft' := by
  have h0 : LinksOk { ft with desired := { ft.desired with
      match_flow_table := ft.desired.match_flow_table.erase d } } := h.keep fun _ => rfl
  unfold removeDesired at hr
  dsimp only at hr
  split at hr
  · obtain ⟨ft1, h1, h2⟩ := Option.bind_eq_some.1 hr
    exact linksOk_desired_flow_destroy (linksOk_unlink h0 h1) h2
  · exact linksOk_desired_flow_destroy h0 hr

theorem removeDesired_exists (h : LinksOk ft) {g : DesiredFlow}
    (hg : ft.desired.flow_heap d = some g) (hr : g.references = []) :
    ∃ ft', removeDesired ft d g = some ft' := by
  unfold removeDesired
  dsimp only
  split
  · rename_i i hi
    obtain ⟨f, hf, hm⟩ := h.refs.linked_refs d g i hg hi
    obtain ⟨ft1, h1⟩ := unlink_exists (h.keep (show KeepsLinks ft.desired { ft.desired with
      match_flow_table := ft.desired.match_flow_table.erase d } from fun _ => rfl)).refs hf hm
    have hd1 : ft1.desired.flow_heap d = some { g with installed_flow := none } := by
      obtain ⟨_, g1, _, hg1, _, _, _, e⟩ := unlink_installed_to_desired_some h1
      simp only [hg, Option.some.injEq] at hg1
      subst hg1
      rw [e]; simp
    simp [h1, desired_flow_destroy, hd1, hr]
  · rename_i hi
    simp [desired_flow_destroy, hg, hr, hi]

theorem refsOk_installed_flow_destroy (h : RefsOk ft)
    (hd : installed_flow_destroy ft i = some ft') : RefsOk ft' := by
  obtain ⟨f, hf, hr, -, rfl⟩ := installed_flow_destroy_some hd
  refine ⟨fun j f' hj => ?_, fun j f' hj => ?_, fun j f' hj => ?_, fun d g j hg hj => ?_⟩ <;>
    try (simp only [InstalledTable.setFlow_heap] at hj; split_ifs at hj)
  · exact h.primary j f' hj
  · exact h.refs_nodup j f' hj
  · exact h.refs_linked j f' hj
  · obtain ⟨f', hf', hm⟩ := h.linked_refs d g j hg hj
    have ne : j ≠ i := by rintro rfl; rw [hf] at hf'; cases hf'; simp [hr] at hm
    exact ⟨f', by simp [ne, hf'], hm⟩

/-- `unlink_all_refs_for_installed_flow` unlinks every desired flow of `i` and changes
nothing else but their links. -/
theorem unlink_all_spec (h : RefsOk ft) {f : InstalledFlow}
    (hf : ft.installed.flow_heap i = some f) :
    ∃ ft', unlink_all_refs_for_installed_flow ft i = some ft' ∧ RefsOk ft' ∧
      ft'.installed = ft.installed.setFlow i (some { f with desired_refs := [], desired_flow := none }) ∧
      ft'.desired.unlinked = ft.desired.unlinked := by
  have init : ft.installed = ft.installed.setFlow i
      (some { f with desired_refs := f.desired_refs, desired_flow := f.desired_refs.head? }) := by
    rw [← h.primary i f hf]
    simp only [InstalledTable.setFlow]
    rw [show ({ f with desired_refs := f.desired_refs, desired_flow := f.desired_flow } :
      InstalledFlow) = f from rfl, ← hf, Function.update_eq_self]
  obtain ⟨ft', h1, h2⟩ := foldlM_exists (fun rs (ft1 : FlowTables) => RefsOk ft1 ∧
      ft1.installed = ft.installed.setFlow i
        (some { f with desired_refs := rs, desired_flow := rs.head? }) ∧
      ft1.desired.unlinked = ft.desired.unlinked)
    (fun d rs ft1 ⟨h1, e1, u1⟩ => by
      have hf1 : ft1.installed.flow_heap i =
          some { f with desired_refs := d :: rs, desired_flow := some d } := by
        rw [e1]; simp
      obtain ⟨ft2, hu⟩ := unlink_exists h1 hf1 (List.mem_cons_self _ _)
      obtain ⟨f1, hf1', e2, u2⟩ := unlink_installed hu
      rw [hf1] at hf1'; cases hf1'
      refine ⟨ft2, hu, refsOk_unlink h1 hu, ?_, u2.trans u1⟩
      rw [e2, e1]
      simp) (f := fun ft d => unlink_installed_to_desired ft i d) (l := f.desired_refs)
    ⟨h, init, rfl⟩
  refine ⟨ft', by simp only [unlink_all_refs_for_installed_flow, hf, h1], h2.1, ?_, h2.2.2⟩
  simpa using h2.2.1

/-- A turn of `ovn_installed_flow_table_clear` on the first flow of the list. -/
theorem installed_clear_turn (h : LinksOk ft) {rest : List Nat}
    (hl : ft.installed.installed_flows = i :: rest) :
    ∃ ft', (unlink_all_refs_for_installed_flow { ft with installed := { ft.installed with
        installed_flows := ft.installed.installed_flows.erase i } } i >>=
        fun ft => installed_flow_destroy ft i) = some ft' ∧
      LinksOk ft' ∧ ft'.installed.installed_flows = rest ∧
      ft'.desired.unlinked = ft.desired.unlinked := by
  obtain ⟨f, hf⟩ := Option.isSome_iff_exists.1 ((h.installed.live i).2 (by simp [hl]))
  have r0 : RefsOk { ft with installed := { ft.installed with
      installed_flows := ft.installed.installed_flows.erase i } } :=
    ⟨h.refs.primary, h.refs.refs_nodup, h.refs.refs_linked, h.refs.linked_refs⟩
  obtain ⟨ft2, h2, r2, e2, u2⟩ := unlink_all_spec r0 hf
  have hd : installed_flow_destroy ft2 i = some { ft2 with installed := ft2.installed.setFlow i none } := by
    simp [installed_flow_destroy, e2]
  have hnd := h.installed.list_nodup
  rw [hl] at hnd
  refine ⟨_, by simp [h2, hd], ⟨?_, refsOk_installed_flow_destroy r2 hd⟩, by simp [e2, hl], u2⟩
  have hi := h.installed
  simp only [e2, InstalledTable.setFlow_setFlow]
  refine ⟨by simpa [hl] using (List.nodup_cons.1 hnd).2, fun j => ?_, fun j k f1 g1 hj hk => ?_,
    fun j f1 hj => ?_, fun n hn => ?_⟩
  · by_cases e : j = i
    · subst e; simp [hl, (List.nodup_cons.1 hnd).1]
    · simp [e, hi.live j, hl]
  · simp only [InstalledTable.setFlow_heap] at hj hk
    split_ifs at hj hk
    exact hi.key_unique j k f1 g1 hj hk
  · simp only [InstalledTable.setFlow_heap] at hj
    split_ifs at hj
    exact hi.hash_ok j f1 hj
  · simp [Function.update_apply, hi.fresh n hn]

theorem installed_clear_spec (h : LinksOk ft) :
    ∃ ft', ovn_installed_flow_table_clear ft = some ft' ∧ LinksOk ft' ∧
      ft'.installed.installed_flows = [] ∧ ft'.desired.unlinked = ft.desired.unlinked := by
  obtain ⟨ft', h1, h2⟩ := foldlM_exists (fun rest (ft1 : FlowTables) => LinksOk ft1 ∧
      ft1.installed.installed_flows = rest ∧ ft1.desired.unlinked = ft.desired.unlinked)
    (fun i rest ft1 ⟨h1, e1, u1⟩ => by
      obtain ⟨ft2, h2, l2, e2, u2⟩ := installed_clear_turn h1 e1
      exact ⟨ft2, h2, l2, e2, u2.trans u1⟩) (l := ft.installed.installed_flows) ⟨h, rfl, rfl⟩
  exact ⟨ft', h1, h2⟩

theorem floodStable_linksOk : FloodStable LinksOk :=
  ⟨fun _ _ h hk => h.keep hk, fun _ _ _ _ h _ hr => linksOk_removeDesired h hr⟩

end Unlink

end OvnOfctrl
