-- What each operation of the desired table does, on every table a run can reach: adding a
-- flow for a uuid, appending actions to the flow of a key, removing the flows of a uuid,
-- and clearing the table. Each result names what the operation adds, changes and removes,
-- and says that everything else is as it was.
import OvnOfctrl.Invariants

namespace OvnOfctrl

/-! ## Links and lookups -/

/-- Flow `g` of `t` has a link to `u`: one of its `sb_flow_ref` nodes names `u`. -/
def LinksTo (t : OvnDesiredFlowTable) (g : DesiredFlow) (u : Uuid) : Prop :=
  ∃ r ∈ g.references, ∃ s, t.ref_heap r = some s ∧ s.sb_uuid = u

section Lookup

variable {X Y : List Nat} {t : OvnDesiredFlowTable}

theorem referencedBy_iff {g : DesiredFlow} {u : Uuid} : referencedBy t g u = true ↔ LinksTo t g u := by
  simp only [referencedBy, List.any_eq_true, LinksTo]
  refine exists_congr fun r => and_congr_right fun _ => ?_
  cases t.ref_heap r <;> simp

theorem desired_flow_lookup_isSome (h : FlowLinks X Y t) {target : OvnFlow} (ht : target.HashOk)
    (u : Option Uuid) :
    (desired_flow_lookup t target u).isSome ↔ ∃ d g, t.flow_heap d = some g ∧
      g.flow.key = target.key ∧ ∀ u', u = some u' → LinksTo t g u' := by
  constructor
  · intro hs
    obtain ⟨d, hd⟩ := Option.isSome_iff_exists.1 hs
    obtain ⟨-, g, hg, hk, hu⟩ := desired_flow_lookup_some hd
    exact ⟨d, g, hg, hk, fun u' e => referencedBy_iff.1 (hu u' e)⟩
  · rintro ⟨d, g, hg, hk, hu⟩
    refine List.find?_isSome.2 ⟨d, (h.live d).1 (by simp [hg]), ?_⟩
    simp only [hg, hash_eq_of_key_eq (h.hash_ok d g hg) ht hk, hk, beq_self_eq_true, Bool.true_and]
    cases u with
    | none => rfl
    | some u' => exact referencedBy_iff.2 (hu u' rfl)

end Lookup

/-! ## Adding a flow -/

/-- `t'` is `t` with a new `sb_flow_ref` node `r` that links flow `d` to `u`: the node is
fresh and joins the end of the list of `u`'s entry, which is created when there is none;
every other node and every other entry is as it was. -/
structure LinksNew (t t' : OvnDesiredFlowTable) (d r : Nat) (u : Uuid) : Prop where
  fresh : t.ref_heap r = none
  ref : t'.ref_heap r = some ⟨d, u⟩
  refs : ∀ r', r' ≠ r → t'.ref_heap r' = t.ref_heap r'
  entry : sb_to_flow_find t'.uuid_flow_table u =
    some ⟨u, ((sb_to_flow_find t.uuid_flow_table u).map (·.flows)).getD [] ++ [r]⟩
  entries : ∀ v, v ≠ u → sb_to_flow_find t'.uuid_flow_table v = sb_to_flow_find t.uuid_flow_table v

/-- `t'` is `t` with one new desired flow `d` holding `f`, first in `match_flow_table`,
linked only to `u` (by node `r`) and to no installed flow; every other flow is as it
was. -/
structure AddsFlow (t t' : OvnDesiredFlowTable) (f : OvnFlow) (u : Uuid) (d r : Nat) : Prop where
  fresh : t.flow_heap d = none
  match_ : t'.match_flow_table = d :: t.match_flow_table
  flow : t'.flow_heap d = some ⟨f, [r], none, false⟩
  flows : ∀ d', d' ≠ d → t'.flow_heap d' = t.flow_heap d'
  links : LinksNew t t' d r u

theorem sb_to_flow_find_map {G : SbToFlow → SbToFlow} (hG : ∀ stf, (G stf).sb_uuid = stf.sb_uuid)
    (l : List SbToFlow) (v : Uuid) : sb_to_flow_find (l.map G) v = (sb_to_flow_find l v).map G := by
  simp only [sb_to_flow_find, List.find?_map]
  congr 2
  funext x
  simp [hG]

/-- `link_flow_to_sb` adds the node `t.next_id` and nothing else to the links. -/
theorem linksNew_link_flow_to_sb {t : OvnDesiredFlowTable} (hr : t.ref_heap t.next_id = none)
    (d : Nat) (u : Uuid) : LinksNew t (link_flow_to_sb t d u) d t.next_id u := by
  let G := fun stf : SbToFlow =>
    if stf.sb_uuid = u then { stf with flows := stf.flows ++ [t.next_id] } else stf
  have hG : ∀ stf, (G stf).sb_uuid = stf.sb_uuid := fun stf => by simp only [G]; split_ifs <;> rfl
  refine ⟨hr, by simp, fun r' ne => by simp [Function.update_apply, ne], ?_, fun v ne => ?_⟩
  · rw [link_flow_to_sb_uuid]
    cases hf : sb_to_flow_find t.uuid_flow_table u with
    | none => simp [sb_to_flow_find]
    | some stf =>
      obtain ⟨-, rfl⟩ := sb_to_flow_find_some hf
      rw [show ∀ l, List.map _ l = l.map G from fun _ => rfl, sb_to_flow_find_map hG, hf]
      simp [G]
  · rw [link_flow_to_sb_uuid]
    cases hf : sb_to_flow_find t.uuid_flow_table u with
    | none => simp [sb_to_flow_find, List.find?_cons, Ne.symm ne]
    | some stf =>
      rw [show ∀ l, List.map _ l = l.map G from fun _ => rfl, sb_to_flow_find_map hG]
      cases hv : sb_to_flow_find t.uuid_flow_table v with
      | none => rfl
      | some stf' => simp [G, (sb_to_flow_find_some hv).2, ne]

theorem addsFlow_insert_link {X Y : List Nat} {t : OvnDesiredFlowTable} (h : FlowLinks X Y t)
    (f : OvnFlow)
    (u : Uuid) : AddsFlow t (link_flow_to_sb (insertDesired t ⟨f, [], none, false⟩) t.next_id u)
      f u t.next_id (t.next_id + 1) := by
  have hn := h.fresh (t.next_id + 1) (by omega)
  refine ⟨(h.fresh _ le_rfl).1, by simp, by simp, fun d' ne => by simp [Function.update_apply, ne],
    ?_⟩
  have l := linksNew_link_flow_to_sb (t := insertDesired t ⟨f, [], none, false⟩)
    (by simpa using hn.2) t.next_id u
  exact ⟨hn.2, by simp, fun r' ne => by simpa using l.refs r' (by simp [ne]),
    by simpa using l.entry, fun v ne => by simpa using l.entries v ne⟩

/-- `ofctrl_check_and_add_flow`, and `ofctrl_add_flow`, which is it with `log_duplicate_flow`
set, on every reachable table: the table is left as it was exactly when a live flow with the
key already has a link to the uuid. Otherwise one new flow with the key, actions and cookie
is added, linked only to the uuid, whose entry is created if absent, and every other flow
(with its installed link), node and entry is as it was. The same call again changes
nothing. -/
theorem check_and_add_flow_spec {e : Ofctrl} (h : Reachable e) (table_id : UInt8)
    (priority : UInt16) (cookie : UInt64) (m : Minimatch) (actions : List UInt8) (sb_uuid : Uuid)
    (log_duplicate_flow : Bool) :
    let t := e.tables.desired
    let t' := ofctrl_check_and_add_flow t table_id priority cookie m actions sb_uuid
      log_duplicate_flow
    (t' = t ↔ ∃ d g, t.flow_heap d = some g ∧ g.flow.key = ⟨table_id, priority, m⟩ ∧
      LinksTo t g sb_uuid) ∧
    (t' ≠ t → ∃ d r, AddsFlow t t' (ovn_flow_init table_id priority cookie m actions) sb_uuid d r) ∧
    ofctrl_check_and_add_flow t' table_id priority cookie m actions sb_uuid log_duplicate_flow = t' := by
  intro t t'
  have hw : WellLinked t := (reachable_tablesOk h).desired
  have hw' : WellLinked t' := wellLinked_check_and_add_flow hw ..
  have iff := fun (t : OvnDesiredFlowTable) (hw : WellLinked t) => desired_flow_lookup_isSome
    hw.1.flows (ovn_flow_init_hashOk table_id priority cookie m actions) (some sb_uuid)
  -- a table where the lookup finds a flow is left as it is
  have keep : ∀ t0 : OvnDesiredFlowTable, (desired_flow_lookup t0
      (ovn_flow_init table_id priority cookie m actions) (some sb_uuid)).isSome →
      ofctrl_check_and_add_flow t0 table_id priority cookie m actions sb_uuid log_duplicate_flow = t0 := by
    intro t0 hs
    obtain ⟨d, hd⟩ := Option.isSome_iff_exists.1 hs
    simp [ofctrl_check_and_add_flow, desired_flow_alloc, hd]
  cases hl : desired_flow_lookup t (ovn_flow_init table_id priority cookie m actions) (some sb_uuid) with
  | some d =>
    have ht : t' = t := keep t (by simp [hl])
    obtain ⟨d, g, hg, hk, hu⟩ := (iff t hw).1 (by simp [hl])
    exact ⟨iff_of_true ht ⟨d, g, hg, hk, hu _ rfl⟩, fun ne => absurd ht ne, ht ▸ keep t (by simp [hl])⟩
  | none =>
    have ht : t' = link_flow_to_sb (insertDesired t ⟨ovn_flow_init table_id priority cookie m actions,
        [], none, false⟩) t.next_id sb_uuid := by
      simp [t', ofctrl_check_and_add_flow, desired_flow_alloc, hl]
    have ha := ht ▸ addsFlow_insert_link hw.1.flows (ovn_flow_init table_id priority cookie m actions)
      sb_uuid
    have ne : t' ≠ t := fun e => by simpa [e] using congrArg List.length ha.match_
    refine ⟨iff_of_false ne fun ⟨d, g, hg, hk, hu⟩ => ?_, fun _ => ⟨_, _, ha⟩, keep t' ?_⟩
    · simpa [hl] using (iff t hw).2 ⟨d, g, hg, hk, fun u' e => Option.some.inj e ▸ hu⟩
    · refine (iff t' hw').2 ⟨t.next_id, _, ha.flow, rfl, fun u' e => ?_⟩
      exact ⟨t.next_id + 1, by simp, _, ha.links.ref, Option.some.inj e⟩

/-- Adding the flow of `onePut` to the empty table twice: the second call changes nothing. -/
theorem check_and_add_flow_twice_init :
    ofctrl_check_and_add_flow (ofctrl_check_and_add_flow ofctrl_init.tables.desired 0 100 7
      ipMatch [1] 1 true) 0 100 7 ipMatch [1] 1 true =
      ofctrl_check_and_add_flow ofctrl_init.tables.desired 0 100 7 ipMatch [1] 1 true :=
  (check_and_add_flow_spec .init 0 100 7 ipMatch [1] 1 true).2.2

/-! ## Appending actions -/

/-- `t'` is `t` with the actions `a` appended, byte for byte, to those of its flow `d`
(which was `g`), and a new node `r` linking `d` to `u`; the key, the cookie and every other
flow are as they were. -/
structure AppendsTo (t t' : OvnDesiredFlowTable) (d : Nat) (g : DesiredFlow) (a : List UInt8)
    (u : Uuid) (r : Nat) : Prop where
  match_ : t'.match_flow_table = t.match_flow_table
  flow : t'.flow_heap d = some { g with
    flow := { g.flow with ofpacts := g.flow.ofpacts ++ a }, references := g.references ++ [r] }
  flows : ∀ d', d' ≠ d → t'.flow_heap d' = t.flow_heap d'
  links : LinksNew t t' d r u

theorem appendsTo_modify_link {X Y : List Nat} {t : OvnDesiredFlowTable} (h : FlowLinks X Y t)
    {d : Nat} {g : DesiredFlow} (hg : t.flow_heap d = some g) (a : List UInt8) (u : Uuid) :
    AppendsTo t (link_flow_to_sb (t.modifyFlow d fun g =>
      { g with flow := { g.flow with ofpacts := g.flow.ofpacts ++ a } }) d u) d g a u t.next_id := by
  have l := linksNew_link_flow_to_sb (t := t.modifyFlow d fun g =>
    { g with flow := { g.flow with ofpacts := g.flow.ofpacts ++ a } })
    (by simpa [OvnDesiredFlowTable.modifyFlow] using (h.fresh _ le_rfl).2) d u
  refine ⟨by simp [OvnDesiredFlowTable.modifyFlow], ?_, fun d' ne => ?_, ?_⟩
  · simp [OvnDesiredFlowTable.modifyFlow, hg]
  · simp [OvnDesiredFlowTable.modifyFlow, Function.update_apply, ne]
  · exact ⟨by simpa [OvnDesiredFlowTable.modifyFlow] using l.fresh, l.ref,
      fun r' ne => by simpa [OvnDesiredFlowTable.modifyFlow] using l.refs r' (by simpa using ne),
      by simpa [OvnDesiredFlowTable.modifyFlow] using l.entry,
      fun v ne => by simpa [OvnDesiredFlowTable.modifyFlow] using l.entries v ne⟩

section AddOrAppend

variable {t : OvnDesiredFlowTable} (hw : WellLinked t) (table_id : UInt8) (priority : UInt16)
  (cookie : UInt64) (m : Minimatch) (actions : List UInt8) (sb_uuid : Uuid)

include hw

theorem add_or_append_flow_cases :
    (∀ d, desired_flow_lookup t (ovn_flow_init table_id priority cookie m actions) none = some d →
      ∃ g, t.flow_heap d = some g ∧ g.flow.key = ⟨table_id, priority, m⟩ ∧
        AppendsTo t (ofctrl_add_or_append_flow t table_id priority cookie m actions sb_uuid) d g
          actions sb_uuid t.next_id) ∧
    (desired_flow_lookup t (ovn_flow_init table_id priority cookie m actions) none = none →
      AddsFlow t (ofctrl_add_or_append_flow t table_id priority cookie m actions sb_uuid)
        (ovn_flow_init table_id priority cookie m actions) sb_uuid t.next_id (t.next_id + 1)) := by
  refine ⟨fun d hd => ?_, fun hd => ?_⟩
  · obtain ⟨-, g, hg, hk, -⟩ := desired_flow_lookup_some hd
    refine ⟨g, hg, hk, ?_⟩
    have := appendsTo_modify_link hw.1.flows hg actions sb_uuid
    simpa [ofctrl_add_or_append_flow, desired_flow_alloc, hd] using this
  · have := addsFlow_insert_link hw.1.flows (ovn_flow_init table_id priority cookie m actions) sb_uuid
    simpa [ofctrl_add_or_append_flow, desired_flow_alloc, hd] using this

end AddOrAppend

/-- The arguments of a call of `ofctrl_add_or_append_flow`. -/
structure AppendCall where
  table_id : UInt8
  priority : UInt16
  cookie : UInt64
  m : Minimatch
  actions : List UInt8
  sb_uuid : Uuid

namespace AppendCall

def key (c : AppendCall) : FlowKey := ⟨c.table_id, c.priority, c.m⟩

/-- The call on a table. -/
def run (t : OvnDesiredFlowTable) (c : AppendCall) : OvnDesiredFlowTable :=
  ofctrl_add_or_append_flow t c.table_id c.priority c.cookie c.m c.actions c.sb_uuid

end AppendCall

/-- The flows of key `k` in `t`: none when `o` is `none`, and exactly one, with the actions
`a`, when `o` is `some a`. -/
def KeyFlow (t : OvnDesiredFlowTable) (k : FlowKey) : Option (List UInt8) → Prop
  | none => ∀ d g, t.flow_heap d = some g → g.flow.key ≠ k
  | some a => ∃ d g, t.flow_heap d = some g ∧ g.flow.key = k ∧ g.flow.ofpacts = a ∧
      ∀ d' g', t.flow_heap d' = some g' → g'.flow.key = k → d' = d

/-- What the calls of key `k` leave as its actions, from `o` (`none`: no flow yet). -/
def appended (k : FlowKey) (o : Option (List UInt8)) (cs : List AppendCall) : Option (List UInt8) :=
  cs.foldl (fun o c => if c.key = k then some (o.getD [] ++ c.actions) else o) o

section KeyFlow

variable {t t' : OvnDesiredFlowTable} {k : FlowKey} {d : Nat}

theorem KeyFlow.of_other {o : Option (List UInt8)} (h : KeyFlow t k o)
    (hs : ∀ d', d' ≠ d → t'.flow_heap d' = t.flow_heap d')
    (h0 : ∀ g, t.flow_heap d = some g → g.flow.key ≠ k)
    (h1 : ∀ g, t'.flow_heap d = some g → g.flow.key ≠ k) : KeyFlow t' k o := by
  cases o with
  | none =>
    intro d' g hg
    by_cases e : d' = d
    · exact h1 g (e ▸ hg)
    · exact h d' g ((hs d' e).symm.trans hg)
  | some a =>
    obtain ⟨d0, g0, hg0, hk, ha, hu⟩ := h
    have ne : d0 ≠ d := fun e => h0 g0 (e ▸ hg0) hk
    refine ⟨d0, g0, (hs d0 ne).trans hg0, hk, ha, fun d' g' hg' hk' => ?_⟩
    by_cases e : d' = d
    · exact absurd hk' (h1 g' (e ▸ hg'))
    · exact hu d' g' ((hs d' e).symm.trans hg') hk'

theorem KeyFlow.of_only (hs : ∀ d', d' ≠ d → t'.flow_heap d' = t.flow_heap d')
    (h0 : ∀ d' g, d' ≠ d → t.flow_heap d' = some g → g.flow.key ≠ k) {g : DesiredFlow}
    (hg : t'.flow_heap d = some g) (hk : g.flow.key = k) : KeyFlow t' k (some g.flow.ofpacts) :=
  ⟨d, g, hg, hk, rfl, fun d' g' hg' hk' => by_contra fun e =>
    h0 d' g' e ((hs d' e).symm.trans hg') hk'⟩

/-- One call of `ofctrl_add_or_append_flow` appends its actions to the flow of its key. -/
theorem keyFlow_run (hw : WellLinked t) {o : Option (List UInt8)} (h : KeyFlow t k o)
    (c : AppendCall) :
    KeyFlow (c.run t) k (if c.key = k then some (o.getD [] ++ c.actions) else o) := by
  have hc := add_or_append_flow_cases hw c.table_id c.priority c.cookie c.m c.actions c.sb_uuid
  have iff := desired_flow_lookup_isSome hw.1.flows
    (ovn_flow_init_hashOk c.table_id c.priority c.cookie c.m c.actions) none
  unfold AppendCall.run
  cases hl : desired_flow_lookup t (ovn_flow_init c.table_id c.priority c.cookie c.m c.actions) none with
  | some d =>
    obtain ⟨g, hg, hk, ha⟩ := hc.1 d hl
    split_ifs with e
    · -- the flow of the key is the one flow of `k`
      cases o with
      | none => exact absurd (e ▸ hk) (h d g hg)
      | some a =>
        obtain ⟨d0, g0, hg0, -, ha0, hu⟩ := h
        obtain rfl := hu d g hg (e ▸ hk)
        rw [hg0] at hg; cases hg
        have := KeyFlow.of_only ha.flows (fun d' g' ne hg' hk' => ne (hu d' g' hg' hk')) ha.flow
          (by simpa [AppendCall.key] using e ▸ hk)
        simpa [ha0] using this
    · refine h.of_other ha.flows (fun g' hg' => ?_) (fun g' hg' => ?_)
      · rw [hg] at hg'; cases hg'; exact hk ▸ e
      · rw [ha.flow] at hg'; cases hg'; exact hk ▸ e
  | none =>
    have ha := hc.2 hl
    have hno : ∀ d g, t.flow_heap d = some g → g.flow.key ≠ c.key := fun d g hg hk =>
      by simpa [hl] using iff.2 ⟨d, g, hg, hk, fun _ e => nomatch e⟩
    split_ifs with e
    · cases o with
      | none =>
        simpa using KeyFlow.of_only ha.flows (fun d' g _ hg => e ▸ hno d' g hg) ha.flow
          (by simpa [AppendCall.key] using e)
      | some a =>
        obtain ⟨d0, g0, hg0, hk0, -⟩ := h
        exact absurd (e ▸ hk0) (hno d0 g0 hg0)
    · refine h.of_other ha.flows (fun g hg => by rw [ha.fresh] at hg; cases hg) fun g hg => ?_
      rw [ha.flow] at hg; cases hg
      simpa [AppendCall.key] using e

theorem keyFlow_runs : ∀ (cs : List AppendCall) {t : OvnDesiredFlowTable} {o : Option (List UInt8)},
    WellLinked t → KeyFlow t k o → KeyFlow (cs.foldl AppendCall.run t) k (appended k o cs)
  | [], _, _, _, h => h
  | c :: cs, t, o, hw, h => by
    have hw' : WellLinked (c.run t) := wellLinked_add_or_append_flow hw ..
    exact keyFlow_runs cs hw' (keyFlow_run hw h c)

theorem appended_of_none (k : FlowKey) (o : Option (List UInt8)) :
    ∀ cs : List AppendCall, (∀ c ∈ cs, c.key ≠ k) → appended k o cs = o
  | [], _ => rfl
  | c :: cs, h => by
    rw [appended, List.foldl_cons, if_neg (h c (List.mem_cons_self _ _))]
    exact appended_of_none k o cs fun c' hc => h c' (List.mem_cons_of_mem _ hc)

theorem appended_eq (k : FlowKey) : ∀ (cs : List AppendCall) (o : Option (List UInt8)),
    (∃ c ∈ cs, c.key = k) →
      appended k o cs = some (o.getD [] ++ (cs.filter (·.key = k)).flatMap (·.actions))
  | [], _, h => by simp at h
  | c :: cs, o, h => by
    rw [appended, List.foldl_cons, ← appended]
    by_cases e : c.key = k
    · rw [if_pos e]
      by_cases hk : ∃ c ∈ cs, c.key = k
      · simp [appended_eq k cs _ hk, e]
      · push_neg at hk
        have hf : cs.filter (·.key = k) = [] := List.filter_eq_nil_iff.2 fun c hc => by simpa using hk c hc
        simp [appended_of_none k _ cs hk, e, hf]
    · rw [if_neg e, appended_eq k cs o (by simpa [e] using h)]
      simp [e]

end KeyFlow

/-- `ofctrl_add_or_append_flow` on every reachable table. When a live flow has the key, the
one `desired_flow_lookup` returns gets the new actions appended to its own, byte for byte,
and a link to the uuid, with its key and cookie kept, and nothing else changes; otherwise a
new flow with the key, actions and cookie is added, linked only to the uuid. So a key that
only this call creates ends, after any sequence of calls, with one flow whose actions are
those of the calls of its key, in call order. -/
theorem add_or_append_flow_spec {e : Ofctrl} (h : Reachable e) (table_id : UInt8)
    (priority : UInt16) (cookie : UInt64) (m : Minimatch) (actions : List UInt8) (sb_uuid : Uuid) :
    let t := e.tables.desired
    let t' := ofctrl_add_or_append_flow t table_id priority cookie m actions sb_uuid
    ((∃ d g, t.flow_heap d = some g ∧ g.flow.key = ⟨table_id, priority, m⟩) →
      ∃ d g, desired_flow_lookup t (ovn_flow_init table_id priority cookie m actions) none = some d ∧
        t.flow_heap d = some g ∧ g.flow.key = ⟨table_id, priority, m⟩ ∧
        AppendsTo t t' d g actions sb_uuid t.next_id) ∧
    ((¬∃ d g, t.flow_heap d = some g ∧ g.flow.key = ⟨table_id, priority, m⟩) →
      ∃ d r, AddsFlow t t' (ovn_flow_init table_id priority cookie m actions) sb_uuid d r) ∧
    ∀ (k : FlowKey) (cs : List AppendCall), (∀ d g, t.flow_heap d = some g → g.flow.key ≠ k) →
      (∃ c ∈ cs, c.key = k) → ∃ d g, (cs.foldl AppendCall.run t).flow_heap d = some g ∧
        g.flow.key = k ∧ g.flow.ofpacts = (cs.filter (·.key = k)).flatMap (·.actions) ∧
        ∀ d' g', (cs.foldl AppendCall.run t).flow_heap d' = some g' → g'.flow.key = k → d' = d := by
  intro t t'
  have hw : WellLinked t := (reachable_tablesOk h).desired
  have hc := add_or_append_flow_cases hw table_id priority cookie m actions sb_uuid
  have iff := desired_flow_lookup_isSome hw.1.flows
    (ovn_flow_init_hashOk table_id priority cookie m actions) none
  refine ⟨fun ⟨d, g, hg, hk⟩ => ?_, fun hn => ?_, fun k cs hk hcs => ?_⟩
  · obtain ⟨d', hd'⟩ := Option.isSome_iff_exists.1 (iff.2 ⟨d, g, hg, hk, fun _ e => nomatch e⟩)
    obtain ⟨g', hg', hk', ha⟩ := hc.1 d' hd'
    exact ⟨d', g', hd', hg', hk', ha⟩
  · cases hl : desired_flow_lookup t (ovn_flow_init table_id priority cookie m actions) none with
    | some d' =>
      obtain ⟨d, g, hg, hk, -⟩ := iff.1 (by simp [hl])
      exact absurd ⟨d, g, hg, hk⟩ hn
    | none => exact ⟨_, _, hc.2 hl⟩
  · have := keyFlow_runs cs hw (show KeyFlow t k none from hk)
    rwa [appended_eq k cs none hcs, Option.getD_none, List.nil_append] at this

/-- Two sources append to one key of the empty table: one flow, with actions `[1, 2]`. -/
theorem add_or_append_two_sources :
    ∃ d g, (([⟨0, 100, 7, ipMatch, [1], 1⟩, ⟨0, 100, 8, ipMatch, [2], 2⟩] : List AppendCall).foldl
      AppendCall.run ofctrl_init.tables.desired).flow_heap d = some g ∧
      g.flow.key = ⟨0, 100, ipMatch⟩ ∧ g.flow.ofpacts = [1, 2] := by
  obtain ⟨d, g, h1, h2, h3, -⟩ := (add_or_append_flow_spec .init 0 100 7 ipMatch [1] 1).2.2
    ⟨0, 100, ipMatch⟩ [⟨0, 100, 7, ipMatch, [1], 1⟩, ⟨0, 100, 8, ipMatch, [2], 2⟩]
    (fun _ _ h => nomatch h) (by decide)
  exact ⟨d, g, h1, h2, h3.trans (by decide)⟩

/-! ## Removing the flows of a uuid -/

/-- The flow `g` once the nodes `rs` are gone: it keeps its other nodes, and it is removed
when it has none left. -/
def dropRefs (rs : List Nat) (g : DesiredFlow) : Option DesiredFlow :=
  if g.references.filter (· ∉ rs) = [] then none
  else some { g with references := g.references.filter (· ∉ rs) }

theorem filter_not_mem_append {l : List Nat} (hl : l.Nodup) (done : List Nat) (r : Nat) :
    (l.filter (· ∉ done)).erase r = l.filter (· ∉ done ++ [r]) := by
  rw [(hl.filter _).erase_eq_filter, List.filter_filter]
  exact List.filter_congr fun x _ => by by_cases hx : x = r <;> simp [hx]

section RemoveRefs

variable {ft0 ft ft' : FlowTables} (hfl : FlowLinks [] [] ft0.desired)

include hfl

/-- One turn of `remove_flows_from_sb_to_flow`: node `r` of `ft0` goes, and its flow loses
it, or goes with it when it was its last. -/
theorem removeRef_drops {done : List Nat} {r : Nat} (hr : r ∉ done)
    (hlive : (ft0.desired.ref_heap r).isSome)
    (q1 : ∀ r', ft.desired.ref_heap r' = if r' ∈ done then none else ft0.desired.ref_heap r')
    (q2 : ∀ d, ft.desired.flow_heap d = (ft0.desired.flow_heap d).bind (dropRefs done))
    (hs : removeRef ft r = some ft') :
    (∀ r', ft'.desired.ref_heap r' = if r' ∈ done ++ [r] then none else ft0.desired.ref_heap r') ∧
      ∀ d, ft'.desired.flow_heap d = (ft0.desired.flow_heap d).bind (dropRefs (done ++ [r])) := by
  obtain ⟨s0, hs0⟩ := Option.isSome_iff_exists.1 hlive
  obtain ⟨g0, hg0, hrm⟩ := hfl.ref_flow r s0 hs0
  obtain ⟨t1, d, f, hd, hcase⟩ := removeRef_cases hs
  obtain ⟨s, g, hs', rfl, hg, rfl, rfl⟩ := dropRef_some hd
  rw [q1, if_neg hr, hs0, Option.some.injEq] at hs'
  subst hs'
  have hne : g0.references.filter (· ∉ done) ≠ [] :=
    List.ne_nil_of_mem (List.mem_filter.2 ⟨hrm, by simpa using hr⟩)
  rw [q2, hg0, Option.some_bind, dropRefs, if_neg hne, Option.some.injEq] at hg
  subst hg
  have hrefs : (g0.references.filter (· ∉ done)).erase r = g0.references.filter (· ∉ done ++ [r]) :=
    filter_not_mem_append (hfl.refs_nodup _ g0 hg0) done r
  -- the other flows do not hold `r`
  have other : ∀ d', d' ≠ s0.flow →
      (ft0.desired.flow_heap d').bind (dropRefs done) =
        (ft0.desired.flow_heap d').bind (dropRefs (done ++ [r])) := by
    intro d' ne
    cases hd' : ft0.desired.flow_heap d' with
    | none => rfl
    | some g' =>
      have : g'.references.filter (· ∉ done) = g'.references.filter (· ∉ done ++ [r]) :=
        List.filter_congr fun x hx => by
          have : x ≠ r := by
            rintro rfl
            obtain ⟨s', hs', e⟩ := hfl.flow_ref d' g' hd' x hx
            rw [hs0, Option.some.injEq] at hs'
            exact ne (e ▸ hs' ▸ rfl)
          simp [this]
      simp only [Option.some_bind, dropRefs, this]
  -- the node goes, and its flow loses it, or goes with it
  have hstate : ft'.desired.ref_heap = Function.update ft.desired.ref_heap r none ∧
      ∀ d', ft'.desired.flow_heap d' = if d' = s0.flow then
        (if g0.references.filter (· ∉ done ++ [r]) = [] then none
         else some { g0 with references := g0.references.filter (· ∉ done ++ [r]) })
        else ft.desired.flow_heap d' := by
    rcases hcase with ⟨hnil, h2⟩ | ⟨hnil, rfl⟩
    · rw [hrefs] at hnil
      obtain ⟨-, -, -, e⟩ := removeDesired_desired h2
      refine ⟨by rw [e]; rfl, fun d' => ?_⟩
      rw [removeDesired_heap h2]
      simp only [OvnDesiredFlowTable.setFlow_heap, hnil, if_true]
      split_ifs <;> rfl
    · rw [hrefs] at hnil
      exact ⟨rfl, fun d' => by simp only [OvnDesiredFlowTable.setFlow_heap, hnil, if_false, hrefs]⟩
  refine ⟨fun r' => ?_, fun d' => ?_⟩
  · rw [hstate.1, Function.update_apply, q1]
    by_cases e : r' = r <;> simp [e, hr]
  · by_cases e : d' = s0.flow
    · subst e
      rw [hstate.2, if_pos rfl, hg0, Option.some_bind, dropRefs]
    · rw [hstate.2, if_neg e, q2, other d' e]

/-- The loop of `remove_flows_from_sb_to_flow` over live nodes `rs`: the nodes go, each flow
keeps its other nodes, and a flow left with none is removed. -/
theorem removeRefs_drops (hR : Referenced [] ft0.desired) {rs : List Nat} (hnd : rs.Nodup)
    (hlive : ∀ r ∈ rs, (ft0.desired.ref_heap r).isSome)
    (hl : rs.foldlM removeRef ft0 = some ft') :
    (∀ r, ft'.desired.ref_heap r = if r ∈ rs then none else ft0.desired.ref_heap r) ∧
      ∀ d, ft'.desired.flow_heap d = (ft0.desired.flow_heap d).bind (dropRefs rs) := by
  obtain ⟨done, e, q⟩ := foldlM_induct (fun rest (ft1 : FlowTables) => ∃ done, done ++ rest = rs ∧
      (∀ r, ft1.desired.ref_heap r = if r ∈ done then none else ft0.desired.ref_heap r) ∧
      ∀ d, ft1.desired.flow_heap d = (ft0.desired.flow_heap d).bind (dropRefs done))
    (fun r rest ft1 ft2 ⟨done, e, q1, q2⟩ hs => by
      have hr : r ∉ done := fun hm => by
        have := e ▸ hnd
        exact (List.nodup_append.1 this).2.2 hm (List.mem_cons_self _ _)
      exact ⟨done ++ [r], by simp [← e], removeRef_drops hfl hr
        (hlive r (e ▸ List.mem_append_right _ (List.mem_cons_self _ _))) q1 q2 hs⟩)
    ⟨[], rfl, fun r => by simp, fun d => by
      cases hd : ft0.desired.flow_heap d with
      | none => rfl
      | some g => simp [dropRefs, hR d g hd (List.not_mem_nil d)]⟩ hl
  rw [List.append_nil] at e
  exact e ▸ q

end RemoveRefs

/-- The uuid a node names, while it is live. -/
def refUuid (t : OvnDesiredFlowTable) (r : Nat) : Option Uuid := (t.ref_heap r).map (·.sb_uuid)

/-- `ft'` is `ft` without the links of `u`: no node and no entry for `u` is left; a flow
with a link to another uuid stays, with its other links, its key, actions, cookie and
installed link; a flow without one is gone from the heap and from `match_flow_table`, and
no installed flow names it; no flow appears; the nodes and entries of the other uuids are
as they were. -/
structure RemovesUuid (ft ft' : FlowTables) (u : Uuid) : Prop where
  no_ref : ∀ r s, ft'.desired.ref_heap r = some s → s.sb_uuid ≠ u
  no_entry : sb_to_flow_find ft'.desired.uuid_flow_table u = none
  kept : ∀ d g, ft.desired.flow_heap d = some g → (∃ v, v ≠ u ∧ LinksTo ft.desired g v) →
    ft'.desired.flow_heap d = some { g with
      references := g.references.filter fun r => refUuid ft.desired r ≠ some u }
  removed : ∀ d g, ft.desired.flow_heap d = some g → (¬∃ v, v ≠ u ∧ LinksTo ft.desired g v) →
    ft'.desired.flow_heap d = none ∧ d ∉ ft'.desired.match_flow_table ∧
      ∀ i f, ft'.installed.flow_heap i = some f → d ∉ f.desired_refs ∧ f.desired_flow ≠ some d
  no_new : ∀ d, ft.desired.flow_heap d = none → ft'.desired.flow_heap d = none
  refs : ∀ r s, ft.desired.ref_heap r = some s → s.sb_uuid ≠ u → ft'.desired.ref_heap r = some s
  entries : ∀ v, v ≠ u →
    sb_to_flow_find ft'.desired.uuid_flow_table v = sb_to_flow_find ft.desired.uuid_flow_table v

theorem sb_to_flow_find_eraseEntry {u v : Uuid} (ne : v ≠ u) :
    ∀ l : List SbToFlow, sb_to_flow_find (eraseEntry l u) v = sb_to_flow_find l v
  | [] => rfl
  | a :: l => by
    have ih := sb_to_flow_find_eraseEntry ne l
    simp only [eraseEntry, sb_to_flow_find] at ih ⊢
    by_cases e : a.sb_uuid = u
    · simp [List.eraseP_cons, e, List.find?_cons, Ne.symm ne]
    · have hb : (a.sb_uuid == u) = false := by simpa using e
      rw [List.eraseP_cons, hb, cond_false, List.find?_cons, List.find?_cons, ih]

section Removes

variable {ft ft' : FlowTables} {u : Uuid}

/-- Removing the nodes `rs`, which are the nodes of `u`, and `u`'s entry. -/
theorem removesUuid_of_drops (hw : WellLinked ft.desired) (hw' : WellLinked ft'.desired)
    (hl' : LinksOk ft') {rs : List Nat}
    (hrs : ∀ r s, ft.desired.ref_heap r = some s → (r ∈ rs ↔ s.sb_uuid = u))
    (q1 : ∀ r, ft'.desired.ref_heap r = if r ∈ rs then none else ft.desired.ref_heap r)
    (q2 : ∀ d, ft'.desired.flow_heap d = (ft.desired.flow_heap d).bind (dropRefs rs))
    (hu : ft'.desired.uuid_flow_table = eraseEntry ft.desired.uuid_flow_table u) :
    RemovesUuid ft ft' u := by
  -- on a live flow, dropping the nodes `rs` is dropping the links to `u`
  have hfilter : ∀ d g, ft.desired.flow_heap d = some g →
      g.references.filter (· ∉ rs) = g.references.filter fun r => refUuid ft.desired r ≠ some u :=
    fun d g hg => List.filter_congr fun r hr => by
      obtain ⟨s, hs, -⟩ := hw.1.flows.flow_ref d g hg r hr
      simp [refUuid, hs, hrs r s hs]
  have hother : ∀ d g, ft.desired.flow_heap d = some g →
      (g.references.filter (· ∉ rs) ≠ [] ↔ ∃ v, v ≠ u ∧ LinksTo ft.desired g v) := by
    intro d g hg
    rw [hfilter d g hg, Ne, List.filter_eq_nil_iff]
    push_neg
    constructor
    · rintro ⟨r, hr, hne⟩
      obtain ⟨s, hs, -⟩ := hw.1.flows.flow_ref d g hg r hr
      exact ⟨s.sb_uuid, fun e => by simp [refUuid, hs, e] at hne, r, hr, s, hs, rfl⟩
    · rintro ⟨v, ne, r, hr, s, hs, rfl⟩
      exact ⟨r, hr, by simp [refUuid, hs, ne]⟩
  have hrs' : ∀ r s, ft.desired.ref_heap r = some s → s.sb_uuid ≠ u → r ∉ rs :=
    fun r s hs ne hm => ne ((hrs r s hs).1 hm)
  have hdead : ∀ d, ft'.desired.flow_heap d = none → d ∉ ft'.desired.match_flow_table ∧
      ∀ i f, ft'.installed.flow_heap i = some f → d ∉ f.desired_refs ∧ f.desired_flow ≠ some d := by
    intro d hd
    have notRef : ∀ i f, ft'.installed.flow_heap i = some f → d ∉ f.desired_refs := fun i f hf hm => by
      obtain ⟨g, hg, -⟩ := hl'.refs.refs_linked i f hf d hm
      simp [hd] at hg
    refine ⟨fun hm => by simpa [hd] using (hw'.1.flows.live d).2 hm, fun i f hf => ⟨notRef i f hf,
      fun hp => notRef i f hf (List.mem_of_mem_head? (hl'.refs.primary i f hf ▸ hp))⟩⟩
  refine ⟨fun r s hs => ?_, ?_, fun d g hg ho => ?_, fun d g hg ho => ?_, fun d hd => ?_,
    fun r s hs ne => ?_, fun v ne => ?_⟩
  · rw [q1] at hs
    split_ifs at hs with hm
    exact fun e => hm ((hrs r s hs).2 e)
  · rw [hu, Option.eq_none_iff_forall_not_mem]
    intro stf hf
    obtain ⟨hm, e⟩ := sb_to_flow_find_some hf
    exact ((mem_eraseEntry hw.1.entries.uuids_nodup).1 hm).2 e
  · rw [q2, hg, Option.some_bind, dropRefs, if_neg ((hother d g hg).2 ho), hfilter d g hg]
  · have hd : ft'.desired.flow_heap d = none := by
      rw [q2, hg, Option.some_bind, dropRefs, if_pos (not_not.1 (mt (hother d g hg).1 ho))]
    exact ⟨hd, hdead d hd⟩
  · rw [q2, hd]; rfl
  · rw [q1, if_neg (hrs' r s hs ne), hs]
  · rw [hu, sb_to_flow_find_eraseEntry ne]

end Removes

/-- `ofctrl_remove_flows` on every reachable table returns, and removes exactly the links of
the uuid: no link and no entry of it is left; a flow that had a link to another uuid stays
with its other links, key, actions and cookie; every other flow is gone from the table and
from its installed flow; the links and entries of the other uuids are as they were. -/
theorem remove_flows_spec {e : Ofctrl} (h : Reachable e) (u : Uuid) :
    ∃ e', ofctrl_remove_flows e u = some e' ∧ RemovesUuid e.tables e'.tables u := by
  have ht := reachable_tablesOk h
  obtain ⟨ft', hr, hl'⟩ := removeFlowsOf_spec ht.desired ht.links u
  refine ⟨_, by simp [ofctrl_remove_flows, hr]; rfl, ?_⟩
  have hw' := wellLinked_removeFlowsOf ht.desired hr
  have hw := ht.desired
  unfold removeFlowsOf at hr
  split at hr
  · rename_i stf hf
    obtain ⟨hs, rfl⟩ := sb_to_flow_find_some hf
    obtain ⟨ft1, h1, h2⟩ := Option.bind_eq_some.1 hr
    cases h2
    have loop := removeRefs_drops hw.1.flows hw.2 (hw.1.entries.entries_nodup stf hs)
      (fun r hm => by
        obtain ⟨s, hs', -⟩ := hw.1.entries.entry_ref stf hs r hm
        simp [hs']) h1
    have hu1 : ft1.desired.uuid_flow_table = e.tables.desired.uuid_flow_table :=
      foldlM_inv (fun ft1 : FlowTables => ft1.desired.uuid_flow_table = e.tables.desired.uuid_flow_table)
        (fun _ _ _ e hr => (removeRef_uuid hr).trans e) rfl h1
    refine removesUuid_of_drops hw hw' hl' (fun r s hr => ⟨fun hm => ?_, fun e => ?_⟩)
      loop.1 loop.2 (by simp [hu1])
    · obtain ⟨s', hs', e, -⟩ := hw.1.entries.entry_ref stf hs r hm
      rw [hr, Option.some.injEq] at hs'
      exact hs' ▸ e
    · obtain ⟨stf', hs', e', hm⟩ := hw.1.entries.ref_entry r s hr (List.not_mem_nil _)
      rwa [entry_unique hw.1.entries.uuids_nodup hs' hs (e'.trans e)] at hm
  · rename_i hf
    cases hr
    have none : ∀ r s, e.tables.desired.ref_heap r = some s → s.sb_uuid ≠ u := fun r s hr e' => by
      obtain ⟨stf, hs, e'', -⟩ := hw.1.entries.ref_entry r s hr (List.not_mem_nil _)
      exact sb_to_flow_find_none hf (List.mem_map.2 ⟨stf, hs, e''.trans e'⟩)
    refine removesUuid_of_drops hw hw' hl'
      (fun r s hr => (iff_of_false (List.not_mem_nil r) (none r s hr) : r ∈ ([] : List Nat) ↔ _))
      (fun r => rfl) (fun d => ?_) ?_
    · cases hd : e.tables.desired.flow_heap d with
      | none => rfl
      | some g => simp [dropRefs, hw.2 d g hd (List.not_mem_nil d)]
    · refine (List.eraseP_of_forall_not fun stf hs e' => ?_).symm
      exact sb_to_flow_find_none hf (List.mem_map.2 ⟨stf, hs, by simpa using e'⟩)

/-- Removing uuid 1 from the table of `onePut`. -/
theorem remove_flows_onePut :
    ∃ e, Reachable e ∧ e.tables.desired.match_flow_table = [0] ∧
      ∃ e', ofctrl_remove_flows e 1 = some e' ∧ RemovesUuid e.tables e'.tables 1 :=
  ⟨_, reachable_of_isSome onePut (by decide), by decide,
    remove_flows_spec (reachable_of_isSome onePut (by decide)) 1⟩

/-! ## Adding, then removing -/

theorem desired_flow_lookup_no_entry {t : OvnDesiredFlowTable} (hw : WellLinked t) {u : Uuid}
    (hu : sb_to_flow_find t.uuid_flow_table u = none) {target : OvnFlow} (ht : target.HashOk) :
    desired_flow_lookup t target (some u) = none := by
  rw [← Option.not_isSome_iff_eq_none, desired_flow_lookup_isSome hw.1.flows ht]
  rintro ⟨d, g, -, -, hl⟩
  obtain ⟨r, -, s, hr, rfl⟩ := hl _ rfl
  obtain ⟨stf, hs, he, -⟩ := hw.1.entries.ref_entry r s hr (List.not_mem_nil _)
  exact sb_to_flow_find_none hu (List.mem_map.2 ⟨stf, hs, he⟩)

/-- For a uuid with no entry, the flow `ofctrl_check_and_add_flow` adds gets the node
`next_id` and its link the node after it; removing the uuid's flows frees both and erases the
entry, which leaves the table as it was but for the id counter. -/
theorem removeFlowsOf_check_and_add {t : OvnDesiredFlowTable} (hw : WellLinked t) {u : Uuid}
    (hu : sb_to_flow_find t.uuid_flow_table u = none) (it : InstalledTable) (table_id : UInt8)
    (priority : UInt16) (cookie : UInt64) (m : Minimatch) (actions : List UInt8)
    (log_duplicate_flow : Bool) :
    removeFlowsOf ⟨ofctrl_check_and_add_flow t table_id priority cookie m actions u
      log_duplicate_flow, it⟩ u = some ⟨{ t with next_id := t.next_id + 2 }, it⟩ := by
  have hl := desired_flow_lookup_no_entry hw hu
    (ovn_flow_init_hashOk table_id priority cookie m actions)
  have hu' : t.uuid_flow_table.find? (·.sb_uuid == u) = none := hu
  obtain ⟨h0, -⟩ := hw.1.flows.fresh t.next_id le_rfl
  obtain ⟨-, h1⟩ := hw.1.flows.fresh (t.next_id + 1) (Nat.le_succ _)
  simp only [ofctrl_check_and_add_flow, desired_flow_alloc, hl]
  simp [removeFlowsOf, link_flow_to_sb_uuid, hu', sb_to_flow_find, remove_flows_from_sb_to_flow,
    removeRef, dropRef, removeDesired, desired_flow_destroy, OvnDesiredFlowTable.setFlow,
    OvnDesiredFlowTable.modifyFlow, eraseEntry, link_flow_to_sb, insertDesired, h0, h1]

/-- Removing the flows of a uuid undoes adding a flow for it, at the level the hash maps keep:
the same flows, nodes and entries. From every reachable state, for a uuid that no flow is
linked to, `ofctrl_check_and_add_flow` of any flow for it and then `ofctrl_remove_flows` of it
leave the installed table as it was, and the desired table with the same flows, the same
nodes, and `match_flow_table` and `uuid_flow_table` holding the same members; only the id
counter has moved past the flow's node and its link's. -/
theorem remove_flows_undoes_check_and_add {e : Ofctrl} (h : Reachable e) {u : Uuid}
    (hu : sb_to_flow_find e.tables.desired.uuid_flow_table u = none) (table_id : UInt8)
    (priority : UInt16) (cookie : UInt64) (m : Minimatch) (actions : List UInt8)
    (log_duplicate_flow : Bool) :
    ∃ e', exec e [.desired (.check_and_add table_id priority cookie m actions u
        log_duplicate_flow), .desired (.remove_flows u)] = some e' ∧
      e'.tables.installed = e.tables.installed ∧
      e'.tables.desired.flow_heap = e.tables.desired.flow_heap ∧
      e'.tables.desired.ref_heap = e.tables.desired.ref_heap ∧
      e'.tables.desired.match_flow_table.Perm e.tables.desired.match_flow_table ∧
      e'.tables.desired.uuid_flow_table.Perm e.tables.desired.uuid_flow_table ∧
      e'.tables.desired.next_id = e.tables.desired.next_id + 2 := by
  simp only [exec, step, desiredOp, ofctrl_remove_flows, Option.bind_eq_bind, Option.some_bind,
    removeFlowsOf_check_and_add (reachable_tablesOk h).desired hu]
  exact ⟨_, rfl, rfl, rfl, rfl, List.Perm.refl _, List.Perm.refl _, rfl⟩

/-- After `onePut`, uuid 2 has no flow: adding a flow of key 90 for it and removing its flows
leaves the tables of `onePut`, with the id counter two nodes on. -/
theorem onePut_add_then_remove :
    ∃ e, Reachable e ∧ sb_to_flow_find e.tables.desired.uuid_flow_table 2 = none ∧
      ∃ e', exec e [.desired (.check_and_add 0 90 8 ipMatch [2] 2 true),
          .desired (.remove_flows 2)] = some e' ∧
        e'.tables.installed = e.tables.installed ∧
        e'.tables.desired.flow_heap = e.tables.desired.flow_heap ∧
        e'.tables.desired.ref_heap = e.tables.desired.ref_heap ∧
        e'.tables.desired.match_flow_table.Perm e.tables.desired.match_flow_table ∧
        e'.tables.desired.uuid_flow_table.Perm e.tables.desired.uuid_flow_table ∧
        e'.tables.desired.next_id = e.tables.desired.next_id + 2 :=
  ⟨_, reachable_of_isSome onePut (by decide), by decide,
    remove_flows_undoes_check_and_add (reachable_of_isSome onePut (by decide)) (by decide)
      0 90 8 ipMatch [2] true⟩

/-! ## Clearing the table -/

section Clear

variable {ft ft' : FlowTables}

theorem WellLinked.empty_of_uuid {t : OvnDesiredFlowTable} (h : WellLinked t)
    (hu : t.uuid_flow_table = []) :
    (∀ r, t.ref_heap r = none) ∧ (∀ d, t.flow_heap d = none) ∧ t.match_flow_table = [] := by
  have refs : ∀ r, t.ref_heap r = none := fun r => Option.eq_none_iff_forall_not_mem.2 fun s hs => by
    obtain ⟨stf, hm, -⟩ := h.1.entries.ref_entry r s hs (List.not_mem_nil _)
    simp [hu] at hm
  have flows : ∀ d, t.flow_heap d = none := fun d => Option.eq_none_iff_forall_not_mem.2 fun g hg => by
    obtain ⟨r, hr⟩ := List.exists_mem_of_ne_nil _ (h.2 d g hg (List.not_mem_nil _))
    obtain ⟨s, hs, -⟩ := h.1.flows.flow_ref d g hg r hr
    simp [refs r] at hs
  exact ⟨refs, flows, List.eq_nil_iff_forall_not_mem.2 fun d hd => by
    simpa [flows d] using (h.1.flows.live d).2 hd⟩

theorem desired_clear_uuid (hr : ovn_desired_flow_table_clear ft = some ft') :
    ft'.desired.uuid_flow_table = [] :=
  foldlM_induct (fun rest (ft1 : FlowTables) => ft1.desired.uuid_flow_table = rest)
    (fun stf rest ft1 ft2 (hu : _ = _) h2 => show _ = _ by
      rw [remove_flows_from_sb_to_flow_uuid h2, hu]; simp [eraseEntry, List.eraseP_cons]) rfl hr

end Clear

/-- `ovn_desired_flow_table_clear` on every reachable table returns, and leaves both
`match_flow_table` and `uuid_flow_table` empty, no desired flow and no `sb_flow_ref` node
on their heaps (each flow was destroyed once: destroying a flow twice is an assert), and
every installed flow, with its flow data, linked to no desired flow and with no primary. -/
theorem desired_table_clear_spec {e : Ofctrl} (h : Reachable e) :
    ∃ ft', ovn_desired_flow_table_clear e.tables = some ft' ∧
      ft'.desired.match_flow_table = [] ∧ ft'.desired.uuid_flow_table = [] ∧
      (∀ d, ft'.desired.flow_heap d = none) ∧ (∀ r, ft'.desired.ref_heap r = none) ∧
      FlowsKept e.tables ft' ∧
      ∀ i f, ft'.installed.flow_heap i = some f → f.desired_refs = [] ∧ f.desired_flow = none := by
  have ht := reachable_tablesOk h
  obtain ⟨ft', hc, hl⟩ := desired_clear_spec ht.desired ht.links
  have hu := desired_clear_uuid hc
  obtain ⟨refs, flows, hm⟩ := (wellLinked_ovn_desired_flow_table_clear ht.desired hc).empty_of_uuid hu
  refine ⟨ft', hc, hm, hu, flows, refs, (floodStable_flowsKept _).of_desired_clear (fun _ => rfl) hc,
    fun i f hf => ?_⟩
  have hr : f.desired_refs = [] := List.eq_nil_iff_forall_not_mem.2 fun d hd => by
    obtain ⟨g, hg, -⟩ := hl.refs.refs_linked i f hf d hd
    simp [flows d] at hg
  exact ⟨hr, by rw [hl.refs.primary i f hf, hr]; rfl⟩

/-- Clearing the table of `onePut`. -/
theorem desired_table_clear_onePut :
    ∃ e, Reachable e ∧ e.tables.desired.match_flow_table = [0] ∧
      ∃ ft', ovn_desired_flow_table_clear e.tables = some ft' ∧
      ft'.desired.match_flow_table = [] ∧ ft'.desired.uuid_flow_table = [] ∧
      (∀ d, ft'.desired.flow_heap d = none) ∧ (∀ r, ft'.desired.ref_heap r = none) ∧
      FlowsKept e.tables ft' ∧
      ∀ i f, ft'.installed.flow_heap i = some f → f.desired_refs = [] ∧ f.desired_flow = none :=
  ⟨_, reachable_of_isSome onePut (by decide), by decide,
    desired_table_clear_spec (reachable_of_isSome onePut (by decide))⟩

end OvnOfctrl
