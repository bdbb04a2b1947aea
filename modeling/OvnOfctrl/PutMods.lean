-- The flow_mods of a reconciliation of `ofctrl_put`, exactly: one strict delete for each
-- installed flow whose key is no longer desired, one update for each installed flow whose
-- desired flow has other actions or another cookie, one add for each desired key with no
-- installed flow, and nothing else, then a barrier when anything was sent; and the links
-- between the two tables after it.
import OvnOfctrl.DesiredOps

namespace OvnOfctrl

/-! ## What a reconciliation owes the switch -/

/-- Whether a desired flow of `t` has key `k`. -/
def hasKey (t : OvnDesiredFlowTable) (k : FlowKey) : Bool :=
  t.match_flow_table.any fun d => (t.flow_heap d).any (·.flow.key = k)

/-- The flow of the desired flow that `desired_flow_lookup` returns for the key of `f`. -/
def lookupFlow (t : OvnDesiredFlowTable) (f : OvnFlow) : Option OvnFlow :=
  (desired_flow_lookup t f none).bind fun d => (t.flow_heap d).map (·.flow)

/-- The flow_mod a reconciliation owes installed flow `f`: a strict delete when no desired
flow has its key; when the desired flow `desired_flow_lookup` returns for its key has another
cookie, an add with that flow's actions and cookie; when it has other actions, a strict
modify to them; nothing when both agree. -/
def owedMod (t : OvnDesiredFlowTable) (f : OvnFlow) : Option FlowMod :=
  if !hasKey t f.key then some (.deleteStrict f.key)
  else (lookupFlow t f).bind fun g =>
    if g.cookie ≠ f.cookie then some (.add f.key g.ofpacts g.cookie)
    else if g.ofpacts ≠ f.ofpacts then some (.modifyStrict f.key g.ofpacts)
    else none

/-- The add a reconciliation owes for desired flow `d`: one when `d` is the flow that
`desired_flow_lookup` returns for its key and no installed flow has that key. So there is one
add for each key that has desired flows and no installed flow. -/
def owedAdd (ft : FlowTables) (d : Nat) : Option FlowMod :=
  (ft.desired.flow_heap d).bind fun g =>
    if desired_flow_lookup ft.desired g.flow none = some d ∧
        ∀ i ∈ ft.installed.installed_flows, (ft.installed.flow_heap i).all (·.flow.key ≠ g.flow.key)
    then some (.add g.flow.key g.flow.ofpacts g.flow.cookie) else none

/-- The flow_mods a reconciliation of `ft` owes: those of the installed flows, in the order
of `installed_flows`, then the adds, in the order of `match_flow_table`. -/
def owedMods (ft : FlowTables) : List FlowMod :=
  ft.installed.installed_flows.filterMap (fun i => (ft.installed.flow_heap i).bind (owedMod ft.desired ·.flow)) ++
    ft.desired.match_flow_table.filterMap (owedAdd ft)

/-! ## Readers of the desired table that ignore installed links -/

section Unlinked

variable {t t' : OvnDesiredFlowTable}

theorem desired_flow_lookup_unlinked (t : OvnDesiredFlowTable) (x : OvnFlow) (u : Option Uuid) :
    desired_flow_lookup t.unlinked x u = desired_flow_lookup t x u := by
  simp only [desired_flow_lookup, OvnDesiredFlowTable.unlinked]
  congr 1; funext d
  cases t.flow_heap d <;> rfl

theorem hasKey_unlinked (t : OvnDesiredFlowTable) (k : FlowKey) : hasKey t.unlinked k = hasKey t k := by
  simp only [hasKey, OvnDesiredFlowTable.unlinked]
  congr 1; funext d
  cases t.flow_heap d <;> rfl

theorem lookupFlow_unlinked (t : OvnDesiredFlowTable) (f : OvnFlow) :
    lookupFlow t.unlinked f = lookupFlow t f := by
  simp only [lookupFlow, desired_flow_lookup_unlinked]
  congr 1; funext d
  simp only [OvnDesiredFlowTable.unlinked, Option.map_map]
  rfl

theorem owedMod_unlinked (t : OvnDesiredFlowTable) (f : OvnFlow) :
    owedMod t.unlinked f = owedMod t f := by
  simp only [owedMod, hasKey_unlinked, lookupFlow_unlinked]

theorem desired_flow_lookup_of_unlinked (e : t'.unlinked = t.unlinked) (x : OvnFlow) (u : Option Uuid) :
    desired_flow_lookup t' x u = desired_flow_lookup t x u := by
  rw [← desired_flow_lookup_unlinked, e, desired_flow_lookup_unlinked]

theorem owedMod_of_unlinked (e : t'.unlinked = t.unlinked) (f : OvnFlow) :
    owedMod t' f = owedMod t f := by
  rw [← owedMod_unlinked, e, owedMod_unlinked]

theorem lookupFlow_of_unlinked (e : t'.unlinked = t.unlinked) (f : OvnFlow) :
    lookupFlow t' f = lookupFlow t f := by
  rw [← lookupFlow_unlinked, e, lookupFlow_unlinked]

theorem hasKey_iff {X Y : List Nat} (h : FlowLinks X Y t) (k : FlowKey) :
    hasKey t k = true ↔ ∃ d g, t.flow_heap d = some g ∧ g.flow.key = k := by
  simp only [hasKey, List.any_eq_true]
  constructor
  · rintro ⟨d, -, hd⟩
    cases hg : t.flow_heap d with
    | none => simp [hg] at hd
    | some g => exact ⟨d, g, hg, by simpa [hg] using hd⟩
  · rintro ⟨d, g, hg, hk⟩
    exact ⟨d, (h.live d).1 (by simp [hg]), by simp [hg, hk]⟩

theorem desired_flow_lookup_eq_none {X Y : List Nat} (h : FlowLinks X Y t) {x : OvnFlow} (hx : x.HashOk) :
    desired_flow_lookup t x none = none ↔ hasKey t x.key = false := by
  rw [← Option.not_isSome_iff_eq_none, desired_flow_lookup_isSome h hx, ← Bool.not_eq_true,
    hasKey_iff h]
  simp

end Unlinked

/-! ## The flow the lookup returns -/

section Lookup

variable {t : OvnDesiredFlowTable} {x g : OvnFlow}

theorem desired_flow_lookup_congr (t : OvnDesiredFlowTable) {y : OvnFlow} (hh : x.hash = y.hash)
    (hk : x.key = y.key) (u : Option Uuid) : desired_flow_lookup t x u = desired_flow_lookup t y u := by
  simp only [desired_flow_lookup, hh, hk]

theorem lookupFlow_congr (t : OvnDesiredFlowTable) {y : OvnFlow} (hh : x.hash = y.hash) (hk : x.key = y.key) :
    lookupFlow t x = lookupFlow t y := by
  simp only [lookupFlow, desired_flow_lookup_congr t hh hk]

theorem lookupFlow_some (h : lookupFlow t x = some g) :
    ∃ d dg, desired_flow_lookup t x none = some d ∧ t.flow_heap d = some dg ∧ dg.flow = g := by
  obtain ⟨d, hd, h⟩ := Option.bind_eq_some.1 h
  obtain ⟨dg, hdg, rfl⟩ := Option.map_eq_some'.1 h
  exact ⟨d, dg, hd, hdg, rfl⟩

theorem lookupFlow_key (hw : WellLinked t) (hx : x.HashOk) (h : lookupFlow t x = some g) :
    g.key = x.key ∧ g.hash = x.hash := by
  obtain ⟨d, dg, hd, hdg, rfl⟩ := lookupFlow_some h
  obtain ⟨-, dg', hdg', hk, -⟩ := desired_flow_lookup_some hd
  rw [hdg] at hdg'; cases hdg'
  exact ⟨hk, hash_eq_of_key_eq (hw.1.flows.hash_ok d dg hdg) hx hk⟩

theorem lookupFlow_self (hw : WellLinked t) (hx : x.HashOk) (h : lookupFlow t x = some g) :
    lookupFlow t g = some g := by
  obtain ⟨hk, hh⟩ := lookupFlow_key hw hx h
  rw [lookupFlow_congr t hh hk, h]

theorem lookupFlow_map_key (hw : WellLinked t) (hx : x.HashOk) :
    (lookupFlow t x).map (·.key) = if hasKey t x.key then some x.key else none := by
  cases hl : desired_flow_lookup t x none with
  | none => simp [lookupFlow, hl, (desired_flow_lookup_eq_none hw.1.flows hx).1 hl]
  | some d =>
    obtain ⟨-, g, hg, hk, -⟩ := desired_flow_lookup_some hl
    simp [lookupFlow, hl, hg, hk, (hasKey_iff hw.1.flows _).2 ⟨d, g, hg, hk⟩]

end Lookup

/-- Each installed flow of `it` is the flow of the desired flow of `t` that
`desired_flow_lookup` returns for its key. -/
def FromLookup (t : OvnDesiredFlowTable) (it : InstalledTable) : Prop :=
  ∀ i f, it.flow_heap i = some f → lookupFlow t f.flow = some f.flow

section FromLookup

variable {t : OvnDesiredFlowTable} {it it' : InstalledTable}

theorem FromLookup.congr (h : ∀ j, (it'.flow_heap j).map (·.flow) = (it.flow_heap j).map (·.flow))
    (hl : FromLookup t it) : FromLookup t it' := by
  intro j f' hj
  obtain ⟨f, hf, e⟩ := Option.map_eq_some'.1 ((h j).symm.trans (by rw [hj]; rfl))
  exact (show f.flow = f'.flow from e) ▸ hl j f hf

theorem FromLookup.insert {n : Nat} {fl : OvnFlow}
    (h : ∀ j, (it'.flow_heap j).map (·.flow) = if j = n then some fl else (it.flow_heap j).map (·.flow))
    (hfl : lookupFlow t fl = some fl) (hl : FromLookup t it) : FromLookup t it' := by
  intro j f' hj
  have := h j
  rw [hj, Option.map_some'] at this
  split_ifs at this
  · cases this; exact hfl
  · obtain ⟨f, hf, e⟩ := Option.map_eq_some'.1 this.symm
    exact e ▸ hl j f hf

end FromLookup

/-! ## One turn of each loop -/

section Turns

variable {ft ft' : FlowTables} {msgs msgs' : List OfpMsg} {i d : Nat}

theorem link_installed_to_desired_flow (h : link_installed_to_desired ft i d = some ft') (j : Nat) :
    (ft'.installed.flow_heap j).map (·.flow) = (ft.installed.flow_heap j).map (·.flow) := by
  unfold link_installed_to_desired at h
  split at h
  · cases h
  · rename_i f hf
    split_ifs at h <;> cases h
    · rfl
    all_goals by_cases e : j = i <;> simp [e, hf]

/-- What a turn of the loop over installed flows sends, and what it leaves of the flows: the
flow_mod owed to the flow; the flow becomes the flow `desired_flow_lookup` returns for its
key, and goes when there is none; every other flow is as it was. -/
theorem putInstalledTurn_trace {f : InstalledFlow} (hr : RefsOk ft) (hw : WellLinked ft.desired)
    (hf : ft.installed.flow_heap i = some f) (hh : f.flow.HashOk)
    (h : putInstalledTurn (ft, msgs) i = some (ft', msgs')) :
    msgs' = msgs ++ ((owedMod ft.desired f.flow).map .flowMod).toList ∧
    (ft'.installed.flow_heap i).map (·.flow) = lookupFlow ft.desired f.flow ∧
    ∀ j ≠ i, (ft'.installed.flow_heap j).map (·.flow) = (ft.installed.flow_heap j).map (·.flow) := by
  obtain ⟨ft1, hu, -, e1, u1⟩ := unlink_all_spec hr hf
  unfold putInstalledTurn at h
  simp only [hu, e1, InstalledTable.setFlow_heap, if_true, Option.bind_eq_bind, Option.some_bind,
    desired_flow_lookup_of_unlinked u1] at h
  cases hl : desired_flow_lookup ft.desired f.flow none with
  | none =>
    have hk := (desired_flow_lookup_eq_none hw.1.flows hh).1 hl
    simp only [hl] at h
    obtain ⟨ft2, hd, h⟩ := Option.bind_eq_some.1 h
    obtain ⟨-, -, -, -, rfl⟩ := installed_flow_destroy_some hd
    cases h
    refine ⟨by simp [owedMod, hk, installed_flow_del], by simp [lookupFlow, hl], fun j ne => by simp [ne, e1]⟩
  | some d =>
    simp only [hl] at h
    rw [Option.bind_eq_some] at h
    obtain ⟨g, hg, h⟩ := h
    obtain ⟨g0, hg0, eg, -, -⟩ := flow_of_unlinked u1 hg
    have hk : hasKey ft.desired f.flow.key = true := by
      rw [← Bool.not_eq_false, ← desired_flow_lookup_eq_none hw.1.flows hh, hl]; simp
    have hlf : lookupFlow ft.desired f.flow = some g.flow := by simp [lookupFlow, hl, hg0, eg]
    -- the desired flow has the installed flow's key and hash
    obtain ⟨hkg, hhg⟩ := lookupFlow_key hw hh hlf
    split_ifs at h with c <;> rw [Option.bind_eq_some] at h <;> obtain ⟨ft3, h3, h⟩ := h <;> cases h <;>
      have e3 := link_installed_to_desired_flow h3
    · refine ⟨?_, ?_, fun j ne => by simp [e3, ne, e1]⟩
      · by_cases hc : f.flow.cookie = g.flow.cookie
        · have ha : f.flow.ofpacts ≠ g.flow.ofpacts := by simpa [hc] using c
          simp [owedMod, hk, hlf, installed_flow_mod, hc, Ne.symm ha]
        · simp [owedMod, hk, hlf, installed_flow_mod, hc, Ne.symm hc]
      · simpa [e3, hlf, installed_flow_mod] using OvnFlow.eq_of_key_data
          (f := { f.flow with ofpacts := g.flow.ofpacts, cookie := g.flow.cookie }) hkg.symm hhg.symm rfl rfl
    · push_neg at c
      exact ⟨by simp [owedMod, hk, hlf, c], by simpa [e3, e1, hlf] using
        (OvnFlow.eq_of_key_data hkg hhg c.1.symm c.2.symm).symm, fun j ne => by simp [e3, ne, e1]⟩

/-- What a turn of the loop over desired flows sends, and what it leaves of the installed
flows: nothing and the same flows when the flow's key is installed; otherwise the add of the
flow, and a copy of it at the next address. -/
theorem putDesiredTurn_trace {g : DesiredFlow} (hg : ft.desired.flow_heap d = some g)
    (h : putDesiredTurn (ft, msgs) d = some (ft', msgs')) :
    ((installed_flow_lookup ft.installed g.flow).isSome ∧ msgs' = msgs ∧
      ∀ j, (ft'.installed.flow_heap j).map (·.flow) = (ft.installed.flow_heap j).map (·.flow)) ∨
    (installed_flow_lookup ft.installed g.flow = none ∧
      msgs' = msgs ++ [.flowMod (installed_flow_add g.flow)] ∧
      ∀ j, (ft'.installed.flow_heap j).map (·.flow) =
        if j = ft.installed.next_id then some g.flow else (ft.installed.flow_heap j).map (·.flow)) := by
  unfold putDesiredTurn at h
  simp only [hg, Option.bind_eq_bind, Option.some_bind] at h
  split at h <;> rw [Option.bind_eq_some] at h <;> obtain ⟨ft3, h3, h⟩ := h <;> cases h
  · rename_i hl
    exact .inl ⟨by simp [hl], rfl, link_installed_to_desired_flow h3⟩
  · rename_i hl
    refine .inr ⟨hl, rfl, fun j => ?_⟩
    rw [link_installed_to_desired_flow h3]
    by_cases e : j = ft.installed.next_id
    · subst e; simp [installed_flow_dup]
    · simp [e]

end Turns

/-- On a linked table `desired_flow_lookup` returns a flow for its own key exactly when no
flow before it in `match_flow_table` has that key. -/
theorem desired_flow_lookup_eq_self {X Y : List Nat} {t : OvnDesiredFlowTable} (h : FlowLinks X Y t)
    {done rest : List Nat} {d : Nat} {g : DesiredFlow} (e : t.match_flow_table = done ++ d :: rest)
    (hg : t.flow_heap d = some g) :
    desired_flow_lookup t g.flow none = some d ↔
      ∀ d' ∈ done, ∀ g', t.flow_heap d' = some g' → g'.flow.key ≠ g.flow.key := by
  have hd : d ∉ done := fun hm =>
    (List.nodup_append.1 (e ▸ h.match_nodup)).2.2 hm (List.mem_cons_self d rest)
  -- the lookup's test, on a live flow, is the test of its key
  have hp : ∀ d' g', t.flow_heap d' = some g' →
      ((match t.flow_heap d' with
        | none => false
        | some f => f.flow.hash == g.flow.hash && f.flow.key == g.flow.key && true) = true ↔
        g'.flow.key = g.flow.key) := by
    intro d' g' hg'
    simp only [hg', Bool.and_true, Bool.and_eq_true, beq_iff_eq, and_iff_right_iff_imp]
    exact hash_eq_of_key_eq (h.hash_ok d' g' hg') (h.hash_ok d g hg)
  simp only [desired_flow_lookup, e, List.find?_append]
  cases hf : List.find? _ done with
  | none =>
    rw [List.find?_eq_none] at hf
    refine iff_of_true ?_ fun d' hm g' hg' hk => hf d' hm ((hp d' g' hg').2 hk)
    simp [List.find?_cons_of_pos, hg]
  | some d' =>
    have hm := List.mem_of_find?_eq_some hf
    refine iff_of_false (by rintro ⟨⟩; exact hd hm) fun hall => ?_
    have ht := List.find?_some hf
    cases hg' : t.flow_heap d' with
    | none => simp [hg'] at ht
    | some g' => exact hall d' hm g' hg' ((hp d' g' hg').1 (by simpa [hg'] using ht))

/-! ## The loop over installed flows, flow_mod by flow_mod -/

theorem map_key_of_map_flow {a b : Option InstalledFlow} (h : a.map (·.flow) = b.map (·.flow)) :
    a.map (·.flow.key) = b.map (·.flow.key) := by
  simpa [Option.map_map, Function.comp_def] using congrArg (Option.map OvnFlow.key) h

section InstalledTrace

variable {ft0 ft : FlowTables} {msgs : List OfpMsg} {done rest : List Nat} {i : Nat}

/-- What the loop over installed flows of a reconciliation from `ft0` has done with the flows
`done` behind it and `rest` to come: it sent the flow_mods owed to the flows done, the flows
to come are as they were, a flow done kept its key when a desired flow has it and is gone
otherwise, and a flow done is the flow `desired_flow_lookup` returns for its key. -/
structure InstalledTrace (ft0 : FlowTables) (done rest : List Nat) (acc : FlowTables × List OfpMsg) :
    Prop where
  msgs : acc.2 = done.filterMap fun i =>
    ((ft0.installed.flow_heap i).bind (owedMod ft0.desired ·.flow)).map .flowMod
  flows : ∀ j ∈ rest, (acc.1.installed.flow_heap j).map (·.flow) = (ft0.installed.flow_heap j).map (·.flow)
  keys : ∀ j, (acc.1.installed.flow_heap j).map (·.flow.key) = (ft0.installed.flow_heap j).bind fun f =>
    if j ∈ rest ∨ hasKey ft0.desired f.flow.key then some f.flow.key else none
  lookup : ∀ j f, acc.1.installed.flow_heap j = some f → j ∉ rest → lookupFlow ft0.desired f.flow = some f.flow

theorem installedTrace_init (hi : InstalledOk ft0.installed) :
    InstalledTrace ft0 [] ft0.installed.installed_flows (ft0, []) := by
  refine ⟨rfl, fun _ _ => rfl, fun j => ?_,
    fun j f hj hn => absurd ((hi.live j).1 (Option.isSome_iff_exists.2 ⟨f, hj⟩)) hn⟩
  cases hj : ft0.installed.flow_heap j with
  | none => rfl
  | some f => simp [(hi.live j).1 (by simp [hj])]

/-- A turn keeps the trace, with its flow now done. -/
theorem InstalledTrace.step (hw0 : WellLinked ft0.desired) (inv : InstalledLoopInv ft0 (i :: rest) (ft, msgs))
    (tr : InstalledTrace ft0 done (i :: rest) (ft, msgs)) {acc' : FlowTables × List OfpMsg}
    (h : putInstalledTurn (ft, msgs) i = some acc') : InstalledTrace ft0 (done ++ [i]) rest acc' := by
  obtain ⟨ft', msgs'⟩ := acc'
  obtain ⟨f, hf⟩ : ∃ f, ft.installed.flow_heap i = some f := Option.isSome_iff_exists.1
    ((inv.links.installed.live i).2 (inv.pending i (List.mem_cons_self _ _)))
  have hhf := inv.links.installed.hash_ok i f hf
  obtain ⟨hm, hl, hj⟩ := putInstalledTurn_trace inv.links.refs (wellLinked_of_unlinked hw0 inv.frame) hf
    hhf h
  dsimp only at hm hl hj ⊢
  rw [lookupFlow_of_unlinked inv.frame] at hl
  have hf0 := tr.flows i (List.mem_cons_self _ _)
  rw [hf, Option.map_some'] at hf0
  obtain ⟨f0, hf0, e0⟩ := Option.map_eq_some'.1 hf0.symm
  have hnd := List.nodup_cons.1 inv.rest_nodup
  refine ⟨?_, fun j hj' => ?_, fun j => ?_, fun j f' hj' hn => ?_⟩
  · rw [hm, show msgs = _ from tr.msgs, List.filterMap_append, owedMod_of_unlinked inv.frame]
    cases ho : owedMod ft0.desired f.flow <;> simp [hf0, e0, ho]
  · have ne : j ≠ i := by rintro rfl; exact hnd.1 hj'
    rw [hj j ne]; exact tr.flows j (List.mem_cons_of_mem _ hj')
  · by_cases ne : j = i
    · subst ne
      have hk := congrArg (Option.map OvnFlow.key) hl
      simp only [Option.map_map, Function.comp_def] at hk
      rw [hk, lookupFlow_map_key hw0 hhf, hf0]; simp [hnd.1, e0]
    · have := tr.keys j
      simp only [List.mem_cons, ne, false_or] at this
      rw [← this]; exact map_key_of_map_flow (hj j ne)
  · by_cases ne : j = i
    · subst ne
      rw [hj', Option.map_some'] at hl
      exact lookupFlow_self hw0 hhf hl.symm
    · obtain ⟨f1, hf1, e1⟩ := Option.map_eq_some'.1 ((hj j ne).symm.trans (by rw [hj']; rfl))
      exact (show f1.flow = f'.flow from e1) ▸ tr.lookup j f1 hf1 (by simp [ne, hn])

theorem installedLoop_trace (hw0 : WellLinked ft0.desired) (h0 : LinksOk ft0) {ft1 : FlowTables}
    {msgs1 : List OfpMsg}
    (h1 : ft0.installed.installed_flows.foldlM putInstalledTurn (ft0, []) = some (ft1, msgs1)) :
    InstalledLoopInv ft0 [] (ft1, msgs1) ∧
      InstalledTrace ft0 ft0.installed.installed_flows [] (ft1, msgs1) := by
  have := foldlM_induct (fun rest acc => InstalledLoopInv ft0 rest acc ∧
      ∃ done, done ++ rest = ft0.installed.installed_flows ∧ InstalledTrace ft0 done rest acc)
    (fun i rest acc acc' ⟨inv, done, hs, tr⟩ h => by
      obtain ⟨ft, msgs⟩ := acc
      obtain ⟨acc'', h', inv'⟩ := installedLoop_step inv
      rw [h] at h'; cases h'
      exact ⟨inv', done ++ [i], by simp [hs], tr.step hw0 inv h⟩)
    ⟨installedLoopInv_init h0, [], rfl, installedTrace_init h0.installed⟩ h1
  obtain ⟨inv, done, hs, tr⟩ := this
  rw [List.append_nil] at hs
  exact ⟨inv, hs ▸ tr⟩

end InstalledTrace

/-! ## The loop over desired flows, add by add -/

/-- Some installed flow of `it` has key `k`. -/
def InstalledHas (it : InstalledTable) (k : FlowKey) : Prop :=
  ∃ j f, it.flow_heap j = some f ∧ f.flow.key = k

section InstalledHas

variable {it it' : InstalledTable} {k : FlowKey}

theorem installedHas_congr (h : ∀ j, (it'.flow_heap j).map (·.flow) = (it.flow_heap j).map (·.flow)) :
    InstalledHas it' k ↔ InstalledHas it k := by
  constructor <;> rintro ⟨j, f, hj, rfl⟩
  · have := map_key_of_map_flow (h j)
    rw [hj, Option.map_some'] at this
    obtain ⟨f', hf', e⟩ := Option.map_eq_some'.1 this.symm
    exact ⟨j, f', hf', e⟩
  · have := map_key_of_map_flow (h j)
    rw [hj, Option.map_some'] at this
    obtain ⟨f', hf', e⟩ := Option.map_eq_some'.1 this
    exact ⟨j, f', hf', e⟩

/-- A flow put at a free address adds its key. -/
theorem installedHas_insert {n : Nat} {fl : OvnFlow} (hn : it.flow_heap n = none)
    (h : ∀ j, (it'.flow_heap j).map (·.flow) = if j = n then some fl else (it.flow_heap j).map (·.flow)) :
    InstalledHas it' k ↔ InstalledHas it k ∨ fl.key = k := by
  constructor
  · rintro ⟨j, f, hj, rfl⟩
    have := h j
    rw [hj, Option.map_some'] at this
    split_ifs at this
    · cases this; exact .inr rfl
    · obtain ⟨f', hf', e⟩ := Option.map_eq_some'.1 this.symm
      exact .inl ⟨j, f', hf', by rw [e]⟩
  · rintro (⟨j, f, hj, rfl⟩ | rfl)
    · have ne : j ≠ n := by rintro rfl; rw [hn] at hj; cases hj
      have := h j
      rw [if_neg ne, hj, Option.map_some'] at this
      obtain ⟨f', hf', e⟩ := Option.map_eq_some'.1 this
      exact ⟨j, f', hf', by rw [e]⟩
    · have := h n
      rw [if_pos rfl] at this
      obtain ⟨f', hf', e⟩ := Option.map_eq_some'.1 this
      exact ⟨n, f', hf', by rw [e]⟩

theorem installed_flow_lookup_eq_none_iff (hi : InstalledOk it) {target : OvnFlow} (ht : target.HashOk) :
    installed_flow_lookup it target = none ↔ ¬ InstalledHas it target.key := by
  constructor
  · rintro h ⟨j, f, hj, hk⟩
    exact installed_flow_lookup_none hi ht h j f hj hk
  · intro h
    cases hl : installed_flow_lookup it target with
    | none => rfl
    | some i =>
      obtain ⟨f, hf, hk⟩ := installed_flow_lookup_some hl
      exact absurd ⟨i, f, hf, hk⟩ h

theorem installed_all_iff (hi : InstalledOk it) (k : FlowKey) :
    (∀ i ∈ it.installed_flows, (it.flow_heap i).all (·.flow.key ≠ k)) ↔ ¬ InstalledHas it k := by
  constructor
  · rintro h ⟨j, f, hj, rfl⟩
    simpa [hj] using h j ((hi.live j).1 (by simp [hj]))
  · intro h i _
    cases hj : it.flow_heap i with
    | none => rfl
    | some f => simpa using fun e => h ⟨i, f, hj, e⟩

end InstalledHas

section DesiredTrace

variable {ft0 ft1 ft : FlowTables} {msgs : List OfpMsg} {done rest : List Nat} {d : Nat}

/-- What the loop over desired flows of a reconciliation from `ft0` has done with the flows
`done` behind it: it sent the adds owed for them, a desired key is installed when it was
before the reconciliation or is the key of a flow done, and every installed flow is the flow
`desired_flow_lookup` returns for its key. -/
structure DesiredTrace (ft0 : FlowTables) (done : List Nat) (acc : FlowTables × List OfpMsg) : Prop where
  msgs : acc.2 = (done.filterMap (owedAdd ft0)).map .flowMod
  keys : ∀ k, hasKey ft0.desired k = true → (InstalledHas acc.1.installed k ↔
    InstalledHas ft0.installed k ∨ ∃ d ∈ done, ∃ g, ft0.desired.flow_heap d = some g ∧ g.flow.key = k)
  lookup : FromLookup ft0.desired acc.1.installed

/-- After the loop over installed flows a desired key is installed exactly when it was. -/
theorem desiredTrace_init {msgs1 : List OfpMsg}
    (tr : InstalledTrace ft0 ft0.installed.installed_flows [] (ft1, msgs1)) : DesiredTrace ft0 [] (ft1, []) := by
  refine ⟨rfl, fun k hk => ?_, fun j f hj => tr.lookup j f hj (List.not_mem_nil j)⟩
  simp only [List.not_mem_nil, false_and, exists_false, or_false]
  constructor
  · rintro ⟨j, f, hj, rfl⟩
    have := tr.keys j
    rw [hj, Option.map_some'] at this
    cases h0 : ft0.installed.flow_heap j with
    | none => simp [h0] at this
    | some f0 =>
      simp only [h0, Option.some_bind, List.not_mem_nil, false_or] at this
      split_ifs at this
      exact ⟨j, f0, h0, (Option.some.inj this).symm⟩
  · rintro ⟨j, f0, h0, rfl⟩
    have := tr.keys j
    simp only [h0, Option.some_bind, List.not_mem_nil, false_or, hk, if_true] at this
    obtain ⟨f, hf, e⟩ := Option.map_eq_some'.1 this
    exact ⟨j, f, hf, e⟩

/-- A turn keeps the trace, with its flow now done. -/
theorem DesiredTrace.step (hw0 : WellLinked ft0.desired) (hi0 : InstalledOk ft0.installed)
    (hu : ft1.desired.unlinked = ft0.desired.unlinked) (inv : DesiredLoopInv ft1 (d :: rest) (ft, msgs))
    (hs : done ++ d :: rest = ft1.desired.match_flow_table) (tr : DesiredTrace ft0 done (ft, msgs))
    {acc' : FlowTables × List OfpMsg} (h : putDesiredTurn (ft, msgs) d = some acc') :
    DesiredTrace ft0 (done ++ [d]) acc' := by
  obtain ⟨ft', msgs'⟩ := acc'
  have hm0 : ft0.desired.match_flow_table = done ++ d :: rest := by
    rw [hs]; exact (congrArg (·.match_flow_table) hu).symm
  obtain ⟨g0, hg0⟩ : ∃ g0, ft0.desired.flow_heap d = some g0 :=
    Option.isSome_iff_exists.1 ((hw0.1.flows.live d).2 (by simp [hm0]))
  obtain ⟨g, hg, eg, -, -⟩ := flow_of_unlinked (inv.frame.trans hu).symm hg0
  have hh : g.flow.HashOk := eg ▸ hw0.1.flows.hash_ok d g0 hg0
  have hk0 := (hasKey_iff hw0.1.flows g0.flow.key).2 ⟨d, g0, hg0, rfl⟩
  -- the add owed for `d` is due exactly when its key is not installed yet
  have hc : (desired_flow_lookup ft0.desired g0.flow none = some d ∧ ∀ i ∈ ft0.installed.installed_flows,
      (ft0.installed.flow_heap i).all (·.flow.key ≠ g0.flow.key)) ↔ ¬ InstalledHas ft.installed g.flow.key := by
    rw [desired_flow_lookup_eq_self hw0.1.flows hm0 hg0, installed_all_iff hi0, eg, tr.keys _ hk0]
    simp only [not_or, not_exists, not_and]
    exact and_comm
  have keys_d : ∀ k, (∃ d' ∈ done ++ [d], ∃ g', ft0.desired.flow_heap d' = some g' ∧ g'.flow.key = k) ↔
      (∃ d' ∈ done, ∃ g', ft0.desired.flow_heap d' = some g' ∧ g'.flow.key = k) ∨ g.flow.key = k := by
    intro k
    simp [or_and_right, exists_or, hg0, eg]
  have hm := tr.msgs
  dsimp only at hg hm
  rcases putDesiredTurn_trace hg h with ⟨hl, hm', hj⟩ | ⟨hl, hm', hj⟩
  · obtain ⟨i, hi⟩ := Option.isSome_iff_exists.1 hl
    obtain ⟨f, hf, hk⟩ := installed_flow_lookup_some hi
    have hx : InstalledHas ft.installed g.flow.key := ⟨i, f, hf, hk⟩
    have owed : owedAdd ft0 d = none := by
      simp only [owedAdd, hg0, Option.some_bind]
      rw [if_neg fun c => hc.1 c hx]
    refine ⟨by simp [hm', hm, List.filterMap_append, owed], fun k hk => ?_, tr.lookup.congr hj⟩
    rw [installedHas_congr hj, tr.keys k hk, keys_d]
    by_cases e : g.flow.key = k
    · subst e; simpa [true_or, or_true] using (tr.keys _ hk).1 hx
    · simp [e]
  · have hx := (installed_flow_lookup_eq_none_iff inv.links.installed hh).1 hl
    have owed : owedAdd ft0 d = some (.add g0.flow.key g0.flow.ofpacts g0.flow.cookie) := by
      simp only [owedAdd, hg0, Option.some_bind]
      rw [if_pos (hc.2 hx)]
    have hfl : lookupFlow ft0.desired g.flow = some g.flow := by
      rw [eg]; simp [lookupFlow, (hc.2 hx).1, hg0]
    refine ⟨by simp [hm', hm, List.filterMap_append, owed, installed_flow_add, eg], fun k hk => ?_,
      tr.lookup.insert hj hfl⟩
    rw [installedHas_insert (inv.links.installed.fresh _ le_rfl) hj, tr.keys k hk, keys_d, or_assoc]

/-- The loop over desired flows keeps the trace to its end. -/
theorem desiredLoop_run (hw0 : WellLinked ft0.desired) (hi0 : InstalledOk ft0.installed)
    (hu : ft1.desired.unlinked = ft0.desired.unlinked)
    (inv1 : DesiredLoopInv ft1 ft1.desired.match_flow_table (ft1, [])) (tr1 : DesiredTrace ft0 [] (ft1, []))
    {ft2 : FlowTables} {msgs2 : List OfpMsg}
    (h2 : ft1.desired.match_flow_table.foldlM putDesiredTurn (ft1, []) = some (ft2, msgs2)) :
    DesiredLoopInv ft1 [] (ft2, msgs2) ∧ DesiredTrace ft0 ft0.desired.match_flow_table (ft2, msgs2) := by
  have hw1 := wellLinked_of_unlinked hw0 hu
  obtain ⟨inv, done, hs, tr⟩ := foldlM_induct (fun rest acc => DesiredLoopInv ft1 rest acc ∧
      ∃ done, done ++ rest = ft1.desired.match_flow_table ∧ DesiredTrace ft0 done acc)
    (fun d rest acc acc' ⟨inv, done, hs, tr⟩ h => by
      obtain ⟨ft, msgs⟩ := acc
      obtain ⟨acc'', h', inv'⟩ := desiredLoop_step hw1 inv
      rw [h] at h'; cases h'
      exact ⟨inv', done ++ [d], by simp [hs], tr.step hw0 hi0 hu inv hs h⟩)
    ⟨inv1, [], rfl, tr1⟩ h2
  have hm : ft1.desired.match_flow_table = ft0.desired.match_flow_table :=
    congrArg (·.match_flow_table) hu
  rw [List.append_nil, hm] at hs
  exact ⟨inv, hs ▸ tr⟩

theorem desiredLoop_trace (hw0 : WellLinked ft0.desired) (hi0 : InstalledOk ft0.installed)
    (hu : ft1.desired.unlinked = ft0.desired.unlinked)
    (inv1 : DesiredLoopInv ft1 ft1.desired.match_flow_table (ft1, [])) (tr1 : DesiredTrace ft0 [] (ft1, []))
    {ft2 : FlowTables} {msgs2 : List OfpMsg}
    (h2 : ft1.desired.match_flow_table.foldlM putDesiredTurn (ft1, []) = some (ft2, msgs2)) :
    DesiredLoopInv ft1 [] (ft2, msgs2) ∧
      msgs2 = (ft0.desired.match_flow_table.filterMap (owedAdd ft0)).map .flowMod :=
  (desiredLoop_run hw0 hi0 hu inv1 tr1 h2).imp_right (·.msgs)

end DesiredTrace

/-! ## The tables after a reconciliation -/

/-- The tables after a reconciliation: the installed table has exactly the keys of the desired
table; each installed flow has the actions and cookie of its primary desired flow and lists
exactly the desired flows of its key, each once; each desired flow is linked to the installed
flow of its key. -/
structure Reconciled (ft : FlowTables) : Prop where
  keys : ∀ k, (∃ i ∈ ft.installed.installed_flows, ∃ f, ft.installed.flow_heap i = some f ∧ f.flow.key = k) ↔
    ∃ d ∈ ft.desired.match_flow_table, ∃ g, ft.desired.flow_heap d = some g ∧ g.flow.key = k
  primary : ∀ i f, ft.installed.flow_heap i = some f → ∃ d g, f.desired_flow = some d ∧
    ft.desired.flow_heap d = some g ∧ g.flow.ofpacts = f.flow.ofpacts ∧ g.flow.cookie = f.flow.cookie
  refs : ∀ i f, ft.installed.flow_heap i = some f → f.desired_refs.Nodup ∧
    ∀ d, d ∈ f.desired_refs ↔ ∃ g, ft.desired.flow_heap d = some g ∧ g.flow.key = f.flow.key
  linked : ∀ d g, ft.desired.flow_heap d = some g → ∃ i f, g.installed_flow = some i ∧
    ft.installed.flow_heap i = some f ∧ f.flow.key = g.flow.key

/-- At the end of the loop over desired flows the tables are reconciled. -/
theorem DesiredLoopInv.reconciled {ft1 ft : FlowTables} {msgs : List OfpMsg} (hw : WellLinked ft.desired)
    (inv : DesiredLoopInv ft1 [] (ft, msgs)) : Reconciled ft := by
  have ha := inv.agrees
  have hl := inv.links
  have linked : ∀ d g, ft.desired.flow_heap d = some g → ∃ i f, g.installed_flow = some i ∧
      ft.installed.flow_heap i = some f ∧ f.flow.key = g.flow.key := by
    intro d g hg
    obtain ⟨i, hi⟩ := Option.ne_none_iff_exists'.1 (inv.done d g hg (List.not_mem_nil d))
    obtain ⟨f, hf, hm⟩ := hl.refs.linked_refs d g i hg hi
    obtain ⟨g', hg', -, hk⟩ := hl.refs.refs_linked i f hf d hm
    rw [hg] at hg'; cases hg'
    exact ⟨i, f, hi, hf, hk.symm⟩
  refine ⟨fun k => ⟨?_, ?_⟩, fun i f hf => ?_,
    fun i f hf => ⟨hl.refs.refs_nodup i f hf, fun d => ⟨fun hm => ?_, ?_⟩⟩, linked⟩
  · rintro ⟨i, -, f, hf, rfl⟩
    obtain ⟨d, g, -, hg, hk, -, -⟩ := ha.installed i f hf
    exact ⟨d, (hw.1.flows.live d).1 (by simp [hg]), g, hg, hk⟩
  · rintro ⟨d, -, g, hg, rfl⟩
    obtain ⟨i, f, -, hf, hk⟩ := linked d g hg
    exact ⟨i, (hl.installed.live i).1 (by simp [hf]), f, hf, hk⟩
  · obtain ⟨d, g, hp, hg, -, hac, hc⟩ := ha.installed i f hf
    exact ⟨d, g, hp, hg, hac, hc⟩
  · obtain ⟨g, hg, -, hk⟩ := hl.refs.refs_linked i f hf d hm
    exact ⟨g, hg, hk⟩
  · rintro ⟨g, hg, hk⟩
    obtain ⟨j, f', hj, hf', hk'⟩ := linked d g hg
    obtain rfl := hl.installed.key_unique j i f' f hf' hf (hk'.trans hk)
    obtain ⟨f'', hf'', hm⟩ := hl.refs.linked_refs d g j hg hj
    rw [hf] at hf''; cases hf''
    exact hm

/-! ## ofctrl_put -/

theorem flowMods_filterMap_flowMod {α : Type} (l : List α) (F : α → Option FlowMod) :
    flowMods (l.filterMap fun a => (F a).map .flowMod) = l.filterMap F := by
  simp only [flowMods, List.filterMap_filterMap]
  congr 1; funext a
  cases F a <;> rfl

theorem flowMods_map_flowMod (l : List FlowMod) : flowMods (l.map .flowMod) = l := by
  simp [flowMods, List.filterMap_map, Function.comp_def]

theorem barrier_not_mem_filterMap {α : Type} (l : List α) (F : α → Option FlowMod) :
    OfpMsg.barrierRequest ∉ l.filterMap fun a => (F a).map OfpMsg.flowMod := by
  simp only [List.mem_filterMap, not_exists, not_and]
  intro a _
  cases F a <;> simp

theorem barrier_not_mem_put (p : ModParse) (meter_table : List SbrecMeter) (e : Ofctrl)
    {msgs1 msgs2 : List OfpMsg} (h1 : .barrierRequest ∉ msgs1) (h2 : .barrierRequest ∉ msgs2) :
    .barrierRequest ∉ (flushCtZones e.pending_ct_zones).1 ++ groupAdds p e.groups ++
      e.meters.uninstalled.filterMap (meterAdd p meter_table) ++ msgs1 ++ msgs2 ++
      (groupDeletes p e.groups).1 ++ (meterDeletes e.meters).1 := by
  simp only [List.mem_append, not_or, List.mem_filterMap, not_exists, not_and]
  refine ⟨⟨⟨⟨⟨⟨?_, ?_⟩, ?_⟩, h1⟩, h2⟩, ?_⟩, ?_⟩
  · simp only [flushCtZones, List.mem_filterMap, not_exists, not_and]
    intro z _; split_ifs <;> simp
  · simp only [groupAdds, List.mem_filterMap, not_exists, not_and]
    intro g _; split_ifs <;> simp
  · intro m _; unfold meterAdd; split_ifs <;> simp
  · simp only [groupDeletes, List.mem_filterMap, not_exists, not_and]
    intro g _; split_ifs <;> simp
  · simp [meterDeletes]

theorem putReconcile_eq {e : Ofctrl} {p : ModParse} {meter_table : List SbrecMeter} {nb_cfg : Int}
    {ft1 ft2 : FlowTables} {msgs1 msgs2 : List OfpMsg}
    (h1 : e.tables.installed.installed_flows.foldlM putInstalledTurn (e.tables, []) = some (ft1, msgs1))
    (h2 : ft1.desired.match_flow_table.foldlM putDesiredTurn (ft1, []) = some (ft2, msgs2)) :
    putReconcile e p meter_table nb_cfg = some (putFinish
      { e with skipped_last_time := false, need_reinstall_flows := false, tables := ft2,
               groups := (groupDeletes p e.groups).2, meters := (meterDeletes e.meters).2,
               pending_ct_zones := (flushCtZones e.pending_ct_zones).2 }
      ((flushCtZones e.pending_ct_zones).1 ++ groupAdds p e.groups ++
        e.meters.uninstalled.filterMap (meterAdd p meter_table) ++ msgs1 ++ msgs2 ++
        (groupDeletes p e.groups).1 ++ (meterDeletes e.meters).1) nb_cfg) := by
  simp [putReconcile, h1, h2]

end OvnOfctrl
