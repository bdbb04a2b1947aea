-- The switch's flow table as the flow_mods of ofctrl.c describe it: a table from keys to
-- actions and cookie, changed by each flow_mod in send order, and what it means for such a
-- table to mirror the installed table.
import OvnOfctrl.InstalledLinks
import OvnOfctrl.Messages

namespace OvnOfctrl

/-! ## The switch's table -/

/-- A switch's flow table: the actions and cookie of the flow of each key, if any. -/
abbrev SwitchTable := FlowKey → Option (List UInt8 × UInt64)

/-- A flow_mod applied by the switch. An ADD replaces the flow of its key; a MODIFY_STRICT
changes the actions of the flow of its key, if there is one, and keeps its cookie. -/
def applyFlowMod (T : SwitchTable) : FlowMod → SwitchTable
  | .deleteAll => fun _ => none
  | .add k a c => Function.update T k (some (a, c))
  | .modifyStrict k a => Function.update T k ((T k).map fun v => (a, v.2))
  | .deleteStrict k => Function.update T k none

/-- The switch's table after the flow_mods of `msgs`. -/
def applyMsgs (T : SwitchTable) (msgs : List OfpMsg) : SwitchTable :=
  (flowMods msgs).foldl applyFlowMod T

@[simp] theorem applyMsgs_nil (T : SwitchTable) : applyMsgs T [] = T := rfl

@[simp] theorem applyMsgs_append (T : SwitchTable) (m1 m2 : List OfpMsg) :
    applyMsgs T (m1 ++ m2) = applyMsgs (applyMsgs T m1) m2 := by
  simp [applyMsgs, flowMods, List.filterMap_append, List.foldl_append]

@[simp] theorem applyMsgs_flowMod (T : SwitchTable) (fm : FlowMod) :
    applyMsgs T [.flowMod fm] = applyFlowMod T fm := rfl

/-! ## Mirroring the installed table -/

/-- `T` holds the keys of the installed flows, each with its flow's actions and cookie,
and nothing else. -/
def Mirrors (T : SwitchTable) (it : InstalledTable) : Prop :=
  ∀ k v, T k = some v ↔ ∃ i f, it.flow_heap i = some f ∧ f.flow.key = k ∧
    (f.flow.ofpacts, f.flow.cookie) = v

/-- What the switch sees of an installed flow. -/
def mirrorData (f : InstalledFlow) : FlowKey × List UInt8 × UInt64 :=
  (f.flow.key, f.flow.ofpacts, f.flow.cookie)

section Mirrors

variable {T : SwitchTable} {it it' : InstalledTable}

theorem mirrors_empty (h : ∀ i, it.flow_heap i = none) : Mirrors (fun _ => none) it := by
  intro k v
  simp [h]

theorem Mirrors.congr (h : Mirrors T it)
    (hd : ∀ i, (it'.flow_heap i).map mirrorData = (it.flow_heap i).map mirrorData) :
    Mirrors T it' := by
  intro k v
  rw [h k v]
  refine exists_congr fun i => ⟨fun ⟨f, hf, e⟩ => ?_, fun ⟨f, hf, e⟩ => ?_⟩
  · have := hd i
    rw [hf, Option.map_some'] at this
    obtain ⟨f', hf', e'⟩ := Option.map_eq_some'.1 this
    simp only [mirrorData, Prod.mk.injEq] at e'
    exact ⟨f', hf', by rw [e'.1, e'.2.1, e'.2.2]; exact e⟩
  · have := hd i
    rw [hf, Option.map_some'] at this
    obtain ⟨f', hf', e'⟩ := Option.map_eq_some'.1 this.symm
    simp only [mirrorData, Prod.mk.injEq] at e'
    exact ⟨f', hf', by rw [e'.1, e'.2.1, e'.2.2]; exact e⟩

/-- A strict delete of the key of installed flow `i`, which goes. -/
theorem Mirrors.delete (h : Mirrors T it) (hk : InstalledOk it) {i : Nat} {f : InstalledFlow}
    (hf : it.flow_heap i = some f) (l : List Nat) :
    Mirrors (applyFlowMod T (.deleteStrict f.flow.key))
      ({ it with installed_flows := l }.setFlow i none) := by
  intro k v
  simp only [applyFlowMod, Function.update_apply, InstalledTable.setFlow_heap]
  split_ifs with e
  · subst e
    refine ⟨nofun, ?_⟩
    rintro ⟨j, g, hj, e, -⟩
    split_ifs at hj with ej
    exact ej (hk.key_unique j i g f hj hf e)
  · rw [h k v]
    refine exists_congr fun j => ⟨fun ⟨g, hg, e', hv⟩ => ⟨g, ?_, e', hv⟩,
      fun ⟨g, hg, e', hv⟩ => ⟨g, ?_, e', hv⟩⟩
    · have ej : j ≠ i := by rintro rfl; rw [hf] at hg; cases hg; exact e e'.symm
      simpa [ej] using hg
    · split_ifs at hg
      exact hg

/-- Installed flow `i` takes new actions and cookie for its key, which the switch's
table takes too. -/
theorem Mirrors.update (h : Mirrors T it) (hk : InstalledOk it) {i : Nat}
    {f f' : InstalledFlow} (hf : it.flow_heap i = some f) (e : f'.flow.key = f.flow.key) :
    Mirrors (Function.update T f.flow.key (some (f'.flow.ofpacts, f'.flow.cookie)))
      (it.setFlow i (some f')) := by
  intro k v
  simp only [Function.update_apply, InstalledTable.setFlow_heap]
  split_ifs with ek
  · subst ek
    refine ⟨fun hv => ⟨i, f', by simp, e, Option.some.inj hv⟩, ?_⟩
    rintro ⟨j, g, hj, e', hv⟩
    split_ifs at hj with ej
    · cases hj; exact congrArg some hv
    · exact absurd (hk.key_unique j i g f hj hf e') ej
  · rw [h k v]
    refine exists_congr fun j => ⟨fun ⟨g, hg, e', hv⟩ => ⟨g, ?_, e', hv⟩,
      fun ⟨g, hg, e', hv⟩ => ?_⟩
    · have ej : j ≠ i := by rintro rfl; rw [hf] at hg; cases hg; exact ek e'.symm
      simpa [ej] using hg
    · split_ifs at hg with ej
      · cases hg; exact absurd (e'.symm.trans e) ek
      · exact ⟨g, hg, e', hv⟩

/-- A new installed flow at a free address, for a key no installed flow has, which the
switch's table takes too. -/
theorem Mirrors.insert (h : Mirrors T it) {n : Nat} {f : InstalledFlow}
    (hn : it.flow_heap n = none)
    (hk : ∀ i g, it.flow_heap i = some g → g.flow.key ≠ f.flow.key) (l : List Nat) (m : Nat) :
    Mirrors (Function.update T f.flow.key (some (f.flow.ofpacts, f.flow.cookie)))
      { it with flow_heap := Function.update it.flow_heap n (some f), installed_flows := l,
                next_id := m } := by
  intro k v
  simp only [Function.update_apply]
  split_ifs with ek
  · subst ek
    refine ⟨fun hv => ⟨n, f, by simp, rfl, Option.some.inj hv⟩, ?_⟩
    rintro ⟨j, g, hj, e', hv⟩
    split_ifs at hj with ej
    · cases hj; exact congrArg some hv
    · exact absurd e' (hk j g hj)
  · rw [h k v]
    refine exists_congr fun j => ⟨fun ⟨g, hg, e', hv⟩ => ⟨g, ?_, e', hv⟩,
      fun ⟨g, hg, e', hv⟩ => ?_⟩
    · have ej : j ≠ n := by rintro rfl; rw [hn] at hg; cases hg
      simp [ej, hg]
    · split_ifs at hg with ej
      · cases hg; exact absurd e'.symm ek
      · exact ⟨g, hg, e', hv⟩

end Mirrors

end OvnOfctrl
