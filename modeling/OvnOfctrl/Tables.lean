-- The desired and installed flow tables of ofctrl.c as heaps of objects with the lists
-- that link them, and the helpers that link an installed flow to its desired flows. An
-- `ovs_assert` that fails stops the process: the helpers return `none` there.
import OvnOfctrl.Flow

namespace OvnOfctrl

/-! ## Loops -/

/-- A loop invariant of `List.foldlM` in `Option`, which may depend on the elements still to
come. -/
theorem foldlM_induct {α β : Type} {f : β → α → Option β} (P : List α → β → Prop)
    (step : ∀ a rest b b', P (a :: rest) b → f b a = some b' → P rest b') :
    ∀ {l : List α} {b b' : β}, P l b → l.foldlM f b = some b' → P [] b'
  | [], b, b', h, hf => by
    simp only [List.foldlM_nil] at hf
    exact Option.some.inj hf ▸ h
  | a :: rest, b, b', h, hf => by
    simp only [List.foldlM_cons] at hf
    obtain ⟨b1, h1, h2⟩ := Option.bind_eq_some.mp hf
    exact foldlM_induct P step (step a rest b b1 h h1) h2

/-- A loop of `List.foldlM` in `Option` that can always take its next turn while its
invariant holds returns, with the invariant. -/
theorem foldlM_exists {α β : Type} {f : β → α → Option β} (P : List α → β → Prop)
    (step : ∀ a rest b, P (a :: rest) b → ∃ b', f b a = some b' ∧ P rest b') :
    ∀ {l : List α} {b : β}, P l b → ∃ b', l.foldlM f b = some b' ∧ P [] b'
  | [], b, h => ⟨b, rfl, h⟩
  | a :: rest, b, h => by
    obtain ⟨b1, h1, h2⟩ := step a rest b h
    obtain ⟨b', h3, h4⟩ := foldlM_exists P step h2
    exact ⟨b', by simp [h1, h3], h4⟩

theorem foldlM_inv {α β : Type} {f : β → α → Option β} (P : β → Prop)
    (step : ∀ a b b', P b → f b a = some b' → P b') {l : List α} {b b' : β}
    (h : P b) (hf : l.foldlM f b = some b') : P b' :=
  foldlM_induct (fun _ => P) (fun a _ b b' => step a b b') h hf

/-! ## The desired table -/

/-- A `struct desired_flow`. `references` lists the `sb_flow_ref` nodes that name it, in
list order; `installed_flow` is the installed flow it is linked to; `list_node` is true
while its `list_node` is linked into a `to_be_removed` list. -/
structure DesiredFlow where
  flow : OvnFlow
  references : List Nat
  installed_flow : Option Nat
  list_node : Bool
deriving DecidableEq, Repr

/-- A `struct sb_flow_ref`: the link between one desired flow and one uuid. -/
structure SbFlowRef where
  flow : Nat
  sb_uuid : Uuid
deriving DecidableEq, Repr

/-- A `struct sb_to_flow`: the entry of one uuid, with its list of `sb_flow_ref` nodes. -/
structure SbToFlow where
  sb_uuid : Uuid
  flows : List Nat
deriving DecidableEq, Repr

/-- A `struct ovn_desired_flow_table`. The two hmaps are lists in iteration order; the
desired flows and the `sb_flow_ref` nodes live on heaps, by address. -/
structure OvnDesiredFlowTable where
  match_flow_table : List Nat
  uuid_flow_table : List SbToFlow
  flow_heap : Heap DesiredFlow
  ref_heap : Heap SbFlowRef
  next_id : Nat

/-- `ovn_desired_flow_table_init`. -/
def ovn_desired_flow_table_init : OvnDesiredFlowTable :=
  ⟨[], [], fun _ => none, fun _ => none, 0⟩

namespace OvnDesiredFlowTable

def setFlow (t : OvnDesiredFlowTable) (d : Nat) (f : Option DesiredFlow) : OvnDesiredFlowTable :=
  { t with flow_heap := Function.update t.flow_heap d f }

def modifyFlow (t : OvnDesiredFlowTable) (d : Nat) (g : DesiredFlow → DesiredFlow) :
    OvnDesiredFlowTable :=
  t.setFlow d ((t.flow_heap d).map g)

@[simp] theorem setFlow_match (t : OvnDesiredFlowTable) (d : Nat) (f : Option DesiredFlow) :
    (t.setFlow d f).match_flow_table = t.match_flow_table := rfl
@[simp] theorem setFlow_uuid (t : OvnDesiredFlowTable) (d : Nat) (f : Option DesiredFlow) :
    (t.setFlow d f).uuid_flow_table = t.uuid_flow_table := rfl
@[simp] theorem setFlow_refs (t : OvnDesiredFlowTable) (d : Nat) (f : Option DesiredFlow) :
    (t.setFlow d f).ref_heap = t.ref_heap := rfl
@[simp] theorem setFlow_next (t : OvnDesiredFlowTable) (d : Nat) (f : Option DesiredFlow) :
    (t.setFlow d f).next_id = t.next_id := rfl
@[simp] theorem setFlow_heap (t : OvnDesiredFlowTable) (d e : Nat) (f : Option DesiredFlow) :
    (t.setFlow d f).flow_heap e = if e = d then f else t.flow_heap e := by
  simp [setFlow, Function.update_apply]

end OvnDesiredFlowTable

/-- `sb_to_flow_find`: the entry of `sb_uuid` in `uuid_flow_table`. -/
def sb_to_flow_find (uuid_flow_table : List SbToFlow) (sb_uuid : Uuid) : Option SbToFlow :=
  uuid_flow_table.find? (·.sb_uuid == sb_uuid)

/-- Whether a desired flow is named by `sb_uuid` through one of its references: the inner
loop of `desired_flow_lookup`. -/
def referencedBy (t : OvnDesiredFlowTable) (f : DesiredFlow) (sb_uuid : Uuid) : Bool :=
  f.references.any fun r => (t.ref_heap r).any (·.sb_uuid == sb_uuid)

/-- `desired_flow_lookup`: the first desired flow of the hash chain of `target` whose key
is `target`'s key and, when `sb_uuid` is given, that `sb_uuid` references. -/
def desired_flow_lookup (t : OvnDesiredFlowTable) (target : OvnFlow) (sb_uuid : Option Uuid) :
    Option Nat :=
  t.match_flow_table.find? fun d =>
    match t.flow_heap d with
    | none => false
    | some f =>
      f.flow.hash == target.hash && f.flow.key == target.key &&
        match sb_uuid with
        | none => true
        | some u => referencedBy t f u

/-! ## The installed table -/

/-- A `struct installed_flow`: the flow as installed, the desired flows linked to it, and
the one of them whose actions are installed. -/
structure InstalledFlow where
  flow : OvnFlow
  desired_refs : List Nat
  desired_flow : Option Nat
deriving DecidableEq, Repr

/-- The static `installed_flows` hmap, as a list in iteration order, with the installed
flows on a heap. -/
structure InstalledTable where
  installed_flows : List Nat
  flow_heap : Heap InstalledFlow
  next_id : Nat

namespace InstalledTable

def setFlow (it : InstalledTable) (i : Nat) (f : Option InstalledFlow) : InstalledTable :=
  { it with flow_heap := Function.update it.flow_heap i f }

@[simp] theorem setFlow_list (it : InstalledTable) (i : Nat) (f : Option InstalledFlow) :
    (it.setFlow i f).installed_flows = it.installed_flows := rfl
@[simp] theorem setFlow_next (it : InstalledTable) (i : Nat) (f : Option InstalledFlow) :
    (it.setFlow i f).next_id = it.next_id := rfl
@[simp] theorem setFlow_heap (it : InstalledTable) (i j : Nat) (f : Option InstalledFlow) :
    (it.setFlow i f).flow_heap j = if j = i then f else it.flow_heap j := by
  simp [setFlow, Function.update_apply]

@[simp] theorem setFlow_setFlow (it : InstalledTable) (i : Nat) (f g : Option InstalledFlow) :
    (it.setFlow i f).setFlow i g = it.setFlow i g := by
  simp [setFlow, Function.update_idem]

end InstalledTable

/-- The empty installed table of `ofctrl_init`. -/
def InstalledTable.empty : InstalledTable := ⟨[], fun _ => none, 0⟩

/-- `installed_flow_lookup`: the first installed flow of the hash chain of `target` with
`target`'s key. -/
def installed_flow_lookup (it : InstalledTable) (target : OvnFlow) : Option Nat :=
  it.installed_flows.find? fun i =>
    match it.flow_heap i with
    | none => false
    | some f => f.flow.hash == target.hash && f.flow.key == target.key

/-- The caller's desired table and the installed table: what the table operations read
and write. -/
@[ext] structure FlowTables where
  desired : OvnDesiredFlowTable
  installed : InstalledTable

/-! ## Links between installed and desired flows -/

/-- `link_installed_to_desired`: `d` joins the end of `i`'s `desired_refs` and becomes its
primary when the list was empty. -/
def link_installed_to_desired (ft : FlowTables) (i d : Nat) : Option FlowTables :=
  match ft.installed.flow_heap i with
  | none => none
  | some f =>
    if f.desired_flow = some d then some ft
    else if f.desired_refs = [] ∧ f.desired_flow ≠ none then none
    else
      some { desired := ft.desired.modifyFlow d ({ · with installed_flow := some i }),
             installed := ft.installed.setFlow i (some
               { f with desired_refs := f.desired_refs ++ [d],
                        desired_flow := if f.desired_refs = [] then some d else f.desired_flow }) }

/-- `unlink_installed_to_desired`: `d` leaves `i`'s `desired_refs`; when it was the
primary, the new head of the list (or none) takes its place. -/
def unlink_installed_to_desired (ft : FlowTables) (i d : Nat) : Option FlowTables :=
  match ft.installed.flow_heap i, ft.desired.flow_heap d with
  | some f, some g =>
    if f.desired_flow = none ∨ f.desired_refs = [] ∨ g.installed_flow ≠ some i then none
    else
      let refs := f.desired_refs.erase d
      some { desired := ft.desired.setFlow d (some { g with installed_flow := none }),
             installed := ft.installed.setFlow i (some
               { f with desired_refs := refs,
                        desired_flow := if f.desired_flow = some d then refs.head?
                                        else f.desired_flow }) }
  | _, _ => none

theorem unlink_installed_to_desired_some {ft ft' : FlowTables} {i d : Nat}
    (h : unlink_installed_to_desired ft i d = some ft') :
    ∃ f g, ft.installed.flow_heap i = some f ∧ ft.desired.flow_heap d = some g ∧
      f.desired_flow ≠ none ∧ f.desired_refs ≠ [] ∧ g.installed_flow = some i ∧
      ft' = { desired := ft.desired.setFlow d (some { g with installed_flow := none }),
              installed := ft.installed.setFlow i (some
                { f with desired_refs := f.desired_refs.erase d,
                         desired_flow := if f.desired_flow = some d
                           then (f.desired_refs.erase d).head? else f.desired_flow }) } := by
  unfold unlink_installed_to_desired at h
  split at h
  · rename_i f g hf hg
    by_cases hc : f.desired_flow = none ∨ f.desired_refs = [] ∨ g.installed_flow ≠ some i
    · rw [if_pos hc] at h; cases h
    · rw [if_neg hc] at h
      cases h
      simp only [not_or, not_not] at hc
      exact ⟨f, g, hf, hg, hc.1, hc.2.1, hc.2.2, rfl⟩
  · cases h

/-- `unlink_all_refs_for_installed_flow`: unlink every desired flow of `i`. -/
def unlink_all_refs_for_installed_flow (ft : FlowTables) (i : Nat) : Option FlowTables :=
  match ft.installed.flow_heap i with
  | none => none
  | some f => f.desired_refs.foldlM (fun ft d => unlink_installed_to_desired ft i d) ft

/-- `installed_flow_destroy`: frees `i`, asserting that nothing is linked to it. -/
def installed_flow_destroy (ft : FlowTables) (i : Nat) : Option FlowTables :=
  match ft.installed.flow_heap i with
  | some f =>
    if f.desired_refs = [] ∧ f.desired_flow = none then
      some { ft with installed := ft.installed.setFlow i none }
    else none
  | none => none

/-- `desired_flow_destroy`: frees `d`, asserting that it has no reference and no
installed flow. -/
def desired_flow_destroy (ft : FlowTables) (d : Nat) : Option FlowTables :=
  match ft.desired.flow_heap d with
  | some f =>
    if f.references = [] ∧ f.installed_flow = none then
      some { ft with desired := ft.desired.setFlow d none }
    else none
  | none => none

theorem installed_flow_destroy_some {ft ft' : FlowTables} {i : Nat}
    (h : installed_flow_destroy ft i = some ft') :
    ∃ f, ft.installed.flow_heap i = some f ∧ f.desired_refs = [] ∧ f.desired_flow = none ∧
      ft' = { ft with installed := ft.installed.setFlow i none } := by
  unfold installed_flow_destroy at h
  split at h
  · split_ifs at h with hc
    cases h
    exact ⟨_, ‹_›, hc.1, hc.2, rfl⟩
  · cases h

theorem desired_flow_destroy_some {ft ft' : FlowTables} {d : Nat}
    (h : desired_flow_destroy ft d = some ft') :
    ∃ g, ft.desired.flow_heap d = some g ∧ g.references = [] ∧ g.installed_flow = none ∧
      ft' = { ft with desired := ft.desired.setFlow d none } := by
  unfold desired_flow_destroy at h
  split at h
  · split_ifs at h with hc
    cases h
    exact ⟨_, ‹_›, hc.1, hc.2, rfl⟩
  · cases h

/-- `ovn_installed_flow_table_clear`: every installed flow leaves the hmap, is unlinked
from its desired flows and is freed. -/
def ovn_installed_flow_table_clear (ft : FlowTables) : Option FlowTables :=
  ft.installed.installed_flows.foldlM
    (fun ft i => do
      let ft := { ft with installed := { ft.installed with
        installed_flows := ft.installed.installed_flows.erase i } }
      let ft ← unlink_all_refs_for_installed_flow ft i
      installed_flow_destroy ft i)
    ft

end OvnOfctrl
