-- The operations of the desired flow table: adding a flow for a uuid, appending actions
-- to a flow, and removing the flows of a uuid or of every uuid. Each keeps the M:N links
-- between desired flows and uuids in both of their lists.
import OvnOfctrl.Tables

namespace OvnOfctrl

/-! ## Adding flows -/

/-- `desired_flow_alloc`: a desired flow with no reference, no installed flow and an
unlinked list node. -/
def desired_flow_alloc (table_id : UInt8) (priority : UInt16) (cookie : UInt64)
    (m : Minimatch) (actions : List UInt8) : DesiredFlow :=
  { flow := ovn_flow_init table_id priority cookie m actions, references := [],
    installed_flow := none, list_node := false }

/-- The `hmap_insert` of a new desired flow into `match_flow_table`, at a fresh address:
the new flow stands first in its hash chain. -/
def insertDesired (t : OvnDesiredFlowTable) (f : DesiredFlow) : OvnDesiredFlowTable :=
  { t with flow_heap := Function.update t.flow_heap t.next_id (some f),
           match_flow_table := t.next_id :: t.match_flow_table,
           next_id := t.next_id + 1 }

section InsertDesired

variable (t : OvnDesiredFlowTable) (f : DesiredFlow)

@[simp] theorem insertDesired_match :
    (insertDesired t f).match_flow_table = t.next_id :: t.match_flow_table := rfl
@[simp] theorem insertDesired_uuid : (insertDesired t f).uuid_flow_table = t.uuid_flow_table := rfl
@[simp] theorem insertDesired_refs : (insertDesired t f).ref_heap = t.ref_heap := rfl
@[simp] theorem insertDesired_heap :
    (insertDesired t f).flow_heap = Function.update t.flow_heap t.next_id (some f) := rfl
@[simp] theorem insertDesired_next : (insertDesired t f).next_id = t.next_id + 1 := rfl

end InsertDesired

/-- `link_flow_to_sb`: a new `sb_flow_ref` joins the end of `f`'s references and the end
of the flows of `sb_uuid`'s entry, which is created when there is none. -/
def link_flow_to_sb (t : OvnDesiredFlowTable) (f : Nat) (sb_uuid : Uuid) :
    OvnDesiredFlowTable :=
  let r := t.next_id
  let t := { t with ref_heap := Function.update t.ref_heap r (some ⟨f, sb_uuid⟩),
                    next_id := r + 1 }
  let t := t.modifyFlow f fun g => { g with references := g.references ++ [r] }
  match sb_to_flow_find t.uuid_flow_table sb_uuid with
  | some _ =>
    { t with uuid_flow_table := t.uuid_flow_table.map fun stf =>
        if stf.sb_uuid = sb_uuid then { stf with flows := stf.flows ++ [r] } else stf }
  | none => { t with uuid_flow_table := ⟨sb_uuid, [r]⟩ :: t.uuid_flow_table }

section LinkFlowToSb

variable (t : OvnDesiredFlowTable) (f : Nat) (sb_uuid : Uuid)

@[simp] theorem link_flow_to_sb_match :
    (link_flow_to_sb t f sb_uuid).match_flow_table = t.match_flow_table := by
  unfold link_flow_to_sb; dsimp only; split <;> rfl
@[simp] theorem link_flow_to_sb_refs :
    (link_flow_to_sb t f sb_uuid).ref_heap =
      Function.update t.ref_heap t.next_id (some ⟨f, sb_uuid⟩) := by
  unfold link_flow_to_sb; dsimp only; split <;> rfl
@[simp] theorem link_flow_to_sb_heap :
    (link_flow_to_sb t f sb_uuid).flow_heap = Function.update t.flow_heap f
      ((t.flow_heap f).map fun g => { g with references := g.references ++ [t.next_id] }) := by
  unfold link_flow_to_sb; dsimp only; split <;> rfl
@[simp] theorem link_flow_to_sb_next : (link_flow_to_sb t f sb_uuid).next_id = t.next_id + 1 := by
  unfold link_flow_to_sb; dsimp only; split <;> rfl
theorem link_flow_to_sb_uuid : (link_flow_to_sb t f sb_uuid).uuid_flow_table =
    match sb_to_flow_find t.uuid_flow_table sb_uuid with
    | some _ => t.uuid_flow_table.map fun stf =>
        if stf.sb_uuid = sb_uuid then { stf with flows := stf.flows ++ [t.next_id] } else stf
    | none => ⟨sb_uuid, [t.next_id]⟩ :: t.uuid_flow_table := by
  cases h : sb_to_flow_find t.uuid_flow_table sb_uuid <;>
    simp [link_flow_to_sb, OvnDesiredFlowTable.modifyFlow, h]

end LinkFlowToSb

/-- `ofctrl_check_and_add_flow`: the flow is dropped when a desired flow with its key is
already referenced by `sb_uuid`; otherwise it is inserted and linked to `sb_uuid`. The
last argument only chooses whether the drop is logged. -/
def ofctrl_check_and_add_flow (t : OvnDesiredFlowTable) (table_id : UInt8)
    (priority : UInt16) (cookie : UInt64) (m : Minimatch) (actions : List UInt8)
    (sb_uuid : Uuid) (_log_duplicate_flow : Bool) : OvnDesiredFlowTable :=
  let f := desired_flow_alloc table_id priority cookie m actions
  match desired_flow_lookup t f.flow (some sb_uuid) with
  | some _ => t
  | none => link_flow_to_sb (insertDesired t f) t.next_id sb_uuid

/-- `ofctrl_add_flow`: `ofctrl_check_and_add_flow` that logs a dropped duplicate. -/
def ofctrl_add_flow (t : OvnDesiredFlowTable) (table_id : UInt8) (priority : UInt16)
    (cookie : UInt64) (m : Minimatch) (actions : List UInt8) (sb_uuid : Uuid) :
    OvnDesiredFlowTable :=
  ofctrl_check_and_add_flow t table_id priority cookie m actions sb_uuid true

/-- `ofctrl_add_or_append_flow`: when a desired flow with the key exists, whatever uuids
reference it, the new actions are appended to its actions and `sb_uuid` gets a new link
to it; otherwise the flow is inserted and linked to `sb_uuid`. -/
def ofctrl_add_or_append_flow (t : OvnDesiredFlowTable) (table_id : UInt8)
    (priority : UInt16) (cookie : UInt64) (m : Minimatch) (actions : List UInt8)
    (sb_uuid : Uuid) : OvnDesiredFlowTable :=
  let f := desired_flow_alloc table_id priority cookie m actions
  match desired_flow_lookup t f.flow none with
  | some e =>
    let t := t.modifyFlow e fun g =>
      { g with flow := { g.flow with ofpacts := g.flow.ofpacts ++ f.flow.ofpacts } }
    link_flow_to_sb t e sb_uuid
  | none => link_flow_to_sb (insertDesired t f) t.next_id sb_uuid

/-! ## Removing flows -/

/-- The removal of a desired flow whose last reference is gone: it leaves
`match_flow_table`, is unlinked from its installed flow and is freed. -/
def removeDesired (ft : FlowTables) (d : Nat) (f : DesiredFlow) : Option FlowTables := do
  let ft := { ft with desired := { ft.desired with
    match_flow_table := ft.desired.match_flow_table.erase d } }
  let ft ← match f.installed_flow with
    | some i => unlink_installed_to_desired ft i d
    | none => some ft
  desired_flow_destroy ft d

/-- The removal of the `sb_flow_ref` node `r` from its flow's references, and its freeing.
The flow it named, with `r` gone, comes back too. -/
def dropRef (t : OvnDesiredFlowTable) (r : Nat) : Option (OvnDesiredFlowTable × Nat × DesiredFlow) :=
  match t.ref_heap r with
  | none => none
  | some sfr =>
    match t.flow_heap sfr.flow with
    | none => none
    | some f =>
      let f := { f with references := f.references.erase r }
      some ({ t with ref_heap := Function.update t.ref_heap r none }.setFlow sfr.flow (some f),
            sfr.flow, f)

theorem removeDesired_desired {ft ft' : FlowTables} {d : Nat} {f : DesiredFlow}
    (h : removeDesired ft d f = some ft') :
    ∃ g, ft.desired.flow_heap d = some g ∧ g.references = [] ∧
      ft'.desired = { ft.desired with match_flow_table := ft.desired.match_flow_table.erase d,
                                      flow_heap := Function.update ft.desired.flow_heap d none } := by
  unfold removeDesired at h
  dsimp only at h
  split at h
  · obtain ⟨ft1, h1, h2⟩ := Option.bind_eq_some.1 h
    obtain ⟨g', hg', hr, -, rfl⟩ := desired_flow_destroy_some h2
    obtain ⟨f0, g, -, hg, -, -, -, rfl⟩ := unlink_installed_to_desired_some h1
    simp only [OvnDesiredFlowTable.setFlow_heap, if_pos, Option.some.injEq] at hg'
    subst hg'
    exact ⟨g, hg, hr, by simp [OvnDesiredFlowTable.setFlow, Function.update_idem]⟩
  · obtain ⟨g', hg', hr, -, rfl⟩ := desired_flow_destroy_some h
    exact ⟨g', hg', hr, rfl⟩

theorem removeDesired_heap {ft ft' : FlowTables} {d : Nat} {f : DesiredFlow}
    (h : removeDesired ft d f = some ft') (d' : Nat) :
    ft'.desired.flow_heap d' = if d' = d then none else ft.desired.flow_heap d' := by
  obtain ⟨-, -, -, e⟩ := removeDesired_desired h
  rw [e]; simp [Function.update_apply]

theorem dropRef_some {t t1 : OvnDesiredFlowTable} {r d : Nat} {f : DesiredFlow}
    (h : dropRef t r = some (t1, d, f)) :
    ∃ s g, t.ref_heap r = some s ∧ s.flow = d ∧ t.flow_heap d = some g ∧
      f = { g with references := g.references.erase r } ∧
      t1 = { t with ref_heap := Function.update t.ref_heap r none }.setFlow d (some f) := by
  unfold dropRef at h
  split at h
  · cases h
  · split at h
    · cases h
    · cases h
      exact ⟨_, _, ‹_›, rfl, ‹_›, rfl, rfl⟩

theorem dropRef_live {t : OvnDesiredFlowTable} {r : Nat} {s : SbFlowRef} {g : DesiredFlow}
    (hs : t.ref_heap r = some s) (hg : t.flow_heap s.flow = some g) :
    ∃ t1, dropRef t r = some (t1, s.flow, { g with references := g.references.erase r }) :=
  ⟨_, by simp only [dropRef, hs, hg]; rfl⟩

/-- One turn of the loop of `remove_flows_from_sb_to_flow`. The node also leaves the
entry's list, which is freed after the loop; nothing in the loop reads that list. -/
def removeRef (ft : FlowTables) (r : Nat) : Option FlowTables := do
  let (t, d, f) ← dropRef ft.desired r
  let ft := { ft with desired := t }
  if f.references = [] then removeDesired ft d f else some ft

/-- The `hmap_remove` of the entry of `sb_uuid` from `uuid_flow_table`. -/
def eraseEntry (l : List SbToFlow) (sb_uuid : Uuid) : List SbToFlow :=
  l.eraseP (·.sb_uuid == sb_uuid)

theorem dropRef_ref_ne {t t1 : OvnDesiredFlowTable} {r d : Nat} {f : DesiredFlow}
    (h : dropRef t r = some (t1, d, f)) {r' : Nat} (e : r' ≠ r) : t1.ref_heap r' = t.ref_heap r' := by
  obtain ⟨s, g, -, -, -, -, rfl⟩ := dropRef_some h
  simp [Function.update_apply, e]

theorem dropRef_ref_self {t t1 : OvnDesiredFlowTable} {r d : Nat} {f : DesiredFlow}
    (h : dropRef t r = some (t1, d, f)) : t1.ref_heap r = none := by
  obtain ⟨s, g, -, -, -, -, rfl⟩ := dropRef_some h
  simp

theorem dropRef_heap_ne {t t1 : OvnDesiredFlowTable} {r d : Nat} {f : DesiredFlow}
    (h : dropRef t r = some (t1, d, f)) {d' : Nat} (e : d' ≠ d) :
    t1.flow_heap d' = t.flow_heap d' := by
  obtain ⟨s, g, -, rfl, -, -, rfl⟩ := dropRef_some h
  simp [e]

theorem dropRef_uuid {t t1 : OvnDesiredFlowTable} {r d : Nat} {f : DesiredFlow}
    (h : dropRef t r = some (t1, d, f)) : t1.uuid_flow_table = t.uuid_flow_table := by
  obtain ⟨s, g, -, -, -, -, rfl⟩ := dropRef_some h
  rfl

theorem dropRef_heap {t t1 : OvnDesiredFlowTable} {r d : Nat} {f : DesiredFlow}
    (h : dropRef t r = some (t1, d, f)) : t1.flow_heap d = some f := by
  obtain ⟨s, g, -, -, -, -, rfl⟩ := dropRef_some h
  simp

theorem removeRef_cases {ft ft' : FlowTables} {r : Nat} (h : removeRef ft r = some ft') :
    ∃ t1 d f, dropRef ft.desired r = some (t1, d, f) ∧
      ((f.references = [] ∧ removeDesired { ft with desired := t1 } d f = some ft') ∨
        (f.references ≠ [] ∧ ft' = { ft with desired := t1 })) := by
  unfold removeRef at h
  obtain ⟨⟨t1, d, f⟩, hd, h2⟩ := Option.bind_eq_some.1 h
  refine ⟨t1, d, f, hd, ?_⟩
  dsimp only at h2
  split at h2
  · exact .inl ⟨‹_›, h2⟩
  · cases h2; exact .inr ⟨‹_›, rfl⟩

theorem removeRef_uuid {ft ft' : FlowTables} {r : Nat} (h : removeRef ft r = some ft') :
    ft'.desired.uuid_flow_table = ft.desired.uuid_flow_table := by
  obtain ⟨t1, d, f, hd, ⟨-, h2⟩ | ⟨-, rfl⟩⟩ := removeRef_cases h
  · obtain ⟨-, -, -, e⟩ := removeDesired_desired h2
    have := dropRef_uuid hd
    rw [e]; exact this
  · exact dropRef_uuid hd

/-- `remove_flows_from_sb_to_flow`: every link of the entry goes, flows left with no link
are removed, and the entry is freed. -/
def remove_flows_from_sb_to_flow (ft : FlowTables) (stf : SbToFlow) : Option FlowTables := do
  let ft ← stf.flows.foldlM removeRef ft
  some { ft with desired := { ft.desired with
    uuid_flow_table := eraseEntry ft.desired.uuid_flow_table stf.sb_uuid } }

theorem remove_flows_from_sb_to_flow_uuid {ft ft' : FlowTables} {stf : SbToFlow}
    (h : remove_flows_from_sb_to_flow ft stf = some ft') :
    ft'.desired.uuid_flow_table = eraseEntry ft.desired.uuid_flow_table stf.sb_uuid := by
  unfold remove_flows_from_sb_to_flow at h
  obtain ⟨ft1, h1, h2⟩ := Option.bind_eq_some.1 h
  cases h2
  have := foldlM_inv (fun ft1 : FlowTables =>
    ft1.desired.uuid_flow_table = ft.desired.uuid_flow_table)
    (fun _ _ _ e hr => (removeRef_uuid hr).trans e) rfl h1
  simp only [this]

/-- The flow-table part of `ofctrl_remove_flows`: the flows of `sb_uuid`'s entry, when
there is one. -/
def removeFlowsOf (ft : FlowTables) (sb_uuid : Uuid) : Option FlowTables :=
  match sb_to_flow_find ft.desired.uuid_flow_table sb_uuid with
  | some stf => remove_flows_from_sb_to_flow ft stf
  | none => some ft

/-- `ovn_desired_flow_table_clear`: the flows of every entry of `uuid_flow_table`. -/
def ovn_desired_flow_table_clear (ft : FlowTables) : Option FlowTables :=
  ft.desired.uuid_flow_table.foldlM remove_flows_from_sb_to_flow ft

end OvnOfctrl
