-- The flood removal of ofctrl.c: removing the flows of a uuid also removes, recursively,
-- the flows of every uuid that shares a flow with it. `flood_remove_nodes` is both the
-- work list and the set of visited uuids: the recursion inserts into it, and the top-level
-- loop walks it with HMAP_FOR_EACH while the calls insert. The model keeps the map as the list
-- of its uuids in the order they were inserted, which fixes its layout (`floodNodesMap`), and
-- membership in that list is `flood_remove_find_node`. The recursion and the walk are given
-- fuel: the recursion one level more than the number of uuid entries, the walk a number of
-- turns that no walk needs.
import OvnOfctrl.Desired
import OvnOfctrl.Hmap

namespace OvnOfctrl

/-- What one call of `flood_remove_flows_for_sb_uuid` returns: the tables and the uuids of
`flood_remove_nodes`. -/
abbrev FloodResult := Option (FlowTables × List Uuid)

/-- One turn of the first loop of `flood_remove_flows_for_sb_uuid`: the node `r` goes and
is freed; its flow must not be in a `to_be_removed` list. A flow left with no reference is
removed; any other joins `to_be_removed`. -/
def floodFirstTurn (acc : FlowTables × List Nat) (r : Nat) : Option (FlowTables × List Nat) := do
  let (t, d, f) ← dropRef acc.1.desired r
  let ft := { acc.1 with desired := t }
  if f.list_node then none
  else if f.references = [] then
    let ft ← removeDesired ft d f
    some (ft, acc.2)
  else some ({ ft with desired := ft.desired.setFlow d (some { f with list_node := true }) },
             acc.2 ++ [d])

/-- The `ovs_list_remove (&sfr->flow_list)` of the node `r`: it leaves the list of the
entry that holds it. -/
def detachRef (l : List SbToFlow) (r : Nat) : List SbToFlow :=
  l.map fun stf => { stf with flows := stf.flows.erase r }

/-- One turn of the detach loop: every reference of `d` leaves its entry's list, so that
the recursive calls do not reach `d`. `d` must still have a reference. -/
def floodDetach (ft : FlowTables) (d : Nat) : Option FlowTables :=
  match ft.desired.flow_heap d with
  | none => none
  | some f =>
    if f.references = [] then none
    else some { ft with desired := { ft.desired with
      uuid_flow_table := f.references.foldl detachRef ft.desired.uuid_flow_table } }

section Loops

variable (recur : FlowTables → Uuid → List Uuid → FloodResult)

/-- The inner loop of the last loop, over the references of a flow: an unvisited uuid is
added to the nodes and flooded, then the node leaves the flow's references and is freed. -/
def floodRemoveRefsOf : List Nat → FlowTables × List Uuid → FloodResult
  | [], acc => some acc
  | r :: rest, (ft, nodes) => do
    let sfr ← ft.desired.ref_heap r
    let (ft, nodes) ← (if sfr.sb_uuid ∈ nodes then some (ft, nodes)
      else recur ft sfr.sb_uuid (nodes ++ [sfr.sb_uuid]))
    let (t, _, _) ← dropRef ft.desired r
    floodRemoveRefsOf rest ({ ft with desired := t }, nodes)

/-- The last loop of `flood_remove_flows_for_sb_uuid`, over `to_be_removed`: each flow's
other uuids are flooded, then the flow leaves the list and is removed. -/
def floodRemoveEach : List Nat → FlowTables × List Uuid → FloodResult
  | [], acc => some acc
  | d :: rest, (ft, nodes) => do
    let f ← ft.desired.flow_heap d
    let (ft, nodes) ← floodRemoveRefsOf recur f.references (ft, nodes)
    let g ← ft.desired.flow_heap d
    let g := { g with list_node := false }
    let ft ← removeDesired { ft with desired := ft.desired.setFlow d (some g) } d g
    floodRemoveEach rest (ft, nodes)

/-- The body of `flood_remove_flows_for_sb_uuid`, with its recursive call as `recur`. -/
def floodBody (ft : FlowTables) (sb_uuid : Uuid) (nodes : List Uuid) : FloodResult :=
  match sb_to_flow_find ft.desired.uuid_flow_table sb_uuid with
  | none => some (ft, nodes)
  | some stf => do
    let (ft, to_be_removed) ← stf.flows.foldlM floodFirstTurn (ft, [])
    let ft := { ft with desired := { ft.desired with
      uuid_flow_table := eraseEntry ft.desired.uuid_flow_table sb_uuid } }
    let ft ← to_be_removed.foldlM floodDetach ft
    floodRemoveEach recur to_be_removed (ft, nodes)

end Loops

/-- `flood_remove_flows_for_sb_uuid`, with `fuel` bounding the depth of the recursion. -/
def flood_remove_flows_for_sb_uuid : Nat → FlowTables → Uuid → List Uuid → FloodResult
  | 0, _, _, _ => none
  | fuel + 1, ft, sb_uuid, nodes =>
    floodBody (flood_remove_flows_for_sb_uuid fuel) ft sb_uuid nodes

/-- `uuid_hash`: the uuid's first 32-bit word. -/
def uuid_hash (u : Uuid) : Nat := u % 4294967296

/-- The map `flood_remove_nodes`, built by `ofctrl_flood_remove_add_node` of its uuids in
order from `hmap_init`. -/
def floodNodesMap (nodes : List Uuid) : Hmap Uuid := hmapOfList uuid_hash nodes

/-- The first loop of `ofctrl_flood_remove_flows` from the node of `u` on: the flood of its
uuid, then `hmap_next` in the map as the flood left it. `turns` bounds the number of turns. -/
def floodWalk (depth : Nat) : Nat → FlowTables → List Uuid → Uuid → FloodResult
  | 0, _, _, _ => none
  | turns + 1, ft, nodes, u => do
    let (ft, nodes) ← flood_remove_flows_for_sb_uuid depth ft u nodes
    match hmap_next uuid_hash (floodNodesMap nodes) u with
    | none => some (ft, nodes)
    | some v => floodWalk depth turns ft nodes v

/-- The flow-table part of `ofctrl_flood_remove_flows`: HMAP_FOR_EACH over
`flood_remove_nodes`, from `hmap_first`, flooding each uuid it meets. -/
def floodRemoveFlows (ft : FlowTables) (flood_remove_nodes : List Uuid) : FloodResult :=
  let entries := ft.desired.uuid_flow_table.length
  match hmap_first (floodNodesMap flood_remove_nodes) with
  | none => some (ft, flood_remove_nodes)
  | some u => floodWalk (entries + 1)
      ((flood_remove_nodes.length + entries + 1) * (entries + 1)) ft flood_remove_nodes u

end OvnOfctrl
