-- `ofctrl_put`, the reconciler: when it has to and can, it sends the ct flushes, group and
-- meter changes and flow_mods that bring the switch to the desired table, with a barrier
-- after them, and tracks that barrier against the configuration revision `nb_cfg`.
import OvnOfctrl.StateMachine

namespace OvnOfctrl

/-! ## Flow mods -/

/-- `installed_flow_add`: the add of a desired flow, with its cookie. -/
def installed_flow_add (d : OvnFlow) : FlowMod := .add d.key d.ofpacts d.cookie

/-- `installed_flow_mod`: the update of installed flow `i` to the actions of `d`, as an
add when the cookie changes too, and `i` with `d`'s actions and cookie. -/
def installed_flow_mod (i d : OvnFlow) : FlowMod × OvnFlow :=
  (if i.cookie ≠ d.cookie then .add i.key d.ofpacts d.cookie else .modifyStrict i.key d.ofpacts,
   { i with ofpacts := d.ofpacts, cookie := d.cookie })

/-- `installed_flow_del`: the strict delete of an installed flow's key. -/
def installed_flow_del (i : OvnFlow) : FlowMod := .deleteStrict i.key

/-- `installed_flow_dup`: an installed flow with a desired flow's key and data, linked to
nothing. -/
def installed_flow_dup (src : DesiredFlow) : InstalledFlow :=
  { flow := src.flow, desired_refs := [], desired_flow := none }

/-- One turn of the loop of `ofctrl_put` over installed flows: the flow is unlinked, then
deleted when no desired flow has its key, or updated to the actions and cookie of the
desired flow the lookup finds and linked to it. -/
def putInstalledTurn (acc : FlowTables × List OfpMsg) (i : Nat) :
    Option (FlowTables × List OfpMsg) := do
  let ft ← unlink_all_refs_for_installed_flow acc.1 i
  let f ← ft.installed.flow_heap i
  match desired_flow_lookup ft.desired f.flow none with
  | none =>
    let ft := { ft with installed := { ft.installed with
      installed_flows := ft.installed.installed_flows.erase i } }
    let ft ← installed_flow_destroy ft i
    some (ft, acc.2 ++ [.flowMod (installed_flow_del f.flow)])
  | some d =>
    let g ← ft.desired.flow_heap d
    let (ft, msgs) :=
      if f.flow.ofpacts ≠ g.flow.ofpacts ∨ f.flow.cookie ≠ g.flow.cookie then
        let (fm, flow) := installed_flow_mod f.flow g.flow
        ({ ft with installed := ft.installed.setFlow i (some { f with flow }) },
         acc.2 ++ [.flowMod fm])
      else (ft, acc.2)
    let ft ← link_installed_to_desired ft i d
    some (ft, msgs)

/-- One turn of the loop of `ofctrl_put` over desired flows: a flow whose key is not
installed is added and copied into the installed table; then it is linked to the
installed flow of its key. -/
def putDesiredTurn (acc : FlowTables × List OfpMsg) (d : Nat) :
    Option (FlowTables × List OfpMsg) := do
  let g ← acc.1.desired.flow_heap d
  match installed_flow_lookup acc.1.installed g.flow with
  | some i =>
    let ft ← link_installed_to_desired acc.1 i d
    some (ft, acc.2)
  | none =>
    let it := acc.1.installed
    let i := it.next_id
    let it := { it with flow_heap := Function.update it.flow_heap i (some (installed_flow_dup g)),
                        installed_flows := i :: it.installed_flows, next_id := i + 1 }
    let ft ← link_installed_to_desired { acc.1 with installed := it } i d
    some (ft, acc.2 ++ [.flowMod (installed_flow_add g.flow)])

/-! ## Conntrack flushes, groups and meters -/

/-- The flushes of `ofctrl_put`: each zone queued for a flush gets one, and waits for the
barrier, whose xid is not known yet (0). -/
def flushCtZones (zones : List (String × CtZonePendingEntry)) :
    List OfpMsg × List (String × CtZonePendingEntry) :=
  (zones.filterMap fun p =>
      if p.2.state = .CT_ZONE_OF_QUEUED then some (.ctFlushZone p.2.zone) else none,
   zones.map fun p =>
      if p.2.state = .CT_ZONE_OF_QUEUED then
        (p.1, { p.2 with state := .CT_ZONE_OF_SENT, of_xid := 0 }) else p)

/-- The verdicts of the library parsers on the strings `ofctrl_put` builds:
`parse_ofp_group_mod_str` on a group's string and `parse_ofp_meter_mod_str` on a meter's
string. -/
structure ModParse where
  group_mod : String → Bool
  meter_mod : String → Bool

/-- A southbound `Meter` row, by the name `add_meter` looks up. -/
structure SbrecMeter where
  name : String
deriving DecidableEq, Repr

/-- The group adds of `ofctrl_put`: one for each uninstalled group whose string parses. -/
def groupAdds (p : ModParse) (groups : OvnExtendTable) : List OfpMsg :=
  groups.uninstalled.filterMap fun g =>
    if p.group_mod ("group_id=" ++ toString g.table_id ++ "," ++ g.name)
    then some (.groupMod (.add g.table_id g.name)) else none

/-- `add_meter_string` and `add_meter`: a meter named by its own definition is added when
that parses; any other when the meter table has a row of its name. -/
def meterAdd (p : ModParse) (meter_table : List SbrecMeter) (m : OvnExtendTableInfo) :
    Option OfpMsg :=
  if m.name.startsWith "__string: " then
    if p.meter_mod ("meter=" ++ toString m.table_id ++ "," ++ m.name.drop 52)
    then some (.meterMod (.add m.table_id)) else none
  else if meter_table.any (·.name = m.name) then some (.meterMod (.add m.table_id)) else none

/-- The group deletes of `ofctrl_put` and the synced group table. -/
def groupDeletes (p : ModParse) (groups : OvnExtendTable) : List OfpMsg × OvnExtendTable :=
  let gone := groups.installedUndesired
  (gone.filterMap fun g =>
      if p.group_mod ("group_id=" ++ toString g.table_id)
      then some (.groupMod (.delete g.table_id)) else none,
   ovn_extend_table_sync (gone.foldl ovn_extend_table_remove_existing groups))

/-- The meter deletes of `ofctrl_put` and the synced meter table. -/
def meterDeletes (meters : OvnExtendTable) : List OfpMsg × OvnExtendTable :=
  let gone := meters.installedUndesired
  (gone.map fun m => .meterMod (.delete m.table_id),
   ovn_extend_table_sync (gone.foldl ovn_extend_table_remove_existing meters))

/-! ## Tracking the update -/

/-- The backward walk of the flow-update tracking, on the queue reversed: later
revisions are dropped, the same revision takes the new xid, and an earlier one stops the
walk, after which a new record goes last. -/
def trackRev (nb_cfg : Int) (xid : UInt32) : List OfctrlFlowUpdate → List OfctrlFlowUpdate
  | [] => [⟨xid, nb_cfg⟩]
  | fup :: rest =>
    if nb_cfg < fup.nb_cfg then trackRev nb_cfg xid rest
    else if nb_cfg = fup.nb_cfg then { fup with xid } :: rest
    else ⟨xid, nb_cfg⟩ :: fup :: rest

/-- The flow-update tracking after a barrier with `xid` was sent for `nb_cfg`. -/
def trackFlowUpdate (fus : List OfctrlFlowUpdate) (nb_cfg : Int) (xid : UInt32) :
    List OfctrlFlowUpdate :=
  (trackRev nb_cfg xid fus.reverse).reverse

/-- The end of `ofctrl_put`: messages go out with a barrier after them, which the new
ct flushes and the flow updates wait for; with no message, the last flow update stands
for `nb_cfg`, or `cur_cfg` becomes `nb_cfg` when none is in flight. -/
def putFinish (e : Ofctrl) (msgs : List OfpMsg) (nb_cfg : Int) : Ofctrl :=
  if msgs = [] then
    match e.flow_updates.getLast? with
    | some fup => { e with flow_updates := e.flow_updates.dropLast ++ [{ fup with nb_cfg }] }
    | none => { e with cur_cfg := nb_cfg }
  else
    let e := queueMsgs e msgs
    let (e, xid_) := queue_msg e .barrierRequest
    { e with pending_ct_zones := e.pending_ct_zones.map (fun p =>
               if p.2.state = .CT_ZONE_OF_SENT ∧ p.2.of_xid = 0
               then (p.1, { p.2 with of_xid := xid_ }) else p),
             flow_updates := trackFlowUpdate e.flow_updates nb_cfg xid_ }

/-! ## ofctrl_put -/

/-- The decision of `ofctrl_put` to reconcile, and `cur_cfg` after its shortcut: a new
`nb_cfg` with `cur_cfg` caught up to the previous one moves `cur_cfg` at once. -/
def needPut (e : Ofctrl) (nb_cfg : Int) (flow_changed : Bool) : Bool × Int :=
  if flow_changed || e.skipped_last_time || e.need_reinstall_flows then (true, e.cur_cfg)
  else if nb_cfg ≠ e.old_nb_cfg then
    if e.cur_cfg = e.old_nb_cfg then (false, nb_cfg) else (true, e.cur_cfg)
  else (false, e.cur_cfg)

/-- The reconciliation of `ofctrl_put`, once it runs: the messages, in the order the code
builds them, and the state after them. -/
def putReconcile (e : Ofctrl) (p : ModParse) (meter_table : List SbrecMeter) (nb_cfg : Int) :
    Option Ofctrl := do
  let e := { e with skipped_last_time := false, need_reinstall_flows := false }
  let (ctMsgs, zones) := flushCtZones e.pending_ct_zones
  let meterMsgs := e.meters.uninstalled.filterMap (meterAdd p meter_table)
  let (ft, msgs1) ← e.tables.installed.installed_flows.foldlM putInstalledTurn (e.tables, [])
  let (ft, msgs2) ← ft.desired.match_flow_table.foldlM putDesiredTurn (ft, [])
  let (groupDels, groups) := groupDeletes p e.groups
  let (meterDels, meters) := meterDeletes e.meters
  let msgs := ctMsgs ++ groupAdds p e.groups ++ meterMsgs ++ msgs1 ++ msgs2 ++ groupDels ++ meterDels
  some (putFinish { e with tables := ft, groups, meters, pending_ct_zones := zones } msgs nb_cfg)

/-- `ofctrl_put`. -/
def ofctrl_put (e : Ofctrl) (p : ModParse) (meter_table : List SbrecMeter) (nb_cfg : Int)
    (flow_changed : Bool) : Option Ofctrl :=
  let (need_put, cur_cfg) := needPut e nb_cfg flow_changed
  let e := { e with cur_cfg, old_nb_cfg := nb_cfg }
  if !need_put then some e
  else if !ofctrl_can_put e then some { e with skipped_last_time := true }
  else putReconcile e p meter_table nb_cfg

end OvnOfctrl
