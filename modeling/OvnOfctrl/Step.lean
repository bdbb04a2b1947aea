-- The engine as a state machine: every call the host makes (ofctrl_run, ofctrl_put, the
-- desired-table operations, ofctrl_inject_pkt) and every event of its environment (the
-- connection dropping, packets leaving the queue, the caller's ct zones and extend
-- tables, other users of the xid counter) is one step.
import OvnOfctrl.Put
import OvnOfctrl.FloodRemove

namespace OvnOfctrl

/-! ## The public table operations -/

/-- `ofctrl_remove_flows`: the flows of `sb_uuid`, then its groups and meters. -/
def ofctrl_remove_flows (e : Ofctrl) (sb_uuid : Uuid) : Option Ofctrl := do
  let tables ← removeFlowsOf e.tables sb_uuid
  some { e with tables, groups := ovn_extend_table_remove_desired e.groups sb_uuid,
                meters := ovn_extend_table_remove_desired e.meters sb_uuid }

/-- `ofctrl_flood_remove_flows`: the flood, then, in a second HMAP_FOR_EACH over
`flood_remove_nodes`, the groups and meters of every uuid in it. The uuids of the map come
back with the state. -/
def ofctrl_flood_remove_flows (e : Ofctrl) (flood_remove_nodes : List Uuid) :
    Option (Ofctrl × List Uuid) := do
  let (tables, nodes) ← floodRemoveFlows e.tables flood_remove_nodes
  let visit := (floodNodesMap nodes).buckets.flatten
  some ({ e with tables,
                 groups := visit.foldl ovn_extend_table_remove_desired e.groups,
                 meters := visit.foldl ovn_extend_table_remove_desired e.meters }, nodes)

/-- The operations of the caller on its desired table. -/
inductive DesiredOp where
  | check_and_add (table_id : UInt8) (priority : UInt16) (cookie : UInt64) (m : Minimatch)
      (actions : List UInt8) (sb_uuid : Uuid) (log_duplicate_flow : Bool)
  | add_or_append (table_id : UInt8) (priority : UInt16) (cookie : UInt64) (m : Minimatch)
      (actions : List UInt8) (sb_uuid : Uuid)
  | remove_flows (sb_uuid : Uuid)
  | flood_remove_flows (flood_remove_nodes : List Uuid)
  | clear

/-- A desired-table operation on the state. -/
def desiredOp (e : Ofctrl) : DesiredOp → Option Ofctrl
  | .check_and_add t p c m a u l =>
    some { e with tables := { e.tables with
      desired := ofctrl_check_and_add_flow e.tables.desired t p c m a u l } }
  | .add_or_append t p c m a u =>
    some { e with tables := { e.tables with
      desired := ofctrl_add_or_append_flow e.tables.desired t p c m a u } }
  | .remove_flows u => ofctrl_remove_flows e u
  | .flood_remove_flows nodes => (ofctrl_flood_remove_flows e nodes).map (·.1)
  | .clear => (ovn_desired_flow_table_clear e.tables).map fun tables => { e with tables }

/-- `ofctrl_inject_pkt`: a packet-out is queued when the channel has a version and the
expression parses to a port of the bridge (`ok`). -/
def ofctrl_inject_pkt (e : Ofctrl) (ok : Bool) : Ofctrl :=
  if e.swconn.connected && ok then (queue_msg e .packetOut).1 else e

/-! ## Steps -/

/-- A step of the engine or of its environment. -/
inductive Event where
  /-- A call of `ofctrl_run`. -/
  | run (established : Bool) (recvd : List (Option Received))
  /-- A call of `ofctrl_put`. -/
  | put (p : ModParse) (meter_table : List SbrecMeter) (nb_cfg : Int) (flow_changed : Bool)
  /-- An operation on the desired table. -/
  | desired (op : DesiredOp)
  /-- An entry asked for in the group table (`groups`) or the meter table. -/
  | extend (groups : Bool) (info : OvnExtendTableInfo)
  /-- The caller sets or removes its pending ct zone `name`; it never sends a flush. -/
  | ctZone (name : String) (entry : Option CtZonePendingEntry)
  /-- A call of `ofctrl_inject_pkt`. -/
  | inject (ok : Bool)
  /-- The connection drops. -/
  | drop
  /-- Queued packets leave the connection's queue. -/
  | transmit (n : Nat)
  /-- Other users of the library's xid counter take `n` xids. -/
  | xidsTaken (n : Nat)

/-- The caller's update of its pending ct zones. -/
def setCtZone (zones : List (String × CtZonePendingEntry)) (name : String) :
    Option CtZonePendingEntry → List (String × CtZonePendingEntry)
  | none => zones.filter (·.1 ≠ name)
  | some z => (name, z) :: zones.filter (·.1 ≠ name)

/-- One step. `none` is an abort, or an environment move that cannot happen. -/
def step (e : Ofctrl) : Event → Option Ofctrl
  | .run established recvd => ofctrl_run e established recvd
  | .put p meter_table nb_cfg flow_changed => ofctrl_put e p meter_table nb_cfg flow_changed
  | .desired op => desiredOp e op
  | .extend true info => some { e with groups := { e.groups with desired := info :: e.groups.desired } }
  | .extend false info => some { e with meters := { e.meters with desired := info :: e.meters.desired } }
  | .ctZone name entry =>
    if entry.any (·.state = .CT_ZONE_OF_SENT) then none
    else some { e with pending_ct_zones := setCtZone e.pending_ct_zones name entry }
  | .inject ok => some (ofctrl_inject_pkt e ok)
  | .drop => some { e with swconn := e.swconn.drop }
  | .transmit n => some { e with swconn := { e.swconn with tx_packets := e.swconn.tx_packets - n } }
  | .xidsTaken n => some { e with next_xid := e.next_xid + n.toUInt32 }

/-- What a step of the environment or `ofctrl_inject_pkt` does to the connection: nothing,
a packet-out, a drop, or packets leaving the queue. -/
inductive EnvConn (c : Rconn) : Rconn → Prop
  | same : EnvConn c c
  | packetOut (x : UInt32) : EnvConn c (c.send ⟨x, .packetOut⟩)
  | drop : EnvConn c c.drop
  | transmit (n : Nat) : EnvConn c { c with tx_packets := c.tx_packets - n }

theorem EnvConn.queued {c c' : Rconn} (h : EnvConn c c') :
    ∃ L, barrierXids L = [] ∧ Rconn.Queued c c' L := by
  cases h with
  | packetOut x => exact ⟨_, by split <;> rfl, Rconn.queued_send _ _⟩
  | _ => exact ⟨[], rfl, Rconn.queued_nil rfl rfl rfl⟩

theorem step_cases {e e' : Ofctrl} {ev : Event} (hs : step e ev = some e') :
    (∃ established recvd, ev = .run established recvd ∧
      ofctrl_run e established recvd = some e') ∨
    (∃ p meter_table nb_cfg flow_changed, ev = .put p meter_table nb_cfg flow_changed ∧
      ofctrl_put e p meter_table nb_cfg flow_changed = some e') ∨
    (∃ op, ev = .desired op ∧ desiredOp e op = some e') ∨
    ∃ g m z x c, e' = { e with
      groups := g, meters := m, pending_ct_zones := z, next_xid := x, swconn := c } ∧
      EnvConn e.swconn c := by
  cases ev with
  | run established recvd => exact .inl ⟨_, _, rfl, hs⟩
  | put p meter_table nb_cfg flow_changed => exact .inr (.inl ⟨_, _, _, _, rfl, hs⟩)
  | desired op => exact .inr (.inr (.inl ⟨_, rfl, hs⟩))
  | extend groups info =>
    cases groups <;> (cases hs; exact .inr (.inr (.inr ⟨_, _, _, _, _, rfl, .same⟩)))
  | ctZone name entry =>
    simp only [step] at hs
    split at hs
    · cases hs
    · cases hs; exact .inr (.inr (.inr ⟨_, _, _, _, _, rfl, .same⟩))
  | inject ok =>
    cases hs
    unfold ofctrl_inject_pkt
    split
    · exact .inr (.inr (.inr ⟨_, _, _, _, _, rfl, .packetOut _⟩))
    · exact .inr (.inr (.inr ⟨_, _, _, _, _, rfl, .same⟩))
  | drop => cases hs; exact .inr (.inr (.inr ⟨_, _, _, _, _, rfl, .drop⟩))
  | transmit n => cases hs; exact .inr (.inr (.inr ⟨_, _, _, _, _, rfl, .transmit n⟩))
  | xidsTaken n => cases hs; exact .inr (.inr (.inr ⟨_, _, _, _, _, rfl, .same⟩))

/-- The states a run of the engine reaches from `ofctrl_init`. -/
inductive Reachable : Ofctrl → Prop
  | init : Reachable ofctrl_init
  | step {e e' : Ofctrl} (ev : Event) : Reachable e → step e ev = some e' → Reachable e'

/-- A run: the steps of a list, in order. -/
def exec (e : Ofctrl) : List Event → Option Ofctrl
  | [] => some e
  | ev :: rest => (step e ev).bind (exec · rest)

theorem reachable_exec {e e' : Ofctrl} {evs : List Event} (h : Reachable e)
    (hx : exec e evs = some e') : Reachable e' := by
  induction evs generalizing e with
  | nil =>
    simp only [exec, Option.some.injEq] at hx
    exact hx ▸ h
  | cons ev rest ih =>
    simp only [exec] at hx
    cases hs : step e ev with
    | none => simp [hs] at hx
    | some e1 => exact ih (Reachable.step ev h hs) (by simpa [hs] using hx)

theorem reachable_of_isSome (evs : List Event) (h : (exec ofctrl_init evs).isSome) :
    Reachable ((exec ofctrl_init evs).get h) :=
  reachable_exec .init (Option.some_get h).symm

/-! ## Runs -/

/-- Parsers that accept every string. -/
def acceptAll : ModParse := ⟨fun _ => true, fun _ => true⟩

/-- OVN's option, mapped at index 0. -/
def ovnOptionAt0 : TlvMap := ⟨OVN_GENEVE_CLASS, OVN_GENEVE_TYPE, OVN_GENEVE_LEN, 0⟩

/-- A first connection to a switch that already maps OVN's option at index 0: the machine
goes through S_CLEAR_FLOWS to S_UPDATE_FLOWS and the queue drains. -/
def negotiated : List Event :=
  [.run true [none], .run false [some ⟨1, some (.tlvTableReply (some [ovnOptionAt0]))⟩],
   .transmit 4]

/-- A match for one flow of the runs. -/
def ipMatch : Minimatch := ⟨[0x800], [0xffff]⟩

/-- After the negotiation, one flow of uuid 1 is added and put for revision 1. -/
def onePut : List Event :=
  negotiated ++ [.desired (.check_and_add 0 100 7 ipMatch [1] 1 true), .put acceptAll [] 1 true]

end OvnOfctrl
