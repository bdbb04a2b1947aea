-- The file-scope state of ofctrl.c, with the two statics of `ofctrl_put`, the caller's
-- desired table and pending ct zones, the group and meter tables, the switch connection
-- and the process-wide xid allocator, as one record.
import OvnOfctrl.Desired
import OvnOfctrl.Extend
import OvnOfctrl.Messages

namespace OvnOfctrl

/-- The states of the connection state machine. -/
inductive OfctrlState where
  | S_NEW
  | S_TLV_TABLE_REQUESTED
  | S_TLV_TABLE_MOD_SENT
  | S_CLEAR_FLOWS
  | S_UPDATE_FLOWS
deriving DecidableEq, Repr

/-- A `struct ofctrl_flow_update`: the barrier whose reply certifies `nb_cfg`. -/
structure OfctrlFlowUpdate where
  xid : UInt32
  nb_cfg : Int
deriving DecidableEq, Repr

/-- The stages of a pending ct zone (ovn-controller.h, not among these files; ofctrl.c reads
and writes the first three). -/
inductive CtZonePendingState where
  | CT_ZONE_OF_QUEUED
  | CT_ZONE_OF_SENT
  | CT_ZONE_DB_QUEUED
  | CT_ZONE_DB_SENT
deriving DecidableEq, Repr

/-- A `struct ct_zone_pending_entry`, with the fields ofctrl.c uses. -/
structure CtZonePendingEntry where
  zone : Nat
  state : CtZonePendingState
  of_xid : UInt32
deriving DecidableEq, Repr

/-- The state ofctrl.c works on. `mff_ovn_geneve` is `some k` for the field
`MFF_TUN_METADATA0 + k` and `none` for 0, tunnel metadata disabled. -/
structure Ofctrl where
  state : OfctrlState
  seqno : Nat
  xid : UInt32
  xid2 : UInt32
  mff_ovn_geneve : Option Nat
  need_reinstall_flows : Bool
  flow_updates : List OfctrlFlowUpdate
  cur_cfg : Int
  tables : FlowTables
  groups : OvnExtendTable
  meters : OvnExtendTable
  skipped_last_time : Bool
  old_nb_cfg : Int
  pending_ct_zones : List (String × CtZonePendingEntry)
  swconn : Rconn
  next_xid : UInt32

/-- The state after `ofctrl_init`, with empty caller tables: every static at zero, and the
library's xid counter at 1. -/
def ofctrl_init : Ofctrl where
  state := .S_NEW
  seqno := 0
  xid := 0
  xid2 := 0
  mff_ovn_geneve := none
  need_reinstall_flows := false
  flow_updates := []
  cur_cfg := 0
  tables := ⟨ovn_desired_flow_table_init, InstalledTable.empty⟩
  groups := OvnExtendTable.empty
  meters := OvnExtendTable.empty
  skipped_last_time := false
  old_nb_cfg := 0
  pending_ct_zones := []
  swconn := Rconn.init
  next_xid := 1

/-- The `queue_msg` of a message encoded with a fresh xid from the library's counter: it
is sent on the connection, and its xid comes back. -/
def queue_msg (e : Ofctrl) (m : OfpMsg) : Ofctrl × UInt32 :=
  ({ e with swconn := e.swconn.send ⟨e.next_xid, m⟩, next_xid := e.next_xid + 1 }, e.next_xid)

/-- Messages queued one after the other. -/
def queueMsgs (e : Ofctrl) (ms : List OfpMsg) : Ofctrl :=
  ms.foldl (fun e m => (queue_msg e m).1) e

/-- `ofctrl_recv`: an echo request is answered with its own xid; anything else is only
logged. -/
def ofctrl_recv (e : Ofctrl) (m : Received) : Ofctrl :=
  if m.type = some .echoRequest then { e with swconn := e.swconn.send ⟨m.xid, .echoReply⟩ }
  else e

/-- `ofctrl_get_mf_field_id`: the negotiated field while connected in a steady state,
0 otherwise. -/
def ofctrl_get_mf_field_id (e : Ofctrl) : Option Nat :=
  if !e.swconn.connected then none
  else if e.state = .S_CLEAR_FLOWS ∨ e.state = .S_UPDATE_FLOWS then e.mff_ovn_geneve
  else none

/-- `ofctrl_get_cur_cfg`. -/
def ofctrl_get_cur_cfg (e : Ofctrl) : Int := e.cur_cfg

/-- `ofctrl_can_put`: in `S_UPDATE_FLOWS`, with nothing waiting to be transmitted, on a
connection with a version (one that is up). -/
def ofctrl_can_put (e : Ofctrl) : Bool :=
  e.state = .S_UPDATE_FLOWS && e.swconn.tx_packets = 0 && e.swconn.connected

end OvnOfctrl
