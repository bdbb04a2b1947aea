-- The connection state machine of ofctrl.c: the TLV negotiation of OVN's Geneve option,
-- the reset of the switch in S_CLEAR_FLOWS, barrier replies in S_UPDATE_FLOWS, and
-- `ofctrl_run`, which detects a new connection and runs at most 50 turns of the machine.
import OvnOfctrl.Ofctrl

namespace OvnOfctrl

/-! ## S_NEW and the TLV negotiation -/

/-- `run_S_NEW`: the TLV table request is sent and its xid kept. -/
def run_S_NEW (e : Ofctrl) : Ofctrl :=
  let (e, x) := queue_msg e .tlvTableRequest
  { e with xid := x, state := .S_TLV_TABLE_REQUESTED }

/-- Modelled from the spec: OVN's Geneve option class, a fixed value of OVN's headers. -/
def OVN_GENEVE_CLASS : UInt16 := 0x0102
/-- Modelled from the spec: OVN's Geneve option type. -/
def OVN_GENEVE_TYPE : UInt8 := 0x80
/-- Modelled from the spec: OVN's Geneve option length. -/
def OVN_GENEVE_LEN : UInt8 := 4
/-- The number of tunnel metadata fields, as the source's `BUILD_ASSERT` fixes it. -/
def TUN_METADATA_NUM_OPTS : Nat := 64

/-- Whether a mapping is OVN's option. -/
def isOvnOption (map : TlvMap) : Bool :=
  map.option_class == OVN_GENEVE_CLASS && map.option_type == OVN_GENEVE_TYPE &&
    map.option_len == OVN_GENEVE_LEN

/-- The loop of `process_tlv_table_reply`: OVN's option ends it with its index; every
other mapping with an index below 64 clears that bit of `md_free`. -/
def tlvScan : List TlvMap → UInt64 → UInt16 ⊕ UInt64
  | [], md_free => .inr md_free
  | map :: rest, md_free =>
    if isOvnOption map then .inl map.index
    else tlvScan rest (if map.index.toNat < TUN_METADATA_NUM_OPTS
      then md_free &&& ~~~((1 : UInt64) <<< map.index.toUInt64) else md_free)

/-- The library's `rightmost_1bit_idx`: the index of the lowest set bit of a nonzero
word. -/
def rightmost_1bit_idx (x : UInt64) : Nat :=
  ((List.range 64).find? fun i => (x >>> i.toUInt64) &&& 1 != 0).getD 64

/-- `process_tlv_table_reply`: OVN's option already mapped is taken when its index is
below 64; otherwise the lowest free index is requested with a TLV table mod and a
barrier. `false` means that nothing was done. -/
def process_tlv_table_reply (e : Ofctrl) (mappings : List TlvMap) : Bool × Ofctrl :=
  match tlvScan mappings 0xFFFFFFFFFFFFFFFF with
  | .inl index =>
    if index.toNat ≥ TUN_METADATA_NUM_OPTS then (false, e)
    else (true, { e with mff_ovn_geneve := some index.toNat, state := .S_CLEAR_FLOWS })
  | .inr md_free =>
    if md_free = 0 then (false, e)
    else
      let index := rightmost_1bit_idx md_free
      let e := { e with mff_ovn_geneve := some index }
      let (e, x) := queue_msg e (.tlvTableMod index)
      let (e, x2) := queue_msg e .barrierRequest
      (true, { e with xid := x, xid2 := x2, state := .S_TLV_TABLE_MOD_SENT })

/-- The error path of `recv_S_TLV_TABLE_REQUESTED`: tunnel metadata is disabled. -/
def tlvRequestFailed (e : Ofctrl) : Ofctrl :=
  { e with mff_ovn_geneve := none, state := .S_CLEAR_FLOWS }

/-- `recv_S_TLV_TABLE_REQUESTED`. -/
def recv_S_TLV_TABLE_REQUESTED (e : Ofctrl) (m : Received) (type : OfpType) : Ofctrl :=
  if m.xid ≠ e.xid then ofctrl_recv e m
  else match type with
    | .tlvTableReply (some mappings) =>
      let (ok, e) := process_tlv_table_reply e mappings
      if ok then e else tlvRequestFailed e
    | _ => tlvRequestFailed e

/-- `recv_S_TLV_TABLE_MOD_SENT`: the barrier reply commits the requested field; a race
with another controller starts over; any other answer to our xids goes to
`S_CLEAR_FLOWS`. -/
def recv_S_TLV_TABLE_MOD_SENT (e : Ofctrl) (m : Received) (type : OfpType) : Ofctrl :=
  if m.xid ≠ e.xid ∧ m.xid ≠ e.xid2 then ofctrl_recv e m
  else if m.xid = e.xid2 ∧ type = .barrierReply then { e with state := .S_CLEAR_FLOWS }
  else if m.xid = e.xid then
    match type with
    | .error err =>
      if err = .NXTTMFC_ALREADY_MAPPED ∨ err = .NXTTMFC_DUP_ENTRY then { e with state := .S_NEW }
      else { e with state := .S_CLEAR_FLOWS }
    | _ => { e with state := .S_CLEAR_FLOWS }
  else { e with state := .S_CLEAR_FLOWS }

/-! ## S_CLEAR_FLOWS and S_UPDATE_FLOWS -/

/-- `run_S_CLEAR_FLOWS`: flows, groups and meters are deleted on the switch and forgotten
here, the flow updates are dropped, and the flows will be reinstalled. -/
def run_S_CLEAR_FLOWS (e : Ofctrl) : Option Ofctrl := do
  let e := { e with need_reinstall_flows := true }
  let (e, _) := queue_msg e (.flowMod .deleteAll)
  let (e, _) := queue_msg e (.groupMod .deleteAll)
  let tables ← ovn_installed_flow_table_clear e.tables
  let e := { e with tables, groups := ovn_extend_table_clear e.groups true }
  let (e, _) := queue_msg e (.meterMod .deleteAll)
  some { e with meters := ovn_extend_table_clear e.meters true, flow_updates := [],
                state := .S_UPDATE_FLOWS }

/-- `recv_S_CLEAR_FLOWS`. -/
def recv_S_CLEAR_FLOWS (e : Ofctrl) (m : Received) : Ofctrl := ofctrl_recv e m

/-- The conntrack flushes waiting for the barrier `xid` pass to the database stage. -/
def ctZonesFlushed (zones : List (String × CtZonePendingEntry)) (xid : UInt32) :
    List (String × CtZonePendingEntry) :=
  zones.map fun p =>
    if p.2.state = .CT_ZONE_OF_SENT ∧ p.2.of_xid = xid then
      (p.1, { p.2 with state := .CT_ZONE_DB_QUEUED }) else p

/-- `recv_S_UPDATE_FLOWS`: a barrier reply, while flow updates are in flight, retires the
oldest one when it carries its xid, and passes on the ct flushes it certifies. -/
def recv_S_UPDATE_FLOWS (e : Ofctrl) (m : Received) (type : OfpType) : Ofctrl :=
  match type, e.flow_updates with
  | .barrierReply, fup :: rest =>
    let e := if fup.xid = m.xid then
        { e with cur_cfg := if fup.nb_cfg ≥ e.cur_cfg then fup.nb_cfg else e.cur_cfg,
                 flow_updates := rest }
      else e
    { e with pending_ct_zones := ctZonesFlushed e.pending_ct_zones m.xid }
  | _, _ => ofctrl_recv e m

/-! ## ofctrl_run -/

/-- The `run_##NAME` of the current state. -/
def runState (e : Ofctrl) : Option Ofctrl :=
  match e.state with
  | .S_NEW => some (run_S_NEW e)
  | .S_CLEAR_FLOWS => run_S_CLEAR_FLOWS e
  | _ => some e

/-- The `recv_##NAME` of the current state; `recv_S_NEW` is `OVS_NOT_REACHED`. -/
def recvState (e : Ofctrl) (m : Received) (type : OfpType) : Option Ofctrl :=
  match e.state with
  | .S_NEW => none
  | .S_TLV_TABLE_REQUESTED => some (recv_S_TLV_TABLE_REQUESTED e m type)
  | .S_TLV_TABLE_MOD_SENT => some (recv_S_TLV_TABLE_MOD_SENT e m type)
  | .S_CLEAR_FLOWS => some (recv_S_CLEAR_FLOWS e m)
  | .S_UPDATE_FLOWS => some (recv_S_UPDATE_FLOWS e m type)

/-- A message `rconn_recv` returned: the switch's side, then the `recv_##NAME` of the
state when the message decodes. -/
def recvMsg (e : Ofctrl) (m : Received) : Option Ofctrl :=
  let e := { e with swconn := e.swconn.receive m }
  match m.type with
  | none => some e
  | some type => recvState e m type

/-- The loop of `ofctrl_run`: each turn runs the state, then handles the message
`rconn_recv` returns, if any; it goes on while the state changes or a message comes. -/
def ofctrlRunLoop : Nat → Ofctrl → List (Option Received) → Option Ofctrl
  | 0, e, _ => some e
  | n + 1, e, msgs => do
    let old_state := e.state
    let e ← runState e
    let msg := msgs.head?.join
    let e ← match msg with
      | none => some e
      | some m => recvMsg e m
    if old_state ≠ e.state ∨ msg.isSome then ofctrlRunLoop n e msgs.tail else some e

/-- Outstanding ct flushes are queued again. -/
def ctZonesRewound (zones : List (String × CtZonePendingEntry)) :
    List (String × CtZonePendingEntry) :=
  zones.map fun p =>
    if p.2.state = .CT_ZONE_OF_SENT then (p.1, { p.2 with state := .CT_ZONE_OF_QUEUED }) else p

/-- `rconn_run`: `established` says whether it made a new connection. -/
def rconnRun (e : Ofctrl) (established : Bool) : Ofctrl :=
  if established then { e with swconn := e.swconn.reconnect } else e

/-- The check of the connection sequence number: a new connection restarts the machine in
`S_NEW` and queues the outstanding ct flushes again. -/
def checkSeqno (e : Ofctrl) : Ofctrl :=
  if e.seqno ≠ e.swconn.seqno then
    { e with seqno := e.swconn.seqno, state := .S_NEW,
             pending_ct_zones := ctZonesRewound e.pending_ct_zones }
  else e

/-- `ofctrl_run`. `recvd` is what `rconn_recv` returns at each turn of the loop. -/
def ofctrl_run (e : Ofctrl) (established : Bool) (recvd : List (Option Received)) :
    Option Ofctrl :=
  let e := rconnRun e established
  if !e.swconn.connected then some e
  else ofctrlRunLoop 50 (checkSeqno e) recvd

end OvnOfctrl
