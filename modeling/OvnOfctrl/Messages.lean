-- The OpenFlow messages ofctrl.c sends and receives, and the switch connection: an
-- `rconn` that is up or down, the messages queued on its current connection, its count
-- of packets not yet transmitted, and the barriers the switch has yet to answer.
import OvnOfctrl.Flow

namespace OvnOfctrl

/-! ## Messages sent -/

/-- The flow_mods ofctrl.c sends, as the `struct ofputil_flow_mod` values it builds. -/
inductive FlowMod where
  /-- The delete of `run_S_CLEAR_FLOWS`: `OFPFC_DELETE` on `OFPTT_ALL`, catch-all match. -/
  | deleteAll
  /-- An `OFPFC_ADD` of the key with these actions and `new_cookie`. -/
  | add (key : FlowKey) (ofpacts : List UInt8) (cookie : UInt64)
  /-- An `OFPFC_MODIFY_STRICT` of the key's actions. -/
  | modifyStrict (key : FlowKey) (ofpacts : List UInt8)
  /-- An `OFPFC_DELETE_STRICT` of the key. -/
  | deleteStrict (key : FlowKey)
deriving DecidableEq, Repr

/-- The group_mods ofctrl.c sends. -/
inductive GroupMod where
  | deleteAll
  | add (group_id : Nat) (spec : String)
  | delete (group_id : Nat)
deriving DecidableEq, Repr

/-- The meter_mods ofctrl.c sends. -/
inductive MeterMod where
  | deleteAll
  | add (meter_id : Nat)
  | delete (meter_id : Nat)
deriving DecidableEq, Repr

/-- A message `queue_msg` sends. -/
inductive OfpMsg where
  /-- An `NXT_TLV_TABLE_REQUEST`. -/
  | tlvTableRequest
  /-- An `NXT_TLV_TABLE_MOD` that adds OVN's option at `index`. -/
  | tlvTableMod (index : Nat)
  | barrierRequest
  | flowMod (fm : FlowMod)
  | groupMod (gm : GroupMod)
  | meterMod (mm : MeterMod)
  /-- An `NXT_CT_FLUSH_ZONE`. -/
  | ctFlushZone (zone : Nat)
  | echoReply
  | packetOut
deriving DecidableEq, Repr

/-- The flow_mods among messages, in order. -/
def flowMods (msgs : List OfpMsg) : List FlowMod :=
  msgs.filterMap fun
    | .flowMod fm => some fm
    | _ => none

/-- A message with the xid of its OpenFlow header. -/
structure Sent where
  xid : UInt32
  msg : OfpMsg
deriving DecidableEq, Repr

/-- The xids of the barrier requests among sent messages, in order. -/
def barrierXids (log : List Sent) : List UInt32 :=
  log.filterMap fun s => if s.msg = .barrierRequest then some s.xid else none

@[simp] theorem barrierXids_append (l₁ l₂ : List Sent) :
    barrierXids (l₁ ++ l₂) = barrierXids l₁ ++ barrierXids l₂ :=
  List.filterMap_append ..

@[simp] theorem barrierXids_barrier (x : UInt32) : barrierXids [⟨x, .barrierRequest⟩] = [x] := rfl

/-! ## Messages received -/

/-- The `enum ofperr` values ofctrl.c tells apart. -/
inductive OfpErr where
  | NXTTMFC_ALREADY_MAPPED
  | NXTTMFC_DUP_ENTRY
  | other (code : Nat)
deriving DecidableEq, Repr

/-- A `struct ofputil_tlv_map`: a tunnel option and the index it is mapped to. -/
structure TlvMap where
  option_class : UInt16
  option_type : UInt8
  option_len : UInt8
  index : UInt16
deriving DecidableEq, Repr

/-- A decoded message, by its `enum ofptype`. -/
inductive OfpType where
  /-- An `NXT_TLV_TABLE_REPLY`, with its mappings, or `none` when
  `ofputil_decode_tlv_table_reply` fails. -/
  | tlvTableReply (mappings : Option (List TlvMap))
  | error (err : OfpErr)
  | barrierReply
  | echoRequest
  | other
deriving DecidableEq, Repr

/-- A message `rconn_recv` returns: its xid and its type, or `none` when `ofptype_decode`
fails. -/
structure Received where
  xid : UInt32
  type : Option OfpType
deriving DecidableEq, Repr

/-! ## The connection -/

/-- The `rconn` to the switch. `seqno` is `rconn_get_connection_seqno`; `log` holds the
messages queued on the current connection, in order; `tx_packets` is
`rconn_packet_counter_n_packets (tx_counter)`. `unanswered` and `out_of_order` are the
switch's side: the barriers of the current connection it has not answered, in send
order, and whether a barrier reply ever came that did not answer the oldest of them. -/
structure Rconn where
  seqno : Nat
  connected : Bool
  log : List Sent
  tx_packets : Nat
  unanswered : List UInt32
  out_of_order : Bool
deriving DecidableEq, Repr

namespace Rconn

/-- The `rconn` of `ofctrl_init`, not connected yet. -/
def init : Rconn := ⟨0, false, [], 0, [], false⟩

/-- The `rconn_send` of a message: queued on the current connection, or dropped when the
connection is down. -/
def send (c : Rconn) (s : Sent) : Rconn :=
  if c.connected then
    { c with log := c.log ++ [s], tx_packets := c.tx_packets + 1,
             unanswered := if s.msg = .barrierRequest then c.unanswered ++ [s.xid]
                           else c.unanswered }
  else c

@[simp] theorem send_connected (c : Rconn) (s : Sent) : (c.send s).connected = c.connected := by
  unfold send; split <;> rfl

/-- A new connection made by `rconn_run`: a fresh log, nothing queued or unanswered. -/
def reconnect (c : Rconn) : Rconn :=
  { c with seqno := c.seqno + 1, connected := true, log := [], tx_packets := 0,
           unanswered := [], out_of_order := false }

/-- The connection drops: `rconn` flushes its queue and its sequence number moves. -/
def drop (c : Rconn) : Rconn :=
  { c with seqno := c.seqno + 1, connected := false, tx_packets := 0 }

/-- The switch's side of a received message: a barrier reply answers the oldest
unanswered barrier, or is out of order. -/
def receive (c : Rconn) (m : Received) : Rconn :=
  if m.type = some .barrierReply then
    match c.unanswered with
    | x :: rest => if x = m.xid then { c with unanswered := rest } else { c with out_of_order := true }
    | [] => { c with out_of_order := true }
  else c

theorem receive_eq (c : Rconn) (m : Received) :
    ∃ u o, c.receive m = { c with unanswered := u, out_of_order := o } := by
  unfold receive
  split
  · split
    · split <;> exact ⟨_, _, rfl⟩
    · exact ⟨_, _, rfl⟩
  · exact ⟨_, _, rfl⟩

@[simp] theorem receive_connected (c : Rconn) (m : Received) :
    (c.receive m).connected = c.connected := by
  obtain ⟨u, o, h⟩ := receive_eq c m
  rw [h]

/-- A property of the connection that sending a message other than a flow_mod and the
switch's side of a received message keep: what the receive handlers of ofctrl.c do to it. -/
structure RecvStable (P : Rconn → Prop) : Prop where
  send : ∀ c s, (∀ fm, s.msg ≠ .flowMod fm) → P c → P (c.send s)
  receive : ∀ c m, P c → P (c.receive m)

/-! ### The barriers the switch owes -/

/-- `c'` is `c` with the messages `L` queued: the switch owes a reply to each barrier among
them. -/
structure Queued (c c' : Rconn) (L : List Sent) : Prop where
  log : c'.log = c.log ++ L
  unanswered : c'.unanswered = c.unanswered ++ barrierXids L
  out_of_order : c'.out_of_order = c.out_of_order

theorem queued_nil {c c' : Rconn} (hl : c'.log = c.log) (hu : c'.unanswered = c.unanswered)
    (ho : c'.out_of_order = c.out_of_order) : Queued c c' [] :=
  ⟨by simp [hl], by simp [hu, barrierXids], ho⟩

theorem Queued.trans {c₁ c₂ c₃ : Rconn} {L₁ L₂ : List Sent} (h₁ : Queued c₁ c₂ L₁)
    (h₂ : Queued c₂ c₃ L₂) : Queued c₁ c₃ (L₁ ++ L₂) :=
  ⟨by rw [h₂.log, h₁.log, List.append_assoc],
   by rw [h₂.unanswered, h₁.unanswered, barrierXids_append, List.append_assoc],
   h₂.out_of_order.trans h₁.out_of_order⟩

theorem queued_send (c : Rconn) (s : Sent) :
    Queued c (c.send s) (if c.connected then [s] else []) := by
  by_cases hc : c.connected
  · by_cases hb : s.msg = .barrierRequest <;> simp [send, hc, hb, Queued.mk, barrierXids]
  · simp [send, hc, queued_nil]

/-- The switch has answered the barriers of the connection in order: unless a reply came
out of order, those it owes are the last ones sent. -/
def InOrder (c : Rconn) : Prop := c.out_of_order = false → c.unanswered <:+ barrierXids c.log

theorem InOrder.queued {c c' : Rconn} {L : List Sent} (hi : InOrder c) (h : Queued c c' L) :
    InOrder c' := fun ho => by
  obtain ⟨t, ht⟩ := hi (h.out_of_order ▸ ho)
  exact ⟨t, by rw [h.unanswered, h.log, barrierXids_append, ← ht, List.append_assoc]⟩

theorem inOrder_reconnect (c : Rconn) : InOrder c.reconnect := fun _ => List.nil_suffix

@[simp] theorem receive_log (c : Rconn) (m : Received) : (c.receive m).log = c.log := by
  obtain ⟨u, o, h⟩ := c.receive_eq m
  rw [h]

theorem receive_in_order {c : Rconn} {m : Received} (h : (c.receive m).out_of_order = false) :
    c.out_of_order = false ∧
      if m.type = some .barrierReply then c.unanswered = m.xid :: (c.receive m).unanswered
      else (c.receive m).unanswered = c.unanswered := by
  unfold receive at h ⊢
  by_cases hb : m.type = some .barrierReply
  · simp only [hb, if_true] at h ⊢
    split at h
    · rename_i x rest hu
      split at h
      · simp_all
      · simp at h
    · simp at h
  · simp_all

theorem recvStable_inOrder : RecvStable InOrder := by
  refine ⟨fun c s _ hi => hi.queued (queued_send c s), fun c m hi ho => ?_⟩
  obtain ⟨ho, hu⟩ := receive_in_order ho
  rw [receive_log]
  split at hu
  · exact (List.suffix_cons m.xid _).trans (hu ▸ hi ho)
  · exact hu ▸ hi ho

/-! ### The flow_mods of the connection -/

/-- The flow_mods queued on the connection, in order. -/
def flowLog (c : Rconn) : List FlowMod := flowMods (c.log.map (·.msg))

/-- What a switch's flow table sees of the connection: which one it is, whether it is up,
and the flow_mods queued on it. -/
def flowView (c : Rconn) : Nat × Bool × List FlowMod := (c.seqno, c.connected, c.flowLog)

theorem flowLog_send (c : Rconn) (s : Sent) :
    (c.send s).flowLog = c.flowLog ++ if c.connected then flowMods [s.msg] else [] := by
  unfold send flowLog
  split <;> simp [flowMods, List.filterMap_append]

theorem flowMods_singleton {m : OfpMsg} (h : ∀ fm, m ≠ .flowMod fm) : flowMods [m] = [] := by
  cases m <;> simp_all [flowMods]

theorem recvStable_flowView (v : Nat × Bool × List FlowMod) :
    RecvStable fun c => c.flowView = v := by
  refine ⟨fun c s hs h => ?_, fun c m h => ?_⟩
  · rw [← h]
    simp only [flowView, flowLog_send, flowMods_singleton hs, ite_self, List.append_nil]
    unfold send
    split <;> rfl
  · obtain ⟨u, o, e⟩ := c.receive_eq m
    rw [e, ← h]; rfl

end Rconn

end OvnOfctrl
