-- The pending ct zones. `ofctrl_put` sends a flush for each zone queued for one and the
-- zone waits for the barrier after it; a new connection queues again every flush still
-- waiting. The barrier's xid is not known when the flush is queued, so the zone waits with
-- the placeholder 0 until the end of the put, and a zone whose barrier had xid 0 is then
-- taken for a zone of the new put.
import OvnOfctrl.SwitchMirror

namespace OvnOfctrl

/-- No pending ct zone waits for a barrier. -/
def NoneSent (zones : List (String × CtZonePendingEntry)) : Prop :=
  ∀ p ∈ zones, p.2.state ≠ .CT_ZONE_OF_SENT

theorem noneSent_ctZonesRewound (zones : List (String × CtZonePendingEntry)) :
    NoneSent (ctZonesRewound zones) := by
  intro p hp
  obtain ⟨q, -, rfl⟩ := List.mem_map.1 hp
  split_ifs with h
  · simp
  · exact h

theorem noneSent_ctZonesFlushed {zones : List (String × CtZonePendingEntry)} (h : NoneSent zones)
    (xid : UInt32) : NoneSent (ctZonesFlushed zones xid) := by
  intro p hp
  obtain ⟨q, hq, rfl⟩ := List.mem_map.1 hp
  split_ifs with h'
  · exact absurd h'.1 (h q hq)
  · exact h q hq

/-- When `ofctrl_run` makes a new connection, the check of the sequence number sees it and
queues again the flushes that waited for a barrier of the old connection; nothing in the
run sends a flush, so at its end no zone waits for a barrier. -/
theorem ofctrl_run_new_connection_rewinds {e e' : Ofctrl} (h : Reachable e)
    {recvd : List (Option Received)} (hs : ofctrl_run e true recvd = some e') :
    NoneSent e'.pending_ct_zones := by
  have hle := (reachable_switchInv h).seqno_le
  have h0 : NoneSent (checkSeqno (rconnRun e true)).pending_ct_zones := by
    have hne : e.seqno ≠ e.swconn.seqno + 1 := by omega
    simp only [checkSeqno, rconnRun, if_true, Rconn.reconnect, ne_eq, hne, not_false_eq_true]
    exact noneSent_ctZonesRewound _
  rcases ofctrl_run_cases hs with ⟨-, h, -⟩ | ⟨-, hl⟩
  · cases h
  exact ofctrlRunLoop_induct (fun e => NoneSent e.pending_ct_zones)
    (fun _ _ h1 hr => by simp only [runState_zones hr]; exact h1)
    (fun _ _ _ h1 hr => (RecvFrame.of_recvMsg hr).zones _
      (fun _ x hz => noneSent_ctZonesFlushed hz x) h1) 50 _ recvd e' h0 hl

/-- A put sends the flush of zone 1 with its barrier, and the connection drops. -/
def flushThenDrop : List Event :=
  negotiated ++ [.ctZone "a" (some ⟨1, .CT_ZONE_OF_QUEUED, 0⟩), .put acceptAll [] 1 false, .drop]

/-- After `flushThenDrop` zone "a" waits for barrier 6 of the lost connection; the run that
makes a new connection queues its flush again. -/
theorem new_connection_requeues_flush :
    ∃ e e', Reachable e ∧
      (e.pending_ct_zones.lookup "a").map (·.state) = some .CT_ZONE_OF_SENT ∧
      ofctrl_run e true [none] = some e' ∧ NoneSent e'.pending_ct_zones :=
  ⟨_, _, reachable_of_isSome flushThenDrop (by decide), by decide,
    (Option.some_get (by decide)).symm,
    ofctrl_run_new_connection_rewinds (reachable_of_isSome flushThenDrop (by decide))
      (Option.some_get (by decide)).symm⟩

/-- After the negotiation, a flush of zone 1 goes out with the barrier of xid 0 (other
users of the xid counter have brought it to its last value); then a flush of zone 2 goes
out with barrier 2, and its put also gives zone 1, still waiting with xid 0, the xid 2.
The reply to barrier 0 then leaves zone 1 waiting. -/
def zoneFlushes : List Event :=
  negotiated ++ [.ctZone "a" (some ⟨1, .CT_ZONE_OF_QUEUED, 0⟩), .xidsTaken 4294967290,
    .put acceptAll [] 1 false, .transmit 2, .ctZone "b" (some ⟨2, .CT_ZONE_OF_QUEUED, 0⟩),
    .put acceptAll [] 2 false]

/-- After `zoneFlushes` zone 1's last flush was followed by barrier 0, yet zone 1 waits for
barrier 2; the reply to barrier 0 arrives, in order, and zone 1 stays in
`CT_ZONE_OF_SENT`. -/
theorem ct_zone_misses_its_barrier :
    ∃ e e', Reachable e ∧
      e.swconn.log.drop 4 = [⟨4294967295, .ctFlushZone 1⟩, ⟨0, .barrierRequest⟩,
        ⟨1, .ctFlushZone 2⟩, ⟨2, .barrierRequest⟩] ∧
      List.lookup "a" e.pending_ct_zones = some ⟨1, .CT_ZONE_OF_SENT, 2⟩ ∧
      step e (.run false [some ⟨0, some .barrierReply⟩]) = some e' ∧
      e'.swconn.unanswered = [2] ∧ e'.swconn.out_of_order = false ∧
      List.lookup "a" e'.pending_ct_zones = some ⟨1, .CT_ZONE_OF_SENT, 2⟩ :=
  ⟨_, _, reachable_of_isSome zoneFlushes (by decide), by decide, by decide,
    (Option.some_get (by decide)).symm, by decide, by decide, by decide⟩

end OvnOfctrl
