-- The conntrack flushes seen from the switch. A zone that waits for a barrier has its
-- flush queued on the current connection before a barrier of the xid it waits for, and
-- `ofctrl_run` passes a zone from `CT_ZONE_OF_SENT` to `CT_ZONE_DB_QUEUED` only once the
-- switch has answered a barrier sent after the flush, so only after the switch has
-- processed it.
import OvnOfctrl.FlowUpdates
import OvnOfctrl.CtZones

namespace OvnOfctrl

/-! ## Barriers answered -/

/-- The connection's log holds a flush of `zone` and, after it, a barrier with `xid`. -/
def FlushBefore (log : List Sent) (zone : Nat) (xid : UInt32) : Prop :=
  ∃ l₁ y l₂ l₃, log = l₁ ++ ⟨y, .ctFlushZone zone⟩ :: l₂ ++ ⟨xid, .barrierRequest⟩ :: l₃

namespace Rconn

/-- The switch has answered every barrier of `pre`, a start of the connection's log: when it
has answered in order and the barriers have distinct xids, those it owes come after
`pre`. -/
def Answered (c : Rconn) (pre : List Sent) : Prop :=
  ∃ post, c.log = pre ++ post ∧
    (c.out_of_order = false → (barrierXids c.log).Nodup → c.unanswered <:+ barrierXids post)

variable {c c' : Rconn} {pre : List Sent}

theorem Answered.queued (h : c.Answered pre) {L : List Sent} (hq : Queued c c' L) :
    c'.Answered pre := by
  obtain ⟨post, hl, hu⟩ := h
  refine ⟨post ++ L, by rw [hq.log, hl, List.append_assoc], fun ho hd => ?_⟩
  rw [hq.log, barrierXids_append] at hd
  obtain ⟨t, ht⟩ := hu (hq.out_of_order ▸ ho) hd.of_append_left
  exact ⟨t, by rw [hq.unanswered, barrierXids_append, ← ht, List.append_assoc]⟩

theorem Answered.receive (h : c.Answered pre) (m : Received) : (c.receive m).Answered pre := by
  obtain ⟨post, hl, hu⟩ := h
  refine ⟨post, by rw [receive_log, hl], fun ho hd => ?_⟩
  obtain ⟨ho, hu'⟩ := receive_in_order ho
  rw [receive_log] at hd
  split at hu'
  · exact (List.suffix_cons m.xid _).trans (hu' ▸ hu ho hd)
  · exact hu' ▸ hu ho hd

end Rconn

/-- The switch has answered a barrier queued after a flush of `zone`. -/
def FlushAnswered (c : Rconn) (zone : Nat) : Prop :=
  ∃ l₁ y l₂ x, c.Answered (l₁ ++ ⟨y, .ctFlushZone zone⟩ :: l₂ ++ [⟨x, .barrierRequest⟩])

theorem FlushAnswered.queued {c c' : Rconn} {zone : Nat} (h : FlushAnswered c zone)
    {L : List Sent} (hq : Rconn.Queued c c' L) : FlushAnswered c' zone :=
  let ⟨l₁, y, l₂, x, ha⟩ := h
  ⟨l₁, y, l₂, x, ha.queued hq⟩

theorem recvStable_flushAnswered (zone : Nat) : Rconn.RecvStable (FlushAnswered · zone) :=
  ⟨fun c s _ h => h.queued (Rconn.queued_send c s),
   fun _ m ⟨l₁, y, l₂, x, ha⟩ => ⟨l₁, y, l₂, x, ha.receive m⟩⟩

theorem suffix_cons_nodup {α : Type} {x : α} {u A B : List α} (h : x :: u <:+ A ++ x :: B)
    (hd : (A ++ x :: B).Nodup) : u = B := by
  obtain ⟨t, ht⟩ := h
  have hA : x ∉ A := fun hx => List.disjoint_of_nodup_append hd hx (List.mem_cons_self x B)
  have hB : x ∉ B := (List.nodup_cons.1 (List.nodup_append.1 hd).2.1).1
  rcases List.append_eq_append_iff.1 ht with ⟨a, rfl, ha⟩ | ⟨a, rfl, ha⟩
  · cases a with
    | nil => simpa using ha
    | cons y a =>
      obtain ⟨rfl, -⟩ := List.cons.inj ha
      exact absurd (List.mem_append_right t (List.mem_cons_self x a)) hA
  · cases a with
    | nil => simpa using ha.symm
    | cons y a =>
      obtain ⟨rfl, rfl⟩ := List.cons.inj ha
      exact absurd (List.mem_append_right a (List.mem_cons_self x u)) hB

theorem barrierXids_flush (y : UInt32) (zone : Nat) (log : List Sent) :
    barrierXids (⟨y, .ctFlushZone zone⟩ :: log) = barrierXids log := rfl

theorem barrierXids_barrier_cons (x : UInt32) (log : List Sent) :
    barrierXids (⟨x, .barrierRequest⟩ :: log) = x :: barrierXids log := rfl

theorem FlushBefore.answered {c : Rconn} {zone : Nat} {m : Received}
    (h : FlushBefore c.log zone m.xid) (hi : c.InOrder) (hb : m.type = some .barrierReply) :
    FlushAnswered (c.receive m) zone := by
  obtain ⟨l₁, y, l₂, l₃, hl⟩ := h
  refine ⟨l₁, y, l₂, m.xid, l₃, by simp [hl], fun ho hd => ?_⟩
  obtain ⟨ho, hu⟩ := Rconn.receive_in_order ho
  rw [if_pos hb] at hu
  rw [Rconn.receive_log] at hd
  have hs := hi ho
  rw [hu, hl] at hs
  rw [hl] at hd
  simp only [barrierXids_append, barrierXids_flush, barrierXids_barrier_cons] at hs hd
  exact suffix_cons_nodup hs hd ▸ List.suffix_refl _

/-! ## The zones a message moves -/

section Zones

variable {e e' : Ofctrl}

theorem ofctrl_recv_zones (e : Ofctrl) (m : Received) :
    (ofctrl_recv e m).pending_ct_zones = e.pending_ct_zones := by
  unfold ofctrl_recv; split <;> rfl

theorem process_tlv_table_reply_zones (e : Ofctrl) (l : List TlvMap) :
    (process_tlv_table_reply e l).2.pending_ct_zones = e.pending_ct_zones := by
  unfold process_tlv_table_reply
  repeat' split
  all_goals rfl

theorem recv_S_TLV_TABLE_REQUESTED_zones (e : Ofctrl) (m : Received) (t : OfpType) :
    (recv_S_TLV_TABLE_REQUESTED e m t).pending_ct_zones = e.pending_ct_zones := by
  unfold recv_S_TLV_TABLE_REQUESTED
  split
  · exact ofctrl_recv_zones e m
  split
  · rename_i maps
    have h := process_tlv_table_reply_zones e maps
    revert h
    cases process_tlv_table_reply e maps
    intro h
    dsimp only at h ⊢
    split <;> exact h
  · rfl

theorem recv_S_TLV_TABLE_MOD_SENT_zones (e : Ofctrl) (m : Received) (t : OfpType) :
    (recv_S_TLV_TABLE_MOD_SENT e m t).pending_ct_zones = e.pending_ct_zones := by
  unfold recv_S_TLV_TABLE_MOD_SENT
  repeat' split
  all_goals first | rfl | exact ofctrl_recv_zones e m

/-- Only a barrier reply in `S_UPDATE_FLOWS` moves pending ct zones: those that wait for its
xid, with the switch's side of the reply as the only change to the connection. -/
theorem recvMsg_zones {m : Received} (h : recvMsg e m = some e') :
    e'.pending_ct_zones = e.pending_ct_zones ∨
      m.type = some .barrierReply ∧
        e'.pending_ct_zones = ctZonesFlushed e.pending_ct_zones m.xid ∧
        e'.swconn = e.swconn.receive m := by
  unfold recvMsg recvState at h
  dsimp only at h
  split at h
  · cases h; exact .inl rfl
  rename_i t ht
  split at h <;> cases h
  · exact .inl (recv_S_TLV_TABLE_REQUESTED_zones _ m t)
  · exact .inl (recv_S_TLV_TABLE_MOD_SENT_zones _ m t)
  · exact .inl (ofctrl_recv_zones _ m)
  · unfold recv_S_UPDATE_FLOWS
    split
    · right
      refine ⟨by simp [ht], ?_, ?_⟩ <;> dsimp only <;> split <;> rfl
    · exact .inl (ofctrl_recv_zones _ m)

end Zones

/-! ## The end of ofctrl_put -/

/-- The zones after the barrier `xid` of `ofctrl_put`: those sent with the placeholder 0
wait for it. -/
def ctZonesAwait (zones : List (String × CtZonePendingEntry)) (xid : UInt32) :
    List (String × CtZonePendingEntry) :=
  zones.map fun p =>
    if p.2.state = .CT_ZONE_OF_SENT ∧ p.2.of_xid = 0 then (p.1, { p.2 with of_xid := xid }) else p

theorem putFinish_nil (E : Ofctrl) (nb_cfg : Int) :
    (putFinish E [] nb_cfg).pending_ct_zones = E.pending_ct_zones ∧
      (putFinish E [] nb_cfg).swconn = E.swconn := by
  unfold putFinish
  rw [if_pos rfl]
  split <;> exact ⟨rfl, rfl⟩

theorem putFinish_sends {E : Ofctrl} (hc : E.swconn.connected) {msgs : List OfpMsg}
    (hm : msgs ≠ []) (nb_cfg : Int) :
    ∃ L x, Rconn.Queued E.swconn (putFinish E msgs nb_cfg).swconn (L ++ [⟨x, .barrierRequest⟩]) ∧
      L.map (·.msg) = msgs ∧
      (putFinish E msgs nb_cfg).pending_ct_zones = ctZonesAwait E.pending_ct_zones x := by
  obtain ⟨L, hL⟩ := queueMsgs_queued msgs E
  have hl := queueMsgs_log msgs E
  obtain ⟨c, x, hq, hcc, -⟩ := queueMsgs_eq msgs E
  rw [hq] at hL hl
  rw [hL.log, if_pos hc, List.map_append, List.append_cancel_left_eq] at hl
  have hb := Rconn.queued_send c ⟨x, .barrierRequest⟩
  rw [if_pos (hcc ▸ hc)] at hb
  unfold putFinish
  rw [if_neg hm, hq]
  exact ⟨L, x, hL.trans hb, hl, rfl⟩

/-! ## Zones waiting for a barrier -/

/-- Every zone that waits for a barrier has a flush queued before a barrier of the xid it
waits for. -/
def SentFlushes (zones : List (String × CtZonePendingEntry)) (log : List Sent) : Prop :=
  ∀ p ∈ zones, p.2.state = .CT_ZONE_OF_SENT → FlushBefore log p.2.zone p.2.of_xid

section SentFlushes

variable {zones : List (String × CtZonePendingEntry)} {log : List Sent} {zone : Nat}

theorem FlushBefore.append {x : UInt32} (h : FlushBefore log zone x) (L : List Sent) :
    FlushBefore (log ++ L) zone x := by
  obtain ⟨l₁, y, l₂, l₃, rfl⟩ := h
  exact ⟨l₁, y, l₂, l₃ ++ L, by simp⟩

theorem FlushBefore.mem {x : UInt32} (h : FlushBefore log zone x) :
    ∃ y, ⟨y, .ctFlushZone zone⟩ ∈ log := by
  obtain ⟨l₁, y, l₂, l₃, rfl⟩ := h
  exact ⟨y, by simp⟩

theorem flushBefore_barrier {y : UInt32} (h : ⟨y, .ctFlushZone zone⟩ ∈ log) (x : UInt32) :
    FlushBefore (log ++ [⟨x, .barrierRequest⟩]) zone x := by
  obtain ⟨l₁, l₂, rfl⟩ := List.append_of_mem h
  exact ⟨l₁, y, l₂, [], by simp⟩

theorem SentFlushes.queued {c c' : Rconn} (h : SentFlushes zones c.log) {L : List Sent}
    (hq : Rconn.Queued c c' L) : SentFlushes zones c'.log :=
  hq.log ▸ fun p hp hs => (h p hp hs).append L

theorem recvStable_sentFlushes (zones : List (String × CtZonePendingEntry)) :
    Rconn.RecvStable fun c => SentFlushes zones c.log :=
  ⟨fun c s _ h => h.queued (Rconn.queued_send c s), fun c m h => by rwa [Rconn.receive_log]⟩

theorem NoneSent.sentFlushes (h : NoneSent zones) (log : List Sent) : SentFlushes zones log :=
  fun p hp hs => absurd hs (h p hp)

theorem SentFlushes.flushed (h : SentFlushes zones log) (x : UInt32) :
    SentFlushes (ctZonesFlushed zones x) log := by
  intro p hp hs
  obtain ⟨q, hq, rfl⟩ := List.mem_map.1 hp
  split_ifs at hs ⊢
  exact h q hq hs

theorem flushCtZones_of_nil (h : (flushCtZones zones).1 = []) : (flushCtZones zones).2 = zones := by
  simp only [flushCtZones, List.filterMap_eq_nil_iff] at h ⊢
  calc _ = zones.map id := List.map_congr_left fun p hp => by
          have := h p hp
          split_ifs at this ⊢
          rfl
    _ = zones := List.map_id zones

/-- The zones of a put: a zone queued for a flush has it among the messages `L` and waits for
the barrier `x` after them, a zone that waited with the placeholder 0 now waits for `x`, and
the other zones keep their barrier. -/
theorem SentFlushes.put (h : SentFlushes zones log) {L : List Sent}
    (hm : ∀ m ∈ (flushCtZones zones).1, m ∈ L.map (·.msg)) (x : UInt32) :
    SentFlushes (ctZonesAwait (flushCtZones zones).2 x) (log ++ L ++ [⟨x, .barrierRequest⟩]) := by
  intro p hp hs
  obtain ⟨q, hq, rfl⟩ := List.mem_map.1 hp
  obtain ⟨r, hr, rfl⟩ := List.mem_map.1 hq
  by_cases hrq : r.2.state = .CT_ZONE_OF_QUEUED
  · obtain ⟨s, hsL, hsm⟩ := List.mem_map.1
      (hm (.ctFlushZone r.2.zone) (List.mem_filterMap.2 ⟨r, hr, by simp [hrq]⟩))
    have hs' : (⟨s.xid, .ctFlushZone r.2.zone⟩ : Sent) ∈ log ++ L := by
      rw [← hsm]; exact List.mem_append_right log hsL
    simpa [hrq] using flushBefore_barrier hs' x
  · simp only [hrq, if_false] at hs ⊢
    split_ifs at hs ⊢ with h0
    · obtain ⟨y, hy⟩ := (h r hr h0.1).mem
      exact flushBefore_barrier (List.mem_append_left L hy) x
    · exact ((h r hr hs).append L).append _

end SentFlushes

/-! ## A call of ofctrl_run -/

/-- Zone `p'` is zone `p` later in a call of `ofctrl_run`, on connection `c`: the same name
and zone, and if it passed from waiting for a barrier to the database stage, the switch has
answered a barrier after a flush of the zone. -/
def FlushTrack (c : Rconn) (p p' : String × CtZonePendingEntry) : Prop :=
  p'.1 = p.1 ∧ p'.2.zone = p.2.zone ∧
    (p.2.state = .CT_ZONE_OF_SENT → p'.2.state = .CT_ZONE_DB_QUEUED → FlushAnswered c p.2.zone)

section Run

variable {zs zs0 : List (String × CtZonePendingEntry)} {c : Rconn} {e e' : Ofctrl}

theorem FlushTrack.mono {c' : Rconn} (hm : ∀ zone, FlushAnswered c zone → FlushAnswered c' zone)
    {p p' : String × CtZonePendingEntry} (h : FlushTrack c p p') : FlushTrack c' p p' :=
  ⟨h.1, h.2.1, fun hs hq => hm _ (h.2.2 hs hq)⟩

theorem recvStable_flushTracks (zs0 zs : List (String × CtZonePendingEntry)) :
    Rconn.RecvStable fun c => List.Forall₂ (FlushTrack c) zs0 zs :=
  ⟨fun c s hs h => h.imp fun _ _ => FlushTrack.mono fun z => (recvStable_flushAnswered z).send c s hs,
   fun c m h => h.imp fun _ _ => FlushTrack.mono fun z => (recvStable_flushAnswered z).receive c m⟩

theorem flushTracks_self (zs : List (String × CtZonePendingEntry)) (c : Rconn) :
    List.Forall₂ (FlushTrack c) zs zs :=
  List.forall₂_same.2 fun _ _ => ⟨rfl, rfl, fun hs hq => by simp [hs] at hq⟩

theorem flushTracks_rewound (zs : List (String × CtZonePendingEntry)) (c : Rconn) :
    List.Forall₂ (FlushTrack c) zs (ctZonesRewound zs) :=
  List.forall₂_map_right_iff.2 <| List.forall₂_same.2 fun p _ => by
    refine ⟨by split_ifs <;> rfl, by split_ifs <;> rfl, fun hs hq => ?_⟩
    simp [hs] at hq

theorem flushTracks_flushed (h : List.Forall₂ (FlushTrack c) zs0 zs)
    (hs : SentFlushes zs c.log) (hi : c.InOrder) {m : Received}
    (hb : m.type = some .barrierReply) :
    List.Forall₂ (FlushTrack (c.receive m)) zs0 (ctZonesFlushed zs m.xid) := by
  induction h with
  | nil => exact .nil
  | @cons p0 p l0 l hp _ ih =>
    show List.Forall₂ _ (p0 :: l0) (_ :: ctZonesFlushed l m.xid)
    refine .cons ?_ (ih fun q hq => hs q (List.mem_cons_of_mem _ hq))
    obtain ⟨h1, h2, h3⟩ := hp
    dsimp only
    split_ifs with hx
    · refine ⟨h1, h2, fun _ _ => h2 ▸ FlushBefore.answered ?_ hi hb⟩
      rw [← hx.2]
      exact hs p (List.mem_cons_self p l) hx.1
    · exact ⟨h1, h2, fun hs0 hq => (recvStable_flushAnswered _).receive c m (h3 hs0 hq)⟩

/-- What a call of `ofctrl_run` keeps along its loop, from the zones `zs0` it started
with. -/
structure FlushRun (zs0 : List (String × CtZonePendingEntry)) (e : Ofctrl) : Prop where
  in_order : e.swconn.InOrder
  sent : SentFlushes e.pending_ct_zones e.swconn.log
  tracks : List.Forall₂ (FlushTrack e.swconn) zs0 e.pending_ct_zones

theorem runState_queued (h : runState e = some e') : ∃ L, Rconn.Queued e.swconn e'.swconn L := by
  rcases runState_cases h with ⟨-, rfl⟩ | ⟨-, hc⟩ | ⟨-, -, rfl⟩
  · exact ⟨_, Rconn.queued_send _ _⟩
  · rw [(run_S_CLEAR_FLOWS_spec hc).2.2.2.2.2.2.2.2.2]
    exact ⟨_, ((Rconn.queued_send _ _).trans (Rconn.queued_send _ _)).trans (Rconn.queued_send _ _)⟩
  · exact ⟨[], Rconn.queued_nil rfl rfl rfl⟩

theorem FlushRun.runState (h : FlushRun zs0 e) (hr : runState e = some e') : FlushRun zs0 e' := by
  obtain ⟨L, hq⟩ := runState_queued hr
  refine ⟨h.in_order.queued hq, ?_, ?_⟩ <;> rw [runState_zones hr]
  · exact h.sent.queued hq
  · exact h.tracks.imp fun _ _ => FlushTrack.mono fun _ ha => ha.queued hq

theorem FlushRun.recvMsg (h : FlushRun zs0 e) {m : Received} (hr : recvMsg e m = some e') :
    FlushRun zs0 e' := by
  have fr := RecvFrame.of_recvMsg hr
  have hi := fr.conn _ Rconn.recvStable_inOrder h.in_order
  rcases recvMsg_zones hr with hz | ⟨hb, hz, hc⟩
  · refine ⟨hi, ?_, ?_⟩ <;> rw [hz]
    · exact fr.conn _ (recvStable_sentFlushes _) h.sent
    · exact fr.conn _ (recvStable_flushTracks _ _) h.tracks
  · refine ⟨hi, ?_, ?_⟩ <;> rw [hz, hc]
    · rw [Rconn.receive_log]
      exact h.sent.flushed _
    · exact flushTracks_flushed h.tracks h.sent h.in_order hb

/-- A call of `ofctrl_run` from a state whose switch answers in order and whose zones wait
for barriers after their flushes: the same holds after it, and every zone that passed from
waiting for a barrier to the database stage had its flush answered. -/
theorem ofctrl_run_flushRun (hi : e.swconn.InOrder) (hq : e.seqno ≤ e.swconn.seqno)
    (hs : SentFlushes e.pending_ct_zones e.swconn.log) {established : Bool}
    {recvd : List (Option Received)} (hr : ofctrl_run e established recvd = some e') :
    FlushRun e.pending_ct_zones e' := by
  rcases ofctrl_run_cases hr with ⟨rfl, -⟩ | ⟨-, hl⟩
  · exact ⟨hi, hs, flushTracks_self _ _⟩
  refine ofctrlRunLoop_induct (FlushRun e.pending_ct_zones) (fun _ _ h hr => h.runState hr)
    (fun _ _ _ h hr => h.recvMsg hr) 50 _ recvd e' ?_ hl
  cases established with
  | true =>
    have hne : e.seqno ≠ e.swconn.seqno + 1 := by omega
    simp only [rconnRun, checkSeqno, if_true, Rconn.reconnect, ne_eq, hne, not_false_eq_true]
    exact ⟨Rconn.inOrder_reconnect _, (noneSent_ctZonesRewound _).sentFlushes _,
      flushTracks_rewound _ _⟩
  | false =>
    simp only [rconnRun, Bool.false_eq_true, if_false, checkSeqno]
    split_ifs
    · exact ⟨hi, (noneSent_ctZonesRewound _).sentFlushes _, flushTracks_rewound _ _⟩
    · exact ⟨hi, hs, flushTracks_self _ _⟩

end Run

/-! ## Every reachable state -/

section Reachable

variable {e e' : Ofctrl}

theorem sentFlushes_putFinish (zs : List (String × CtZonePendingEntry)) {E : Ofctrl}
    (h : SentFlushes zs E.swconn.log) (hc : E.swconn.connected)
    (hz : E.pending_ct_zones = (flushCtZones zs).2) {msgs : List OfpMsg}
    (hm : (flushCtZones zs).1 ⊆ msgs) (nb_cfg : Int) :
    SentFlushes (putFinish E msgs nb_cfg).pending_ct_zones (putFinish E msgs nb_cfg).swconn.log := by
  by_cases h0 : msgs = []
  · subst h0
    obtain ⟨hz', hc'⟩ := putFinish_nil E nb_cfg
    rw [hz', hc', hz, flushCtZones_of_nil (List.eq_nil_of_subset_nil hm)]
    exact h
  · obtain ⟨L, x, hq, hL, hz'⟩ := putFinish_sends hc h0 nb_cfg
    rw [hz', hz, hq.log, ← List.append_assoc]
    exact h.put (fun m hm' => hL ▸ hm hm') x

theorem sentFlushes_ofctrl_put (ht : TablesOk e.tables)
    (h : SentFlushes e.pending_ct_zones e.swconn.log) {p : ModParse}
    {meter_table : List SbrecMeter} {nb_cfg : Int} {flow_changed : Bool}
    (hs : ofctrl_put e p meter_table nb_cfg flow_changed = some e') :
    SentFlushes e'.pending_ct_zones e'.swconn.log := by
  rcases ofctrl_put_cases hs with ⟨-, rfl⟩ | ⟨-, -, rfl⟩ | ⟨-, hcan, hr⟩
  · exact h
  · exact h
  simp only [ofctrl_can_put, Bool.and_eq_true, decide_eq_true_eq] at hcan
  obtain ⟨ft, msgs1, msgs2, hr', -⟩ := putReconcile_spec (e := { e with
    cur_cfg := (needPut e nb_cfg flow_changed).2, old_nb_cfg := nb_cfg })
    ht.desired ht.links p meter_table nb_cfg
  rw [hr, Option.some.injEq] at hr'
  subst hr'
  refine sentFlushes_putFinish e.pending_ct_zones ?_ ?_ rfl (fun m hm => ?_) nb_cfg
  · exact h
  · exact hcan.2
  · simp [hm]

theorem mem_setCtZone_sent {zs : List (String × CtZonePendingEntry)} {name : String}
    {entry : Option CtZonePendingEntry} (hn : ¬(entry.any (·.state = .CT_ZONE_OF_SENT)) = true)
    {p : String × CtZonePendingEntry} (hp : p ∈ setCtZone zs name entry)
    (hs : p.2.state = .CT_ZONE_OF_SENT) : p ∈ zs := by
  cases entry with
  | none => exact (List.mem_filter.1 hp).1
  | some z =>
    rcases List.mem_cons.1 hp with rfl | hp
    · simp_all
    · exact (List.mem_filter.1 hp).1

theorem step_sentFlushes (hr : Reachable e) (h : SentFlushes e.pending_ct_zones e.swconn.log)
    {ev : Event} (hs : step e ev = some e') : SentFlushes e'.pending_ct_zones e'.swconn.log := by
  cases ev with
  | run established recvd =>
    exact (ofctrl_run_flushRun (reachable_flowUpdatesInv hr).in_order
      (reachable_switchInv hr).seqno_le h hs).sent
  | put p meter_table nb_cfg flow_changed => exact sentFlushes_ofctrl_put (reachable_tablesOk hr) h hs
  | desired op =>
    obtain ⟨g, m, he⟩ := desiredOp_frame hs
    rw [he]
    exact h
  | extend groups info => cases groups <;> (cases hs; exact h)
  | ctZone name entry =>
    simp only [step] at hs
    split at hs
    · cases hs
    cases hs
    exact fun p hp hsent => h p (mem_setCtZone_sent ‹_› hp hsent) hsent
  | inject ok =>
    cases hs
    unfold ofctrl_inject_pkt
    split
    · exact h.queued (Rconn.queued_send _ _)
    · exact h
  | drop => cases hs; exact h
  | transmit n => cases hs; exact h
  | xidsTaken n => cases hs; exact h

theorem reachable_sentFlushes (h : Reachable e) : SentFlushes e.pending_ct_zones e.swconn.log :=
  reachable_induct (fun _ hp => absurd hp (List.not_mem_nil _))
    (fun _ _ _ hr h hs => step_sentFlushes hr h hs) h

end Reachable

/-! ## The flush is answered first -/

theorem flushTracks_lookup {c : Rconn} {zs zs' : List (String × CtZonePendingEntry)}
    (h : List.Forall₂ (FlushTrack c) zs zs') {name : String} {z : CtZonePendingEntry}
    (hz : zs.lookup name = some z) :
    ∃ w, zs'.lookup name = some w ∧ FlushTrack c (name, z) (name, w) := by
  induction h with
  | nil => simp at hz
  | @cons p p' l l' hp _ ih =>
    obtain ⟨k, b⟩ := p
    obtain ⟨k', b'⟩ := p'
    obtain ⟨rfl : k' = k, h2⟩ := hp
    simp only [List.lookup_cons] at hz ⊢
    cases hk : name == k'
    · simp only [hk] at hz ⊢
      exact ih hz
    · obtain rfl := beq_iff_eq.1 hk
      simp only [hk, Option.some.injEq] at hz ⊢
      exact ⟨b', rfl, rfl, hz ▸ h2⟩

/-- From every reachable state, a call of `ofctrl_run` that passes the pending ct zone
named `n` from `CT_ZONE_OF_SENT` (entry `z`) to `CT_ZONE_DB_QUEUED` (entry `w`) does so only
after the switch has processed the zone's flush: on a connection whose switch has answered
its barriers in order and whose barriers have distinct xids, the log holds a flush of the
zone and after it a barrier that the switch has answered, every barrier it still owes
coming later. -/
theorem ct_zone_db_queued_after_flush {e e' : Ofctrl} (h : Reachable e) {established : Bool}
    {recvd : List (Option Received)} (hs : ofctrl_run e established recvd = some e')
    {n : String} {z w : CtZonePendingEntry} (hz : e.pending_ct_zones.lookup n = some z)
    (hsent : z.state = .CT_ZONE_OF_SENT) (hw : e'.pending_ct_zones.lookup n = some w)
    (hq : w.state = .CT_ZONE_DB_QUEUED) (ho : e'.swconn.out_of_order = false)
    (hd : (barrierXids e'.swconn.log).Nodup) :
    ∃ l₁ y l₂ x post, e'.swconn.log =
        l₁ ++ ⟨y, .ctFlushZone z.zone⟩ :: l₂ ++ ⟨x, .barrierRequest⟩ :: post ∧
      e'.swconn.unanswered <:+ barrierXids post := by
  have hr := ofctrl_run_flushRun (reachable_flowUpdatesInv h).in_order
    (reachable_switchInv h).seqno_le (reachable_sentFlushes h) hs
  obtain ⟨w', h1, -, -, h3⟩ := flushTracks_lookup hr.tracks hz
  rw [hw, Option.some.injEq] at h1
  subst h1
  obtain ⟨l₁, y, l₂, x, post, hl, hu⟩ := h3 hsent hq
  exact ⟨l₁, y, l₂, x, post, by simpa using hl, hu ho hd⟩

/-- After the flush of zone 1 and its barrier 6 (the run `flushThenDrop` without its drop),
the reply to barrier 6 passes the zone to the database stage, the switch having answered
the barrier after the flush. -/
theorem flush_answered_db_queued :
    ∃ e e', Reachable e ∧ ofctrl_run e false [some ⟨6, some .barrierReply⟩] = some e' ∧
      e.pending_ct_zones.lookup "a" = some ⟨1, .CT_ZONE_OF_SENT, 6⟩ ∧
      e'.pending_ct_zones.lookup "a" = some ⟨1, .CT_ZONE_DB_QUEUED, 6⟩ ∧
      e'.swconn.out_of_order = false ∧ (barrierXids e'.swconn.log).Nodup ∧
      ∃ l₁ y l₂ x post, e'.swconn.log =
          l₁ ++ ⟨y, .ctFlushZone 1⟩ :: l₂ ++ ⟨x, .barrierRequest⟩ :: post ∧
        e'.swconn.unanswered <:+ barrierXids post :=
  ⟨_, _, reachable_of_isSome flushThenDrop.dropLast (by decide), (Option.some_get (by decide)).symm,
    by decide, by decide, by decide, by decide,
    ct_zone_db_queued_after_flush (n := "a") (z := ⟨1, .CT_ZONE_OF_SENT, 6⟩)
      (w := ⟨1, .CT_ZONE_DB_QUEUED, 6⟩)
      (reachable_of_isSome flushThenDrop.dropLast (by decide)) (Option.some_get (by decide)).symm
      (by decide) rfl (by decide) rfl (by decide) (by decide)⟩

/-! ## Every flush is answered -/

/-- Zones wait for barriers only in `S_UPDATE_FLOWS`, and there, on a connection whose switch
has answered in order with distinct barriers, each waits for a barrier of `ofctrl_put` that
the switch still owes. -/
def ZonesOwed (e : Ofctrl) : Prop :=
  ∀ p ∈ e.pending_ct_zones, p.2.state = .CT_ZONE_OF_SENT →
    e.state = .S_UPDATE_FLOWS ∧ (e.swconn.out_of_order = false →
      (barrierXids e.swconn.log).Nodup →
        p.2.of_xid ∈ e.swconn.unanswered ∧ p.2.of_xid ∈ putBarriers e.swconn.log)

section ZonesOwed

variable {e e' : Ofctrl}

theorem NoneSent.zonesOwed (h : NoneSent e.pending_ct_zones) : ZonesOwed e :=
  fun p hp hs => absurd hs (h p hp)

theorem ZonesOwed.noneSent (h : ZonesOwed e) (hs : e.state ≠ .S_UPDATE_FLOWS) :
    NoneSent e.pending_ct_zones :=
  fun p hp hsent => hs (h p hp hsent).1

theorem mem_ctZonesFlushed_sent {zs : List (String × CtZonePendingEntry)} {x : UInt32}
    {p : String × CtZonePendingEntry} (hp : p ∈ ctZonesFlushed zs x)
    (hs : p.2.state = .CT_ZONE_OF_SENT) : p ∈ zs ∧ p.2.of_xid ≠ x := by
  obtain ⟨q, hq, rfl⟩ := List.mem_map.1 hp
  split_ifs at hs ⊢ with h
  exact ⟨hq, fun he => h ⟨hs, he⟩⟩

/-- A message received in `S_UPDATE_FLOWS` passes on the zones that wait for it exactly when
it is a barrier reply while flow updates are in flight. -/
theorem recvMsg_update_zones {m : Received} (hs : e.state = .S_UPDATE_FLOWS)
    (h : recvMsg e m = some e') :
    e'.pending_ct_zones = if m.type = some .barrierReply ∧ e.flow_updates ≠ []
      then ctZonesFlushed e.pending_ct_zones m.xid else e.pending_ct_zones := by
  unfold recvMsg recvState at h
  dsimp only at h
  split at h
  · cases h
    rename_i hm
    simp [hm]
  · rename_i t ht
    rw [hs] at h
    cases h
    unfold recv_S_UPDATE_FLOWS
    split
    · rename_i fup rest hF
      dsimp only at hF ⊢
      simp only [ht, hF, ne_eq, reduceCtorEq, not_false_eq_true, and_self, if_true]
      split <;> rfl
    · rename_i hn
      rw [ofctrl_recv_zones, if_neg]
      rintro ⟨hb, hF⟩
      obtain ⟨fup, rest, hF'⟩ := List.exists_cons_of_ne_nil hF
      exact hn fup rest (by simpa [ht] using hb) hF'

theorem ZonesOwed.runState (h : ZonesOwed e) (hr : runState e = some e') : ZonesOwed e' := by
  rcases runState_cases hr with ⟨hs, -⟩ | ⟨hs, -⟩ | ⟨-, -, rfl⟩
  · exact NoneSent.zonesOwed (runState_zones hr ▸ h.noneSent (by simp [hs]))
  · exact NoneSent.zonesOwed (runState_zones hr ▸ h.noneSent (by simp [hs]))
  · exact h

/-- A message received keeps the zones owed: a barrier reply in order passes on the zones
that wait for it, since flow updates are in flight while a barrier of `ofctrl_put` is owed. -/
theorem ZonesOwed.recvMsg (h : ZonesOwed e) (hf : FlowUpdatesInv e) (hw : SwitchInv e)
    {m : Received} (hr : recvMsg e m = some e') : ZonesOwed e' := by
  by_cases hs : e.state = .S_UPDATE_FLOWS
  swap
  · refine NoneSent.zonesOwed ?_
    rcases recvMsg_zones hr with hz | ⟨-, hz, -⟩ <;> rw [hz]
    · exact h.noneSent hs
    · exact noneSent_ctZonesFlushed (h.noneSent hs) _
  obtain ⟨hup, -, L, hb, hq⟩ := recvMsg_update_spec hs hr
  have hz := recvMsg_update_zones hs hr
  intro p hp hsent
  refine ⟨hup, fun ho hd => ?_⟩
  obtain ⟨ho1, hd1, hP⟩ := hq.tracked (by simpa using Rconn.deleteAll_mem (hw.delete_first hs)) ho hd
  obtain ⟨ho0, hu0⟩ := Rconn.receive_in_order ho1
  rw [Rconn.receive_log] at hd1 hP
  rw [hP, hq.unanswered, hb, List.append_nil, List.append_nil]
  by_cases hc : m.type = some .barrierReply ∧ e.flow_updates ≠ []
  · rw [if_pos hc] at hz
    rw [hz] at hp
    obtain ⟨hp0, hx⟩ := mem_ctZonesFlushed_sent hp hsent
    obtain ⟨hu, hP0⟩ := (h p hp0 hsent).2 ho0 hd1
    rw [if_pos hc.1] at hu0
    rw [hu0] at hu
    exact ⟨(List.mem_cons.1 hu).resolve_left hx, hP0⟩
  · rw [if_neg hc] at hz
    rw [hz] at hp
    obtain ⟨hu, hP0⟩ := (h p hp hsent).2 ho0 hd1
    split at hu0
    · have hF : e.flow_updates = [] := by simpa [‹m.type = _›] using hc
      exact absurd hu ((hf.tracks ⟨hs, ho0, hd1⟩).answered hF _ hP0)
    · exact ⟨hu0 ▸ hu, hP0⟩

theorem ZonesOwed.queued (h : ZonesOwed e) (hw : SwitchInv e)
    (hz : e'.pending_ct_zones = e.pending_ct_zones) (hst : e'.state = e.state) {L : List Sent}
    (hq : Rconn.Queued e.swconn e'.swconn L) : ZonesOwed e' := by
  intro p hp hsent
  rw [hz] at hp
  obtain ⟨hu, hx⟩ := h p hp hsent
  refine ⟨hst ▸ hu, fun ho hd => ?_⟩
  obtain ⟨ho0, hd0, hP⟩ := hq.tracked (Rconn.deleteAll_mem (hw.delete_first hu)) ho hd
  obtain ⟨h1, h2⟩ := hx ho0 hd0
  rw [hP, hq.unanswered]
  exact ⟨List.mem_append_left _ h1, List.mem_append_left _ h2⟩

theorem ZonesOwed.checkSeqno (h : ZonesOwed e) (hw : SwitchInv e) {established : Bool}
    (hc : (rconnRun e established).swconn.connected) :
    ZonesOwed (checkSeqno (rconnRun e established)) := by
  cases established with
  | true =>
    have hne : e.seqno ≠ e.swconn.seqno + 1 := by have := hw.seqno_le; omega
    simp only [rconnRun, OvnOfctrl.checkSeqno, if_true, Rconn.reconnect, ne_eq, hne,
      not_false_eq_true]
    exact NoneSent.zonesOwed (noneSent_ctZonesRewound _)
  | false =>
    show ZonesOwed (OvnOfctrl.checkSeqno e)
    rw [OvnOfctrl.checkSeqno, if_neg (by simpa using hw.synced hc)]
    exact h

theorem zonesOwed_ofctrl_run (h : ZonesOwed e) (hf : FlowUpdatesInv e) (hw : SwitchInv e)
    (ht : TablesOk e.tables) {established : Bool} {recvd : List (Option Received)}
    (hs : ofctrl_run e established recvd = some e') : ZonesOwed e' :=
  ofctrl_run_induct ZonesOwed hf hw ht hs h (h.checkSeqno hw)
    (fun _ _ h _ _ _ hr => h.runState hr) (fun _ _ _ h hf hw hr => h.recvMsg hf hw hr)

theorem sent_ctZonesAwait {zs : List (String × CtZonePendingEntry)} {x : UInt32}
    {p : String × CtZonePendingEntry} (hp : p ∈ ctZonesAwait (flushCtZones zs).2 x)
    (hs : p.2.state = .CT_ZONE_OF_SENT) :
    p.2.of_xid = x ∨ ∃ r ∈ zs, r.2.state = .CT_ZONE_OF_SENT ∧ r.2.of_xid = p.2.of_xid := by
  obtain ⟨q, hq, rfl⟩ := List.mem_map.1 hp
  obtain ⟨r, hr, rfl⟩ := List.mem_map.1 hq
  by_cases hrq : r.2.state = .CT_ZONE_OF_QUEUED
  · exact .inl (by simp [hrq])
  · simp only [hrq, if_false] at hs ⊢
    split_ifs at hs ⊢
    · exact .inl rfl
    · exact .inr ⟨r, hr, hs, rfl⟩

/-- The end of `ofctrl_put`, after the flushes of the zones of `e`: the zones it sent a flush
for, and those that waited with the placeholder, wait for its barrier. -/
theorem zonesOwed_putFinish (h : ZonesOwed e) (hw : SwitchInv e) (hu : e.state = .S_UPDATE_FLOWS)
    (hc : e.swconn.connected) {E : Ofctrl} (hsw : E.swconn = e.swconn) (hst : E.state = e.state)
    (hz : E.pending_ct_zones = (flushCtZones e.pending_ct_zones).2) {msgs : List OfpMsg}
    (hm : (flushCtZones e.pending_ct_zones).1 ⊆ msgs) (nb_cfg : Int) :
    ZonesOwed (putFinish E msgs nb_cfg) := by
  intro p hp hsent
  rw [(putFinish_frame E msgs nb_cfg).2.1, hst]
  refine ⟨hu, fun ho hd => ?_⟩
  by_cases h0 : msgs = []
  · subst h0
    obtain ⟨hz', hc'⟩ := putFinish_nil E nb_cfg
    rw [hz', hz, flushCtZones_of_nil (List.eq_nil_of_subset_nil hm)] at hp
    rw [hc', hsw] at ho hd ⊢
    exact (h p hp hsent).2 ho hd
  · obtain ⟨L, x, hq, -, hz'⟩ := putFinish_sends (hsw ▸ hc) h0 nb_cfg
    rw [hz', hz] at hp
    rw [hsw] at hq
    obtain ⟨ho0, hd0, hP⟩ := hq.tracked (Rconn.deleteAll_mem (hw.delete_first hu)) ho hd
    rw [hP, hq.unanswered]
    have hx : x ∈ barrierXids (L ++ [⟨x, .barrierRequest⟩]) := by simp
    rcases sent_ctZonesAwait hp hsent with hx' | ⟨r, hr, hrs, hrx⟩
    · rw [hx']
      exact ⟨List.mem_append_right _ hx, List.mem_append_right _ hx⟩
    · obtain ⟨h1, h2⟩ := (h r hr hrs).2 ho0 hd0
      rw [← hrx]
      exact ⟨List.mem_append_left _ h1, List.mem_append_left _ h2⟩

theorem zonesOwed_ofctrl_put (h : ZonesOwed e) (hw : SwitchInv e) (ht : TablesOk e.tables)
    {p : ModParse} {meter_table : List SbrecMeter} {nb_cfg : Int} {flow_changed : Bool}
    (hs : ofctrl_put e p meter_table nb_cfg flow_changed = some e') : ZonesOwed e' := by
  rcases ofctrl_put_cases hs with ⟨-, rfl⟩ | ⟨-, -, rfl⟩ | ⟨-, hcan, hr⟩
  · exact h
  · exact h
  simp only [ofctrl_can_put, Bool.and_eq_true, decide_eq_true_eq] at hcan
  obtain ⟨⟨hu, -⟩, hc⟩ := hcan
  obtain ⟨ft, msgs1, msgs2, hr', -⟩ := putReconcile_spec (e := { e with
    cur_cfg := (needPut e nb_cfg flow_changed).2, old_nb_cfg := nb_cfg })
    ht.desired ht.links p meter_table nb_cfg
  rw [hr, Option.some.injEq] at hr'
  subst hr'
  refine zonesOwed_putFinish h hw hu hc ?_ ?_ ?_ (fun m hm => ?_) nb_cfg
  iterate 3 rfl
  simp [hm]

theorem step_zonesOwed (hr : Reachable e) (h : ZonesOwed e) {ev : Event}
    (hs : step e ev = some e') : ZonesOwed e' := by
  have hw := reachable_switchInv hr
  cases ev with
  | run established recvd =>
    exact zonesOwed_ofctrl_run h (reachable_flowUpdatesInv hr) hw (reachable_tablesOk hr) hs
  | put p meter_table nb_cfg flow_changed => exact zonesOwed_ofctrl_put h hw (reachable_tablesOk hr) hs
  | desired op =>
    obtain ⟨g, m, he⟩ := desiredOp_frame hs
    rw [he]
    exact h
  | extend groups info => cases groups <;> (cases hs; exact h)
  | ctZone name entry =>
    simp only [step] at hs
    split at hs
    · cases hs
    cases hs
    exact fun p hp hsent => h p (mem_setCtZone_sent ‹_› hp hsent) hsent
  | inject ok =>
    cases hs
    unfold ofctrl_inject_pkt
    split
    · exact h.queued hw rfl rfl (Rconn.queued_send _ _)
    · exact h
  | drop => cases hs; exact h
  | transmit n => cases hs; exact h
  | xidsTaken n => cases hs; exact h

theorem reachable_zonesOwed (h : Reachable e) : ZonesOwed e :=
  reachable_induct (fun _ hp => absurd hp (List.not_mem_nil _))
    (fun _ _ _ hr h hs => step_zonesOwed hr h hs) h

end ZonesOwed

theorem ctZonesFlushed_of_noneSent {zs : List (String × CtZonePendingEntry)} (h : NoneSent zs)
    (x : UInt32) : ctZonesFlushed zs x = zs :=
  (List.map_congr_left fun p hp => if_neg fun hx => h p hp hx.1).trans (List.map_id zs)

theorem Answering.reply_zones {e : Ofctrl} (h : Answering e) {x : UInt32} {u : List UInt32}
    (hu : e.swconn.unanswered = x :: u) :
    ∃ e', step e (.run false [some ⟨x, some .barrierReply⟩]) = some e' ∧ Answering e' ∧
      e'.swconn.unanswered = u ∧ e'.pending_ct_zones = ctZonesFlushed e.pending_ct_zones x := by
  obtain ⟨e', hs, h', ha, hu'⟩ := h.reply hu
  refine ⟨e', hs, ha, hu', ?_⟩
  rw [recvMsg_update_zones h.update h']
  split_ifs with hc
  · rfl
  · have hF : e.flow_updates = [] := by simpa using hc
    have ht := (reachable_flowUpdatesInv h.reachable).tracks ⟨h.update, h.in_order, h.distinct⟩
    refine (ctZonesFlushed_of_noneSent (fun p hp hs => ?_) x).symm
    obtain ⟨-, hx⟩ := reachable_zonesOwed h.reachable p hp hs
    obtain ⟨h1, h2⟩ := hx h.in_order h.distinct
    exact ht.answered hF _ h2 h1

theorem Answering.pass_zones : ∀ (xs : List UInt32) (e : Ofctrl), Answering e →
    e.swconn.unanswered = xs →
    ∃ e2, exec e (xs.map fun x => .run false [some ⟨x, some .barrierReply⟩]) = some e2 ∧
      e2.pending_ct_zones = e.pending_ct_zones.map fun p =>
        if p.2.state = .CT_ZONE_OF_SENT ∧ p.2.of_xid ∈ xs
        then (p.1, { p.2 with state := .CT_ZONE_DB_QUEUED }) else p
  | [], e, _, _ => ⟨e, rfl, by simp⟩
  | x :: u, e, h, hu => by
    obtain ⟨e', hs, h', hu', hz⟩ := h.reply_zones hu
    obtain ⟨e2, hx, hz2⟩ := Answering.pass_zones u e' h' hu'
    refine ⟨e2, by simp only [List.map_cons, exec, hs, Option.some_bind, hx], ?_⟩
    rw [hz2, hz, ctZonesFlushed, List.map_map]
    refine List.map_congr_left fun p _ => ?_
    by_cases hs : p.2.state = .CT_ZONE_OF_SENT
    · by_cases hpx : p.2.of_xid = x <;> simp [hs, hpx]
    · simp [hs]

/-- Every conntrack flush is answered. From every reachable state in `S_UPDATE_FLOWS` on a
connection that is up, whose switch has answered its barriers in order and whose barriers have
distinct xids: once the switch answers every barrier it owes, in order, one per call of
`ofctrl_run`, the calls return, and every zone that waited for a barrier has passed to
`CT_ZONE_DB_QUEUED`, the other zones being left as they were. -/
theorem answered_barriers_pass_ct_zones {e : Ofctrl} (h : Reachable e)
    (hu : e.state = .S_UPDATE_FLOWS) (hc : e.swconn.connected = true)
    (ho : e.swconn.out_of_order = false) (hd : (barrierXids e.swconn.log).Nodup) :
    ∃ e2, exec e (e.swconn.unanswered.map fun x => .run false [some ⟨x, some .barrierReply⟩]) =
        some e2 ∧
      e2.pending_ct_zones = e.pending_ct_zones.map fun p =>
        if p.2.state = .CT_ZONE_OF_SENT then (p.1, { p.2 with state := .CT_ZONE_DB_QUEUED })
        else p := by
  obtain ⟨e2, hx, hz⟩ := Answering.pass_zones _ e ⟨h, hu, hc, ho, hd⟩ rfl
  refine ⟨e2, hx, hz.trans (List.map_congr_left fun p hp => ?_)⟩
  by_cases hs : p.2.state = .CT_ZONE_OF_SENT
  · simp [hs, ((reachable_zonesOwed h p hp hs).2 ho hd).1]
  · simp [hs]

/-- After the flush of zone 1 and its barrier 6 (the run `flushThenDrop` without its drop),
the switch owes barrier 6 alone; its reply passes the zone to the database stage. -/
theorem flushThenAnswer_passes_zone :
    ∃ e, Reachable e ∧ e.state = .S_UPDATE_FLOWS ∧ e.swconn.connected = true ∧
      e.swconn.out_of_order = false ∧ (barrierXids e.swconn.log).Nodup ∧
      e.swconn.unanswered = [6] ∧ e.pending_ct_zones = [("a", ⟨1, .CT_ZONE_OF_SENT, 6⟩)] ∧
      ∃ e2, exec e (e.swconn.unanswered.map fun x => .run false [some ⟨x, some .barrierReply⟩]) =
          some e2 ∧
        e2.pending_ct_zones = e.pending_ct_zones.map fun p =>
          if p.2.state = .CT_ZONE_OF_SENT then (p.1, { p.2 with state := .CT_ZONE_DB_QUEUED })
          else p :=
  ⟨_, reachable_of_isSome flushThenDrop.dropLast (by decide), by decide, by decide, by decide,
    by decide, by decide, by decide,
    answered_barriers_pass_ct_zones (reachable_of_isSome flushThenDrop.dropLast (by decide))
      (by decide) (by decide) (by decide) (by decide)⟩

end OvnOfctrl
