-- The flow updates of `ofctrl_put`. Each put that sends messages sends a barrier after them
-- and tracks it against its `nb_cfg`; `recv_S_UPDATE_FLOWS` retires the oldest record when
-- a barrier reply carries its xid. In `S_UPDATE_FLOWS`, on a switch that answers barriers in
-- order, the records are the put's unanswered barriers in send order, the last one the
-- latest, so a reply retires exactly the record of its barrier. Records of an earlier
-- connection stay through the negotiation until `run_S_CLEAR_FLOWS` frees them unanswered.
import OvnOfctrl.SwitchMirror

namespace OvnOfctrl

/-! ## The barriers of ofctrl_put -/

/-- The barriers sent on the connection from its delete-all on. In `S_UPDATE_FLOWS` the
delete-all is that of `run_S_CLEAR_FLOWS`, and only `ofctrl_put` sends barriers after it. -/
def putBarriers (log : List Sent) : List UInt32 :=
  barrierXids (log.dropWhile fun s => s.msg ≠ .flowMod .deleteAll)

theorem putBarriers_suffix (log : List Sent) : putBarriers log <:+ barrierXids log :=
  (List.dropWhile_suffix _).filterMap _

theorem putBarriers_append {log : List Sent} (h : ∃ s ∈ log, s.msg = .flowMod .deleteAll)
    (L : List Sent) : putBarriers (log ++ L) = putBarriers log ++ barrierXids L := by
  have hne : (log.dropWhile fun s => s.msg ≠ .flowMod .deleteAll).isEmpty = false := by
    obtain ⟨s, hs, hd⟩ := h
    simpa [List.dropWhile_eq_nil_iff] using ⟨s, hs, hd⟩
  simp only [putBarriers, List.dropWhile_append, hne, Bool.false_eq_true, if_false,
    barrierXids_append]

theorem putBarriers_clear {log : List Sent} (h : ∀ s ∈ log, s.msg ≠ .flowMod .deleteAll)
    (x y z : UInt32) : putBarriers (log ++ [⟨x, .flowMod .deleteAll⟩, ⟨y, .groupMod .deleteAll⟩,
      ⟨z, .meterMod .deleteAll⟩]) = [] := by
  rw [putBarriers, List.dropWhile_append_of_pos fun s hs => by simpa using h s hs]
  rfl

namespace Rconn

variable {c c' : Rconn}

theorem deleteAll_mem (h : c.flowLog.head? = some .deleteAll) :
    ∃ s ∈ c.log, s.msg = .flowMod .deleteAll := by
  obtain ⟨m, hm, hf⟩ := List.mem_filterMap.1 (List.mem_of_mem_head? h)
  obtain ⟨s, hs, rfl⟩ := List.mem_map.1 hm
  exact ⟨s, hs, by cases h : s.msg <;> simp_all⟩

theorem no_deleteAll (h : c.flowLog = []) : ∀ s ∈ c.log, s.msg ≠ .flowMod .deleteAll :=
  fun s hs hd => by
    simpa [hd] using List.filterMap_eq_nil_iff.1 h s.msg (List.mem_map_of_mem _ hs)

theorem Queued.tracked {L : List Sent} (hq : Queued c c' L)
    (hdel : ∃ s ∈ c.log, s.msg = .flowMod .deleteAll) (ho : c'.out_of_order = false)
    (hd : (barrierXids c'.log).Nodup) :
    c.out_of_order = false ∧ (barrierXids c.log).Nodup ∧
      putBarriers c'.log = putBarriers c.log ++ barrierXids L := by
  rw [hq.log] at hd ⊢
  rw [barrierXids_append] at hd
  exact ⟨hq.out_of_order ▸ ho, hd.sublist (List.sublist_append_left _ _), putBarriers_append hdel L⟩

end Rconn

/-! ## The flow updates against the barriers -/

/-- The records `F` of flow updates against the barriers `u` the switch owes and the
barriers `P` of `ofctrl_put`: the records carry xids of those barriers in send order, the
last record the latest barrier, and the queue empties only when all are answered. -/
structure Tracks (F : List OfctrlFlowUpdate) (u P : List UInt32) : Prop where
  pending : (F.map (·.xid)).Sublist u
  sent : (F.map (·.xid)).Sublist P
  latest : F ≠ [] → (F.map (·.xid)).getLast? = P.getLast?
  answered : F = [] → ∀ x ∈ P, x ∉ u

/-- What `recv_S_UPDATE_FLOWS` does to the queue on a barrier reply for `xid`: the oldest
record leaves when it carries `xid`. -/
def retireHead (F : List OfctrlFlowUpdate) (xid : UInt32) : List OfctrlFlowUpdate :=
  if F.head?.map (·.xid) = some xid then F.tail else F

section Lists

variable {F : List OfctrlFlowUpdate} {u P : List UInt32} {x : UInt32}

theorem tracks_clear (u : List UInt32) : Tracks [] u [] :=
  ⟨List.nil_sublist _, List.nil_sublist _, fun h => absurd rfl h, fun _ _ h => absurd h (by simp)⟩

theorem Tracks.of_xids (h : Tracks F u P) {F' : List OfctrlFlowUpdate}
    (hx : F'.map (·.xid) = F.map (·.xid)) : Tracks F' u P := by
  have hn : F' = [] ↔ F = [] := by rw [← List.map_eq_nil_iff, hx, List.map_eq_nil_iff]
  exact ⟨hx ▸ h.pending, hx ▸ h.sent, fun h' => hx ▸ h.latest (mt hn.2 h'),
    fun h' => h.answered (hn.1 h')⟩

/-- The records of a reply to the oldest barrier owed: the oldest record leaves when it
carries that barrier. `hl` says that when it is the latest barrier of `ofctrl_put`, no other
is owed. -/
theorem Tracks.retire (h : Tracks F (x :: u) P) (hl : P.getLast? = some x → u = []) :
    Tracks (retireHead F x) u P := by
  unfold retireHead
  rcases F with _ | ⟨f, rest⟩
  · exact ⟨List.nil_sublist _, List.nil_sublist _, fun h => absurd rfl h,
      fun _ y hy hu => h.answered rfl y hy (List.mem_cons_of_mem x hu)⟩
  by_cases hx : f.xid = x
  · simp only [List.head?_cons, Option.map_some', hx, if_true, List.tail_cons]
    have hp := h.pending
    simp only [List.map_cons, hx, List.cons_sublist_cons] at hp
    refine ⟨hp, (List.sublist_cons_self _ _).trans (by simpa using h.sent), fun hr => ?_,
      fun hr => ?_⟩
    · rw [← h.latest (List.cons_ne_nil _ _), List.map_cons, List.getLast?_cons,
        List.getLast?_eq_getLast _ (by simpa using hr), Option.getD_some]
    · subst hr
      have := h.latest (List.cons_ne_nil _ _)
      simp only [List.map_cons, hx, List.map_nil, List.getLast?_singleton] at this
      simp [hl this.symm]
  · simp only [List.head?_cons, Option.map_some', Option.some.injEq, hx, if_false]
    have hp := List.sublist_cons_iff.1 h.pending
    refine ⟨hp.resolve_right ?_, h.sent, h.latest, nofun⟩
    rintro ⟨r, hr, -⟩
    exact hx (List.cons.inj hr).1

theorem retireHead_eq_filter (h : (F.map (·.xid)).Sublist (x :: u)) (hn : (x :: u).Nodup) :
    retireHead F x = F.filter (·.xid ≠ x) := by
  have hu : x ∉ u := (List.nodup_cons.1 hn).1
  have keep : ∀ G : List OfctrlFlowUpdate, (G.map (·.xid)).Sublist u → G.filter (·.xid ≠ x) = G :=
    fun G hG => List.filter_eq_self.2 fun g hg => by
      have hm : g.xid ∈ u := hG.subset (List.mem_map_of_mem _ hg)
      have : g.xid ≠ x := fun he => hu (he ▸ hm)
      simpa using this
  unfold retireHead
  rcases F with _ | ⟨f, rest⟩
  · rfl
  by_cases hx : f.xid = x
  · simp only [List.map_cons, hx, List.cons_sublist_cons] at h
    simp only [List.head?_cons, Option.map_some', hx, if_true, List.tail_cons]
    rw [List.filter_cons_of_neg (by simp [hx]), keep rest h]
  · have h' := (List.sublist_cons_iff.1 h).resolve_right fun ⟨r, hr, _⟩ => hx (List.cons.inj hr).1
    simp only [List.head?_cons, Option.map_some', Option.some.injEq, hx, if_false]
    exact (keep _ h').symm

theorem owed_after_latest {B : List UInt32} (hu : (x :: u) <:+ B) (hP : P <:+ B) (hn : B.Nodup)
    (hl : P.getLast? = some x) : u = [] := by
  obtain ⟨a, rfl⟩ := hu
  obtain ⟨b, hb⟩ := hP
  obtain ⟨c, rfl⟩ := List.getLast?_eq_some_iff.1 hl
  rcases List.eq_nil_or_concat u with rfl | ⟨u', y, rfl⟩
  · rfl
  · simp only [List.concat_eq_append] at hb hn ⊢
    have hy := congrArg List.getLast? hb
    rw [← List.append_assoc, List.getLast?_concat, ← List.cons_append, ← List.append_assoc,
      List.getLast?_concat, Option.some.injEq] at hy
    subst hy
    simp [List.nodup_append] at hn

theorem trackRev_xids (nb_cfg : Int) (xid : UInt32) (l : List OfctrlFlowUpdate) :
    ∃ k, (trackRev nb_cfg xid l).map (·.xid) = xid :: (l.drop k).map (·.xid) := by
  induction l with
  | nil => exact ⟨0, rfl⟩
  | cons fup rest ih =>
    unfold trackRev
    split_ifs
    · obtain ⟨k, hk⟩ := ih
      exact ⟨k + 1, hk⟩
    · exact ⟨1, rfl⟩
    · exact ⟨0, rfl⟩

theorem trackFlowUpdate_xids (F : List OfctrlFlowUpdate) (nb_cfg : Int) (xid : UInt32) :
    ∃ ys, ys.Sublist (F.map (·.xid)) ∧
      (trackFlowUpdate F nb_cfg xid).map (·.xid) = ys ++ [xid] := by
  obtain ⟨k, hk⟩ := trackRev_xids nb_cfg xid F.reverse
  refine ⟨((F.reverse.drop k).map (·.xid)).reverse, ?_, ?_⟩
  · simpa using ((List.drop_sublist k F.reverse).map (·.xid)).reverse
  · rw [trackFlowUpdate, List.map_reverse, hk, List.reverse_cons]

theorem Tracks.track (h : Tracks F u P) (nb_cfg : Int) (L : List UInt32) (x : UInt32) :
    Tracks (trackFlowUpdate F nb_cfg x) (u ++ (L ++ [x])) (P ++ (L ++ [x])) := by
  obtain ⟨ys, hys, hx⟩ := trackFlowUpdate_xids F nb_cfg x
  have hne : trackFlowUpdate F nb_cfg x ≠ [] := fun h0 => by simp [h0] at hx
  simp only [← List.append_assoc]
  refine ⟨?_, ?_, fun _ => ?_, fun h0 => absurd h0 hne⟩
  · rw [hx]
    exact ((hys.trans h.pending).trans (List.sublist_append_left _ _)).append (List.Sublist.refl _)
  · rw [hx]
    exact ((hys.trans h.sent).trans (List.sublist_append_left _ _)).append (List.Sublist.refl _)
  · rw [hx, List.getLast?_concat, List.getLast?_concat]

end Lists

/-! ## The steps that touch the flow updates -/

section Steps

variable {e e' : Ofctrl}

theorem ofctrl_recv_queued (e : Ofctrl) (m : Received) :
    (ofctrl_recv e m).flow_updates = e.flow_updates ∧
      ∃ L, barrierXids L = [] ∧ Rconn.Queued e.swconn (ofctrl_recv e m).swconn L := by
  unfold ofctrl_recv
  split
  · exact ⟨rfl, _, by split <;> rfl, Rconn.queued_send _ _⟩
  · exact ⟨rfl, [], rfl, Rconn.queued_nil rfl rfl rfl⟩

/-- `recv_S_UPDATE_FLOWS`: a barrier reply retires the oldest record when it carries its
xid, and the handler queues no barrier. -/
theorem recv_S_UPDATE_FLOWS_spec (e : Ofctrl) (m : Received) (t : OfpType) :
    (recv_S_UPDATE_FLOWS e m t).flow_updates =
      (if t = .barrierReply then retireHead e.flow_updates m.xid else e.flow_updates) ∧
    ∃ L, barrierXids L = [] ∧ Rconn.Queued e.swconn (recv_S_UPDATE_FLOWS e m t).swconn L := by
  unfold recv_S_UPDATE_FLOWS
  split
  · rename_i fup rest hF
    simp only [if_true, retireHead, hF, List.head?_cons, Option.map_some', Option.some.injEq,
      List.tail_cons]
    split_ifs <;> exact ⟨by simp [hF], [], rfl, Rconn.queued_nil rfl rfl rfl⟩
  · rename_i hn
    obtain ⟨hf, hq⟩ := ofctrl_recv_queued e m
    refine ⟨?_, hq⟩
    rw [hf]
    split_ifs with hb
    · subst hb
      cases hF : e.flow_updates with
      | nil => rfl
      | cons fup rest => exact absurd hF (hn fup rest rfl)
    · rfl

/-- A message received in `S_UPDATE_FLOWS`: the machine stays there, a barrier reply retires
the oldest record when it carries its xid, and the handler queues no barrier. -/
theorem recvMsg_update_spec {m : Received} (hs : e.state = .S_UPDATE_FLOWS)
    (h : recvMsg e m = some e') :
    e'.state = .S_UPDATE_FLOWS ∧
      e'.flow_updates = (if m.type = some .barrierReply then retireHead e.flow_updates m.xid
        else e.flow_updates) ∧
      ∃ L, barrierXids L = [] ∧ Rconn.Queued (e.swconn.receive m) e'.swconn L := by
  refine ⟨recvMsg_stays h hs, ?_⟩
  unfold recvMsg recvState at h
  dsimp only at h
  split at h
  · cases h
    rename_i hm
    simp only [hm, reduceCtorEq, if_false, true_and]
    exact ⟨[], rfl, Rconn.queued_nil rfl rfl rfl⟩
  · rw [hs] at h
    cases h
    rename_i t ht
    obtain ⟨hf, hq⟩ := recv_S_UPDATE_FLOWS_spec
      { e with state := .S_UPDATE_FLOWS, swconn := e.swconn.receive m } m t
    exact ⟨by simp only [hf, ht, Option.some.injEq], hq⟩

theorem queueMsgs_queued (ms : List OfpMsg) (e : Ofctrl) :
    ∃ L, Rconn.Queued e.swconn (queueMsgs e ms).swconn L := by
  induction ms generalizing e with
  | nil => exact ⟨[], Rconn.queued_nil rfl rfl rfl⟩
  | cons m ms ih =>
    obtain ⟨L, hL⟩ := ih (queue_msg e m).1
    exact ⟨_, (Rconn.queued_send _ _).trans hL⟩

/-- The end of `ofctrl_put` on a connection that is up: with no message the records keep
their xids and nothing is sent; otherwise the messages go out with a barrier last, and the
tracking records that barrier. -/
theorem putFinish_tracking (e : Ofctrl) (hc : e.swconn.connected) (msgs : List OfpMsg)
    (nb_cfg : Int) :
    ((putFinish e msgs nb_cfg).flow_updates.map (·.xid) = e.flow_updates.map (·.xid) ∧
      (putFinish e msgs nb_cfg).swconn = e.swconn) ∨
    ∃ L x, Rconn.Queued e.swconn (putFinish e msgs nb_cfg).swconn (L ++ [⟨x, .barrierRequest⟩]) ∧
      (putFinish e msgs nb_cfg).flow_updates = trackFlowUpdate e.flow_updates nb_cfg x := by
  unfold putFinish
  split_ifs with hm
  · left
    split
    · rename_i fup hl
      obtain ⟨ys, hys⟩ := List.getLast?_eq_some_iff.1 hl
      simp [hys]
    · exact ⟨rfl, rfl⟩
  · right
    obtain ⟨L, hL⟩ := queueMsgs_queued msgs e
    obtain ⟨c, x, hq, hcc, -⟩ := queueMsgs_eq msgs e
    have hc' : (queueMsgs e msgs).swconn.connected := by rw [hq]; exact hcc ▸ hc
    have hb := Rconn.queued_send (queueMsgs e msgs).swconn
      ⟨(queueMsgs e msgs).next_xid, .barrierRequest⟩
    rw [if_pos hc'] at hb
    have hfu : (queueMsgs e msgs).flow_updates = e.flow_updates := by rw [hq]
    refine ⟨L, _, hL.trans hb, ?_⟩
    show trackFlowUpdate (queueMsgs e msgs).flow_updates nb_cfg _ = _
    rw [hfu]
    rfl

end Steps

/-! ## The invariant -/

/-- In `S_UPDATE_FLOWS`, on a connection whose switch has answered its barriers in order and
whose barriers have distinct xids. -/
def Tracked (e : Ofctrl) : Prop :=
  e.state = .S_UPDATE_FLOWS ∧ e.swconn.out_of_order = false ∧ (barrierXids e.swconn.log).Nodup

/-- The switch answers the barriers of the connection in order, and where that and distinct
xids hold in `S_UPDATE_FLOWS`, the flow updates track the barriers of `ofctrl_put`. -/
structure FlowUpdatesInv (e : Ofctrl) : Prop where
  in_order : e.swconn.InOrder
  tracks : Tracked e → Tracks e.flow_updates e.swconn.unanswered (putBarriers e.swconn.log)

theorem flowUpdatesInv_init : FlowUpdatesInv ofctrl_init :=
  ⟨fun _ => List.nil_suffix, fun h => absurd h.1 (by decide)⟩

section Invariant

variable {e e' : Ofctrl}

theorem FlowUpdatesInv.of_frame (h : FlowUpdatesInv e) (hw : SwitchInv e)
    (hs : e'.state = .S_UPDATE_FLOWS → e.state = .S_UPDATE_FLOWS)
    (hf : e'.flow_updates.map (·.xid) = e.flow_updates.map (·.xid)) {L : List Sent}
    (hq : Rconn.Queued e.swconn e'.swconn L) (hb : barrierXids L = []) : FlowUpdatesInv e' := by
  refine ⟨h.in_order.queued hq, fun ⟨hu, ho, hd⟩ => ?_⟩
  obtain ⟨ho0, hd0, hp⟩ := hq.tracked (Rconn.deleteAll_mem (hw.delete_first (hs hu))) ho hd
  rw [hp, hq.unanswered, hb, List.append_nil, List.append_nil]
  exact (h.tracks ⟨hs hu, ho0, hd0⟩).of_xids hf

theorem flowUpdatesInv_runState (h : FlowUpdatesInv e) (hw : SwitchInv e)
    (hc : e.swconn.connected) (hr : runState e = some e') : FlowUpdatesInv e' := by
  rcases runState_cases hr with ⟨-, rfl⟩ | ⟨hs, hcl⟩ | ⟨-, -, rfl⟩
  · exact h.of_frame hw (by simp [run_S_NEW]) rfl (Rconn.queued_send _ _) (by split <;> rfl)
  · obtain ⟨-, -, hf, -, -, -, -, -, -, hconn⟩ := run_S_CLEAR_FLOWS_spec hcl
    refine ⟨?_, fun _ => ?_⟩
    · rw [hconn]
      exact ((h.in_order.queued (Rconn.queued_send _ _)).queued (Rconn.queued_send _ _)).queued
        (Rconn.queued_send _ _)
    · have hlog : e'.swconn.log = e.swconn.log ++ [⟨e.next_xid, .flowMod .deleteAll⟩,
          ⟨e.next_xid + 1, .groupMod .deleteAll⟩, ⟨e.next_xid + 1 + 1, .meterMod .deleteAll⟩] := by
        simp [hconn, Rconn.send, hc]
      rw [hf, hlog, putBarriers_clear (Rconn.no_deleteAll (hw.before_update (by simp [hs])))]
      exact tracks_clear _
  · exact h

/-- A message received keeps the invariant: a barrier reply in order retires the oldest
record exactly when it carries the reply's xid. -/
theorem flowUpdatesInv_recvMsg (h : FlowUpdatesInv e) (hw : SwitchInv e) {m : Received}
    (hr : recvMsg e m = some e') : FlowUpdatesInv e' := by
  have fr := RecvFrame.of_recvMsg hr
  have hi : e'.swconn.InOrder := fr.conn _ Rconn.recvStable_inOrder h.in_order
  by_cases hs : e.state = .S_UPDATE_FLOWS
  swap
  · exact ⟨hi, fun ht => absurd (fr.enters ht.1) hs⟩
  obtain ⟨-, hf, L, hb, hq⟩ := recvMsg_update_spec hs hr
  refine ⟨hi, fun ⟨_, ho, hd⟩ => ?_⟩
  obtain ⟨ho1, hd1, hp⟩ := hq.tracked (by simpa using Rconn.deleteAll_mem (hw.delete_first hs))
    ho hd
  obtain ⟨ho0, hu0⟩ := Rconn.receive_in_order ho1
  rw [Rconn.receive_log] at hd1 hp
  have ht := h.tracks ⟨hs, ho0, hd1⟩
  rw [hp, hb, List.append_nil, hq.unanswered, hb, List.append_nil, hf]
  split at hu0
  · rw [if_pos ‹_›]
    rw [hu0] at ht
    exact ht.retire fun hl => owed_after_latest (hu0 ▸ h.in_order ho0) (putBarriers_suffix _) hd1 hl
  · rw [if_neg ‹_›, hu0]
    exact ht

theorem FlowUpdatesInv.checkSeqno (h : FlowUpdatesInv e) (hw : SwitchInv e) {established : Bool}
    (hc : (rconnRun e established).swconn.connected) :
    FlowUpdatesInv (checkSeqno (rconnRun e established)) := by
  cases established with
  | true =>
    have hne : e.seqno ≠ e.swconn.seqno + 1 := by have := hw.seqno_le; omega
    simp only [rconnRun, OvnOfctrl.checkSeqno, if_true, Rconn.reconnect, ne_eq, hne,
      not_false_eq_true]
    exact ⟨Rconn.inOrder_reconnect _, fun ht => absurd ht.1 (by simp)⟩
  | false =>
    show FlowUpdatesInv (OvnOfctrl.checkSeqno e)
    rw [OvnOfctrl.checkSeqno, if_neg (by simpa using hw.synced hc)]
    exact h

/-- The turns of `ofctrl_run` keep a property that they keep while the flow-update and switch
invariants hold, when the connection check starts it. -/
theorem ofctrl_run_induct (P : Ofctrl → Prop) (hf : FlowUpdatesInv e) (hw : SwitchInv e)
    (ht : TablesOk e.tables) {established : Bool} {recvd : List (Option Received)}
    (hs : ofctrl_run e established recvd = some e') (hp : P e)
    (h0 : (rconnRun e established).swconn.connected → P (checkSeqno (rconnRun e established)))
    (hrun : ∀ e e', P e → FlowUpdatesInv e → SwitchInv e → e.swconn.connected →
      runState e = some e' → P e')
    (hrecv : ∀ e m e', P e → FlowUpdatesInv e → SwitchInv e → recvMsg e m = some e' → P e') :
    P e' := by
  rcases ofctrl_run_cases hs with ⟨rfl, -⟩ | ⟨hc, hl⟩
  · exact hp
  have hp0 := h0 hc
  have hf0 := hf.checkSeqno hw hc
  have hw0 := switchInv_checkSeqno hw hc
  obtain ⟨c, q, s, z, he, hc0⟩ := checkSeqno_rconnRun_eq e established
  rw [he] at hl hp0 hf0 hw0
  refine (ofctrlRunLoop_induct
    (fun e => P e ∧ FlowUpdatesInv e ∧ SwitchInv e ∧ e.swconn.connected ∧ TablesOk e.tables)
    (fun e e' ⟨hp, hf, hw, hc, ht⟩ hr => ?_) (fun e m e' ⟨hp, hf, hw, hc, ht⟩ hr => ?_) 50 _ recvd e'
    ⟨hp0, hf0, hw0, hc0 ▸ hc, ht⟩ hl).1
  · obtain ⟨hw', hc'⟩ := switchInv_runState hw hc ht hr
    obtain ⟨e2, h2, t2⟩ := runState_tablesOk ht
    rw [hr, Option.some.injEq] at h2
    exact ⟨hrun e e' hp hf hw hc hr, flowUpdatesInv_runState hf hw hc hr, hw', hc', h2 ▸ t2⟩
  · obtain ⟨hw', hc'⟩ := switchInv_recvMsg hw hr
    exact ⟨hrecv e m e' hp hf hw hr, flowUpdatesInv_recvMsg hf hw hr, hw', hc' ▸ hc,
      (RecvFrame.of_recvMsg hr).tables ▸ ht⟩

theorem flowUpdatesInv_ofctrl_run (h : FlowUpdatesInv e) (hw : SwitchInv e)
    (ht : TablesOk e.tables) {established : Bool} {recvd : List (Option Received)}
    (hs : ofctrl_run e established recvd = some e') : FlowUpdatesInv e' :=
  ofctrl_run_induct FlowUpdatesInv h hw ht hs h (h.checkSeqno hw)
    (fun _ _ h _ hw hc hr => flowUpdatesInv_runState h hw hc hr)
    (fun _ _ _ h _ hw hr => flowUpdatesInv_recvMsg h hw hr)

/-- The end of `ofctrl_put` in `S_UPDATE_FLOWS` on a connection that is up keeps the
invariant: a put that sends nothing keeps the xids of the records, and one that sends a
barrier tracks it last. -/
theorem flowUpdatesInv_putFinish (h : FlowUpdatesInv e) (hw : SwitchInv e)
    (hu : e.state = .S_UPDATE_FLOWS) (hc : e.swconn.connected) {E : Ofctrl}
    (hE : E.flow_updates = e.flow_updates ∧ E.swconn = e.swconn) (msgs : List OfpMsg)
    (nb_cfg : Int) : FlowUpdatesInv (putFinish E msgs nb_cfg) := by
  obtain ⟨hf0, hw0⟩ := hE
  rcases putFinish_tracking E (hw0 ▸ hc) msgs nb_cfg with ⟨hf, hsw⟩ | ⟨L, x, hq, hf⟩
  · exact h.of_frame hw (fun _ => hu) (hf.trans (by rw [hf0]))
      (by rw [hsw, hw0]; exact Rconn.queued_nil rfl rfl rfl) (by rfl)
  · rw [hw0] at hq
    refine ⟨h.in_order.queued hq, fun ⟨_, ho, hd⟩ => ?_⟩
    obtain ⟨ho0, hd0, hp⟩ := hq.tracked (Rconn.deleteAll_mem (hw.delete_first hu)) ho hd
    rw [hp, hq.unanswered, hf, hf0, barrierXids_append, barrierXids_barrier]
    exact (h.tracks ⟨hu, ho0, hd0⟩).track nb_cfg _ x

theorem flowUpdatesInv_ofctrl_put (h : FlowUpdatesInv e) (hw : SwitchInv e)
    (ht : TablesOk e.tables) {p : ModParse} {meter_table : List SbrecMeter} {nb_cfg : Int}
    {flow_changed : Bool} (hs : ofctrl_put e p meter_table nb_cfg flow_changed = some e') :
    FlowUpdatesInv e' := by
  rcases ofctrl_put_cases hs with ⟨-, rfl⟩ | ⟨-, -, rfl⟩ | ⟨-, hcan, hr⟩
  · exact h.of_frame hw id rfl (Rconn.queued_nil rfl rfl rfl) rfl
  · exact h.of_frame hw id rfl (Rconn.queued_nil rfl rfl rfl) rfl
  simp only [ofctrl_can_put, Bool.and_eq_true, decide_eq_true_eq] at hcan
  obtain ⟨⟨hu, -⟩, hc⟩ := hcan
  obtain ⟨ft, msgs1, msgs2, hr', -⟩ := putReconcile_spec (e := { e with
    cur_cfg := (needPut e nb_cfg flow_changed).2, old_nb_cfg := nb_cfg })
    ht.desired ht.links p meter_table nb_cfg
  rw [hr, Option.some.injEq] at hr'
  subst hr'
  exact flowUpdatesInv_putFinish h hw hu hc (by exact ⟨rfl, rfl⟩) _ nb_cfg

theorem step_flowUpdatesInv (h : FlowUpdatesInv e) (hw : SwitchInv e) (ht : TablesOk e.tables)
    {ev : Event} (hs : step e ev = some e') : FlowUpdatesInv e' := by
  rcases step_cases hs with ⟨_, _, -, hr⟩ | ⟨_, _, _, _, -, hp⟩ | ⟨op, -, hd⟩ |
    ⟨g, m, z, x, c, rfl, hc⟩
  · exact flowUpdatesInv_ofctrl_run h hw ht hr
  · exact flowUpdatesInv_ofctrl_put h hw ht hp
  · obtain ⟨g, m, he⟩ := desiredOp_frame hd
    rw [he]
    exact h.of_frame hw id rfl (Rconn.queued_nil rfl rfl rfl) rfl
  · obtain ⟨L, hb, hq⟩ := hc.queued
    exact h.of_frame hw id rfl hq hb

end Invariant

theorem reachable_flowUpdatesInv {e : Ofctrl} (h : Reachable e) : FlowUpdatesInv e :=
  (reachable_induct (P := fun e => FlowUpdatesInv e ∧ SwitchInv e ∧ TablesOk e.tables)
    ⟨flowUpdatesInv_init, switchInv_init, tablesOk_init⟩
    (fun _ _ _ _ ⟨h, hw, ht⟩ hs =>
      ⟨step_flowUpdatesInv h hw ht hs, step_switchInv hw ht hs, step_tablesOk ht hs⟩) h).1

theorem step_run_update_flows {e : Ofctrl} (hs : e.state = .S_UPDATE_FLOWS)
    (hc : e.swconn.connected) (hq : e.seqno = e.swconn.seqno) (m : Received) :
    step e (.run false [some m]) = recvMsg e m := by
  obtain ⟨e1, h1⟩ := recvMsg_exists (show e.state ≠ .S_NEW by simp [hs]) m
  rw [h1]
  show ofctrl_run e false [some m] = _
  rw [ofctrl_run_synced hc hq, ofctrlRunLoop_recv (by simp [runState, hs]) h1 49,
    ofctrlRunLoop_update_idle (recvMsg_stays h1 hs) 48]

/-- A state from which the switch answers the barriers it owes, one reply per call of
`ofctrl_run`: reachable, in `S_UPDATE_FLOWS` on a connection that is up, whose switch has
answered in order so far and whose barriers have distinct xids. -/
structure Answering (e : Ofctrl) : Prop where
  reachable : Reachable e
  update : e.state = .S_UPDATE_FLOWS
  connected : e.swconn.connected = true
  in_order : e.swconn.out_of_order = false
  distinct : (barrierXids e.swconn.log).Nodup

theorem Answering.reply {e : Ofctrl} (h : Answering e) {x : UInt32} {u : List UInt32}
    (hu : e.swconn.unanswered = x :: u) :
    ∃ e', step e (.run false [some ⟨x, some .barrierReply⟩]) = some e' ∧
      recvMsg e ⟨x, some .barrierReply⟩ = some e' ∧ Answering e' ∧ e'.swconn.unanswered = u := by
  have hq := (reachable_switchInv h.reachable).synced h.connected
  obtain ⟨e', h'⟩ := recvMsg_exists (show e.state ≠ .S_NEW by simp [h.update]) ⟨x, some .barrierReply⟩
  have hs := (step_run_update_flows h.update h.connected hq _).trans h'
  obtain ⟨hup, -, L, hb, hQ⟩ := recvMsg_update_spec h.update h'
  have hrecv : e.swconn.receive ⟨x, some .barrierReply⟩ = { e.swconn with unanswered := u } := by
    simp [Rconn.receive, hu]
  rw [hrecv] at hQ
  refine ⟨e', hs, h', ⟨.step _ h.reachable hs, hup,
    (RecvFrame.of_recvMsg h').conn (·.connected = true)
      ⟨fun _ _ _ h => by simpa using h, fun _ _ h => by simpa using h⟩ h.connected,
    hQ.out_of_order.trans h.in_order, ?_⟩, ?_⟩
  · rw [hQ.log, barrierXids_append, hb, List.append_nil]; exact h.distinct
  · rw [hQ.unanswered, hb, List.append_nil]

/-- In every reachable state in `S_UPDATE_FLOWS`, on a connection whose switch has answered
its barriers in order and whose barriers have distinct xids: the records of `flow_updates`
carry xids of barriers `ofctrl_put` sent on the connection and the switch has not answered,
in send order; the last record carries the latest of them; the queue is empty exactly when
all are answered; and a run receiving the reply to the oldest barrier owed removes exactly
the records of that barrier. -/
theorem flow_updates_track_put_barriers {e : Ofctrl} (h : Reachable e)
    (hs : e.state = .S_UPDATE_FLOWS) (ho : e.swconn.out_of_order = false)
    (hd : (barrierXids e.swconn.log).Nodup) :
    (e.flow_updates.map (·.xid)).Sublist e.swconn.unanswered ∧
      (e.flow_updates.map (·.xid)).Sublist (putBarriers e.swconn.log) ∧
      (e.flow_updates ≠ [] →
        (e.flow_updates.map (·.xid)).getLast? = (putBarriers e.swconn.log).getLast?) ∧
      (e.flow_updates = [] ↔ ∀ x ∈ putBarriers e.swconn.log, x ∉ e.swconn.unanswered) ∧
      (e.swconn.connected → ∀ x, e.swconn.unanswered.head? = some x →
        ∃ e', step e (.run false [some ⟨x, some .barrierReply⟩]) = some e' ∧
          e'.flow_updates = e.flow_updates.filter (·.xid ≠ x)) := by
  have hi := reachable_flowUpdatesInv h
  have ht := hi.tracks ⟨hs, ho, hd⟩
  refine ⟨ht.pending, ht.sent, ht.latest, ⟨ht.answered, fun ha => ?_⟩, fun hc x hx => ?_⟩
  · by_contra hne
    obtain ⟨f, hf⟩ := List.exists_mem_of_ne_nil _ hne
    exact ha f.xid (ht.sent.subset (List.mem_map_of_mem _ hf))
      (ht.pending.subset (List.mem_map_of_mem _ hf))
  · obtain ⟨u, hu⟩ : ∃ u, e.swconn.unanswered = x :: u := by
      cases h' : e.swconn.unanswered <;> simp_all
    obtain ⟨e1, h1⟩ := recvMsg_exists (show e.state ≠ .S_NEW by simp [hs]) ⟨x, some .barrierReply⟩
    refine ⟨e1, (step_run_update_flows hs hc ((reachable_switchInv h).synced hc) _).trans h1, ?_⟩
    rw [(recvMsg_update_spec hs h1).2.1, if_pos rfl]
    exact retireHead_eq_filter (hu ▸ ht.pending) (hu ▸ hd.sublist (hi.in_order ho).sublist)

/-- After `onePut` the queue holds the one record of the put's barrier, xid 6, which the
switch owes. -/
theorem flow_updates_onePut :
    ∃ e, Reachable e ∧ e.state = .S_UPDATE_FLOWS ∧ e.swconn.out_of_order = false ∧
      (barrierXids e.swconn.log).Nodup ∧ e.flow_updates.map (·.xid) = [6] ∧
      putBarriers e.swconn.log = [6] ∧
      ((e.flow_updates.map (·.xid)).Sublist e.swconn.unanswered ∧
        (e.flow_updates.map (·.xid)).Sublist (putBarriers e.swconn.log) ∧
        (e.flow_updates ≠ [] →
          (e.flow_updates.map (·.xid)).getLast? = (putBarriers e.swconn.log).getLast?) ∧
        (e.flow_updates = [] ↔ ∀ x ∈ putBarriers e.swconn.log, x ∉ e.swconn.unanswered) ∧
        (e.swconn.connected → ∀ x, e.swconn.unanswered.head? = some x →
          ∃ e', step e (.run false [some ⟨x, some .barrierReply⟩]) = some e' ∧
            e'.flow_updates = e.flow_updates.filter (·.xid ≠ x))) :=
  ⟨_, reachable_of_isSome onePut (by decide), by decide, by decide, by decide, by decide, by decide,
    flow_updates_track_put_barriers (reachable_of_isSome onePut (by decide)) (by decide) (by decide)
      (by decide)⟩

/-- A drop and a new connection after `onePut`: in `S_TLV_TABLE_REQUESTED` the queue still
holds the record of barrier 6 of the old connection, though the new one has sent no barrier
and the switch owes none. The negotiation's `run_S_CLEAR_FLOWS` then frees it, with no
reply for xid 6. -/
theorem flow_update_outlives_connection :
    ∃ e, Reachable e ∧ e.state = .S_TLV_TABLE_REQUESTED ∧ e.swconn.connected ∧
      e.swconn.out_of_order = false ∧ barrierXids e.swconn.log = [] ∧ e.swconn.unanswered = [] ∧
      e.flow_updates.map (·.xid) = [6] ∧
      ∃ e', step e (.run false [some ⟨e.xid, some (.tlvTableReply (some [ovnOptionAt0]))⟩]) =
          some e' ∧ e'.state = .S_UPDATE_FLOWS ∧ e'.flow_updates = [] :=
  ⟨_, reachable_of_isSome (onePut ++ [.drop, .run true [none]]) (by decide), by decide, by decide,
    by decide, by decide, by decide, by decide, _, (Option.some_get (by decide)).symm, by decide,
    by decide⟩

end OvnOfctrl
