-- What the steps of the engine leave alone and how to carry an invariant through them:
-- the receive handlers keep the tables and the flags of `ofctrl_put`, the loop of
-- `ofctrl_run` keeps whatever its turns keep and never aborts when its state functions
-- do not, and an invariant of every step holds in every reachable state.
import OvnOfctrl.Step

namespace OvnOfctrl

/-! ## Reachable states -/

/-- A property of `ofctrl_init` that every step keeps holds in every reachable state. -/
theorem reachable_induct {P : Ofctrl → Prop} (h0 : P ofctrl_init)
    (hs : ∀ e e' ev, Reachable e → P e → step e ev = some e' → P e') {e : Ofctrl}
    (h : Reachable e) : P e := by
  induction h with
  | init => exact h0
  | step ev hr hst ih => exact hs _ _ ev hr ih hst

/-! ## The receive handlers -/

/-- What a receive handler may do to the revision bookkeeping: the flow updates only lose
records, and `cur_cfg` only rises, to the revision of one of them. -/
structure CfgStep (e e' : Ofctrl) : Prop where
  rises : e.cur_cfg ≤ e'.cur_cfg
  reached : e'.cur_cfg = e.cur_cfg ∨ ∃ fu ∈ e.flow_updates, e'.cur_cfg = fu.nb_cfg
  retires : e'.flow_updates ⊆ e.flow_updates

namespace CfgStep

variable {e e1 e2 : Ofctrl}

theorem of_eq (hc : e1.cur_cfg = e.cur_cfg) (hf : e1.flow_updates = e.flow_updates) :
    CfgStep e e1 :=
  ⟨hc ▸ Int.le_refl _, .inl hc, hf ▸ List.Subset.refl _⟩

theorem trans (h1 : CfgStep e e1) (h2 : CfgStep e1 e2) : CfgStep e e2 := by
  refine ⟨Int.le_trans h1.rises h2.rises, ?_, List.Subset.trans h2.retires h1.retires⟩
  rcases h2.reached with h | ⟨fu, hm, hfu⟩
  · rw [h]; exact h1.reached
  · exact .inr ⟨fu, h1.retires hm, hfu⟩

end CfgStep

/-- What a receive handler leaves alone. It only sends messages that are not flow_mods,
never enters `S_UPDATE_FLOWS`, only passes ct flushes on to the database stage, and only
retires flow updates. -/
structure RecvFrame (e e' : Ofctrl) : Prop where
  tables : e'.tables = e.tables
  groups : e'.groups = e.groups
  meters : e'.meters = e.meters
  skipped : e'.skipped_last_time = e.skipped_last_time
  reinstall : e'.need_reinstall_flows = e.need_reinstall_flows
  old_nb_cfg : e'.old_nb_cfg = e.old_nb_cfg
  seqno : e'.seqno = e.seqno
  conn : ∀ P, Rconn.RecvStable P → P e.swconn → P e'.swconn
  enters : e'.state = .S_UPDATE_FLOWS → e.state = .S_UPDATE_FLOWS
  zones : ∀ Z : List (String × CtZonePendingEntry) → Prop, (∀ z x, Z z → Z (ctZonesFlushed z x)) →
    Z e.pending_ct_zones → Z e'.pending_ct_zones
  cfg : CfgStep e e'

namespace RecvFrame

variable {e e1 e2 : Ofctrl}

theorem trans (h1 : RecvFrame e e1) (h2 : RecvFrame e1 e2) : RecvFrame e e2 :=
  ⟨h2.1.trans h1.1, h2.2.trans h1.2, h2.3.trans h1.3, h2.4.trans h1.4, h2.5.trans h1.5,
   h2.6.trans h1.6, h2.7.trans h1.7, fun P hP h => h2.conn P hP (h1.conn P hP h),
   fun h => h1.enters (h2.enters h), fun Z hZ h => h2.zones Z hZ (h1.zones Z hZ h),
   h1.cfg.trans h2.cfg⟩

theorem of_state {s : OfctrlState} (hs : s ≠ .S_UPDATE_FLOWS) (x x2 : UInt32) (k : Option Nat) :
    RecvFrame e { e with state := s, xid := x, xid2 := x2, mff_ovn_geneve := k } :=
  ⟨rfl, rfl, rfl, rfl, rfl, rfl, rfl, fun _ _ h => h, fun h => absurd h hs, fun _ _ h => h,
    .of_eq rfl rfl⟩

theorem of_ofctrl_recv (e : Ofctrl) (m : Received) : RecvFrame e (ofctrl_recv e m) := by
  unfold ofctrl_recv
  split
  · exact ⟨rfl, rfl, rfl, rfl, rfl, rfl, rfl, fun _ hP h => hP.send _ _ (by simp) h, id,
      fun _ _ h => h, .of_eq rfl rfl⟩
  · exact ⟨rfl, rfl, rfl, rfl, rfl, rfl, rfl, fun _ _ h => h, id, fun _ _ h => h, .of_eq rfl rfl⟩

theorem of_process (e : Ofctrl) (l : List TlvMap) : RecvFrame e (process_tlv_table_reply e l).2 := by
  unfold process_tlv_table_reply
  repeat' split
  all_goals first
    | exact ⟨rfl, rfl, rfl, rfl, rfl, rfl, rfl, fun _ _ h => h, id, fun _ _ h => h,
        .of_eq rfl rfl⟩
    | exact of_state (by decide) _ _ _
    | exact ⟨rfl, rfl, rfl, rfl, rfl, rfl, rfl,
        fun _ hP h => hP.send _ _ (by simp) (hP.send _ _ (by simp) h), by simp, fun _ _ h => h,
        .of_eq rfl rfl⟩

theorem of_requested (e : Ofctrl) (m : Received) (t : OfpType) :
    RecvFrame e (recv_S_TLV_TABLE_REQUESTED e m t) := by
  unfold recv_S_TLV_TABLE_REQUESTED tlvRequestFailed
  split
  · exact of_ofctrl_recv e m
  · cases t with
    | tlvTableReply maps =>
      cases maps with
      | none => exact of_state (by decide) _ _ _
      | some maps =>
        have h1 := of_process e maps
        dsimp only
        split
        · exact h1
        · exact h1.trans (of_state (by decide) _ _ _)
    | _ => exact of_state (by decide) _ _ _

theorem of_mod_sent (e : Ofctrl) (m : Received) (t : OfpType) :
    RecvFrame e (recv_S_TLV_TABLE_MOD_SENT e m t) := by
  unfold recv_S_TLV_TABLE_MOD_SENT
  repeat' split
  · exact of_ofctrl_recv e m
  all_goals exact of_state (by decide) _ _ _

theorem of_update_flows (e : Ofctrl) (m : Received) (t : OfpType) :
    RecvFrame e (recv_S_UPDATE_FLOWS e m t) := by
  unfold recv_S_UPDATE_FLOWS
  split
  · rename_i fup rest hF
    dsimp only
    split
    · refine ⟨rfl, rfl, rfl, rfl, rfl, rfl, rfl, fun _ _ h => h, id, fun _ hZ h => hZ _ _ h,
        ?_, ?_, by simp [hF]⟩ <;> dsimp only <;> split_ifs with hc
      · exact hc
      · exact Int.le_refl _
      · exact .inr ⟨fup, by simp [hF], rfl⟩
      · exact .inl rfl
    · exact ⟨rfl, rfl, rfl, rfl, rfl, rfl, rfl, fun _ _ h => h, id, fun _ hZ h => hZ _ _ h,
        .of_eq rfl rfl⟩
  · exact of_ofctrl_recv e m

theorem of_recvMsg {m : Received} (h : recvMsg e m = some e') : RecvFrame e e' := by
  unfold recvMsg recvState at h
  dsimp only at h
  have h0 : RecvFrame e { e with swconn := e.swconn.receive m } :=
    ⟨rfl, rfl, rfl, rfl, rfl, rfl, rfl, fun _ hP h => hP.receive _ _ h, id, fun _ _ h => h,
      .of_eq rfl rfl⟩
  split at h
  · cases h; exact h0
  · split at h <;> cases h
    · exact h0.trans (of_requested _ m _)
    · exact h0.trans (of_mod_sent _ m _)
    · exact h0.trans (of_ofctrl_recv _ m)
    · exact h0.trans (of_update_flows _ m _)

end RecvFrame

/-! ## The loop of ofctrl_run -/

section RunLoop

variable {e e' : Ofctrl}

theorem run_S_CLEAR_FLOWS_spec (h : run_S_CLEAR_FLOWS e = some e') :
    ovn_installed_flow_table_clear e.tables = some e'.tables ∧ e'.state = .S_UPDATE_FLOWS ∧
      e'.flow_updates = [] ∧ e'.need_reinstall_flows = true ∧
      e'.skipped_last_time = e.skipped_last_time ∧ e'.seqno = e.seqno ∧
      e'.cur_cfg = e.cur_cfg ∧ e'.pending_ct_zones = e.pending_ct_zones ∧
      e'.mff_ovn_geneve = e.mff_ovn_geneve ∧
      e'.swconn = ((e.swconn.send ⟨e.next_xid, .flowMod .deleteAll⟩).send
        ⟨e.next_xid + 1, .groupMod .deleteAll⟩).send ⟨e.next_xid + 1 + 1, .meterMod .deleteAll⟩ := by
  simp only [run_S_CLEAR_FLOWS, Option.bind_eq_bind] at h
  obtain ⟨t, ht, h⟩ := Option.bind_eq_some.1 h
  cases h
  exact ⟨ht, rfl, rfl, rfl, rfl, rfl, rfl, rfl, rfl, rfl⟩

theorem runState_cases (h : runState e = some e') :
    (e.state = .S_NEW ∧ e' = run_S_NEW e) ∨
      (e.state = .S_CLEAR_FLOWS ∧ run_S_CLEAR_FLOWS e = some e') ∨
      (e.state ≠ .S_NEW ∧ e.state ≠ .S_CLEAR_FLOWS ∧ e' = e) := by
  unfold runState at h
  split at h
  · exact .inl ⟨‹_›, (Option.some.inj h).symm⟩
  · exact .inr (.inl ⟨‹_›, h⟩)
  · exact .inr (.inr ⟨‹_›, ‹_›, (Option.some.inj h).symm⟩)

theorem runState_state_ne (h : runState e = some e') : e'.state ≠ .S_NEW := by
  rcases runState_cases h with ⟨-, rfl⟩ | ⟨-, hc⟩ | ⟨hn, -, rfl⟩
  · simp [run_S_NEW]
  · simp [(run_S_CLEAR_FLOWS_spec hc).2.1]
  · exact hn

theorem recv_S_UPDATE_FLOWS_state (e : Ofctrl) (m : Received) (t : OfpType) :
    (recv_S_UPDATE_FLOWS e m t).state = e.state := by
  unfold recv_S_UPDATE_FLOWS ofctrl_recv
  split
  · dsimp only; split <;> rfl
  · split <;> rfl

theorem runState_zones (h : runState e = some e') : e'.pending_ct_zones = e.pending_ct_zones := by
  rcases runState_cases h with ⟨-, rfl⟩ | ⟨-, hc⟩ | ⟨-, -, rfl⟩
  · rfl
  · exact (run_S_CLEAR_FLOWS_spec hc).2.2.2.2.2.2.2.1
  · rfl

theorem runState_cfg (h : runState e = some e') :
    CfgStep e e' ∧ e'.old_nb_cfg = e.old_nb_cfg := by
  rcases runState_cases h with ⟨-, rfl⟩ | ⟨-, hc⟩ | ⟨-, -, rfl⟩
  · exact ⟨.of_eq rfl rfl, rfl⟩
  · simp only [run_S_CLEAR_FLOWS, Option.bind_eq_bind] at hc
    obtain ⟨t, -, hc⟩ := Option.bind_eq_some.1 hc
    cases hc
    exact ⟨⟨Int.le_refl _, .inl rfl, List.nil_subset _⟩, rfl⟩
  · exact ⟨.of_eq rfl rfl, rfl⟩

theorem recvMsg_stays {m : Received} (h : recvMsg e m = some e') (hs : e.state = .S_UPDATE_FLOWS) :
    e'.state = .S_UPDATE_FLOWS := by
  unfold recvMsg recvState at h
  dsimp only at h
  split at h
  · cases h; exact hs
  · rw [hs] at h
    cases h
    exact recv_S_UPDATE_FLOWS_state _ m _

theorem recvMsg_exists (h : e.state ≠ .S_NEW) (m : Received) : ∃ e', recvMsg e m = some e' := by
  unfold recvMsg recvState
  dsimp only
  split
  · exact ⟨_, rfl⟩
  · split <;> first | exact absurd ‹_› h | exact ⟨_, rfl⟩

/-- An invariant of the state functions and the message handling holds after the loop of
`ofctrl_run`. -/
theorem ofctrlRunLoop_induct (P : Ofctrl → Prop)
    (hrun : ∀ e e', P e → runState e = some e' → P e')
    (hrecv : ∀ e m e', P e → recvMsg e m = some e' → P e') :
    ∀ n e msgs e', P e → ofctrlRunLoop n e msgs = some e' → P e'
  | 0, e, msgs, e', h, hl => by simp only [ofctrlRunLoop, Option.some.injEq] at hl; exact hl ▸ h
  | n + 1, e, msgs, e', h, hl => by
    simp only [ofctrlRunLoop, Option.bind_eq_bind] at hl
    obtain ⟨e1, h1, hl⟩ := Option.bind_eq_some.1 hl
    have p1 := hrun e e1 h h1
    -- the turn ends, or the loop goes on, from the state after the message
    have tail : ∀ e2, P e2 → (if e.state ≠ e2.state ∨ (msgs.head?.join).isSome = true
        then ofctrlRunLoop n e2 msgs.tail else some e2) = some e' → P e' := by
      intro e2 p2 hl
      split at hl
      · exact ofctrlRunLoop_induct P hrun hrecv n e2 _ e' p2 hl
      · cases hl; exact p2
    split at hl
    · exact tail e1 p1 hl
    · obtain ⟨e2, h2, hl⟩ := Option.bind_eq_some.1 hl
      exact tail e2 (hrecv e1 _ e2 p1 h2) hl

/-- The loop of `ofctrl_run` does not abort when its state functions do not, from states
of an invariant of theirs and of the message handling. -/
theorem ofctrlRunLoop_exists (P : Ofctrl → Prop)
    (hrun : ∀ e, P e → ∃ e', runState e = some e' ∧ P e')
    (hrecv : ∀ e m e', P e → recvMsg e m = some e' → P e') :
    ∀ n e msgs, P e → ∃ e', ofctrlRunLoop n e msgs = some e'
  | 0, e, _, _ => ⟨e, rfl⟩
  | n + 1, e, msgs, h => by
    obtain ⟨e1, h1, p1⟩ := hrun e h
    have tail : ∀ e2, P e2 → ∃ e', (if e.state ≠ e2.state ∨ (msgs.head?.join).isSome = true
        then ofctrlRunLoop n e2 msgs.tail else some e2) = some e' := by
      intro e2 p2
      split
      · exact ofctrlRunLoop_exists P hrun hrecv n e2 _ p2
      · exact ⟨e2, rfl⟩
    simp only [ofctrlRunLoop, Option.bind_eq_bind, h1, Option.some_bind]
    split
    · exact tail e1 p1
    · obtain ⟨e2, h2⟩ := recvMsg_exists (runState_state_ne h1) ‹_›
      rw [h2, Option.some_bind]
      exact tail e2 (hrecv _ _ _ p1 h2)

theorem ofctrlRunLoop_recv {e1 e2 : Ofctrl} (h1 : runState e = some e1) {m : Received}
    (h2 : recvMsg e1 m = some e2) (n : Nat) (msgs : List (Option Received)) :
    ofctrlRunLoop (n + 1) e (some m :: msgs) = ofctrlRunLoop n e2 msgs := by
  simp [ofctrlRunLoop, h1, h2]

theorem ofctrlRunLoop_update_idle (hs : e.state = .S_UPDATE_FLOWS) (n : Nat) :
    ofctrlRunLoop (n + 1) e [] = some e := by
  simp [ofctrlRunLoop, runState, hs]

theorem ofctrlRunLoop_clear_idle (hs : e.state = .S_CLEAR_FLOWS) {e' : Ofctrl}
    (hc : run_S_CLEAR_FLOWS e = some e') (n : Nat) : ofctrlRunLoop (n + 2) e [] = some e' := by
  have hu := (run_S_CLEAR_FLOWS_spec hc).2.1
  simp [ofctrlRunLoop, runState, hs, hc, hu, ofctrlRunLoop_update_idle hu]

theorem ofctrl_run_cases {established : Bool} {recvd : List (Option Received)}
    (hs : ofctrl_run e established recvd = some e') :
    (e' = e ∧ established = false ∧ e.swconn.connected = false) ∨
      ((rconnRun e established).swconn.connected ∧
        ofctrlRunLoop 50 (checkSeqno (rconnRun e established)) recvd = some e') := by
  unfold ofctrl_run at hs
  dsimp only at hs
  split at hs
  · rename_i hc
    cases hs
    cases established
    · exact .inl ⟨rfl, rfl, by simpa [rconnRun] using hc⟩
    · simp [rconnRun, Rconn.reconnect] at hc
  · rename_i hc
    exact .inr ⟨by simpa using hc, hs⟩

theorem checkSeqno_rconnRun_eq (e : Ofctrl) (established : Bool) :
    ∃ c q s z, checkSeqno (rconnRun e established) =
      { e with swconn := c, seqno := q, state := s, pending_ct_zones := z } ∧
      c = (rconnRun e established).swconn := by
  unfold checkSeqno rconnRun
  split_ifs <;> exact ⟨_, _, _, _, rfl, rfl⟩

theorem ofctrl_run_synced (hc : e.swconn.connected) (hq : e.seqno = e.swconn.seqno)
    (recvd : List (Option Received)) : ofctrl_run e false recvd = ofctrlRunLoop 50 e recvd := by
  simp [ofctrl_run, rconnRun, checkSeqno, hc, hq]

end RunLoop

end OvnOfctrl
