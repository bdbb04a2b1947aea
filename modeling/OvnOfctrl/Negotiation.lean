-- The TLV negotiation and the field `ofctrl_get_mf_field_id` returns. A race with another
-- controller sends the machine back to S_NEW, yet no message is ever handed to `recv_S_NEW`:
-- each turn of `ofctrl_run` runs the state before it reads. The error path of
-- `recv_S_TLV_TABLE_MOD_SENT` moves on to S_CLEAR_FLOWS without disabling tunnel metadata,
-- so a switch that rejects the TLV table mod leaves the requested field in use.
import OvnOfctrl.Invariants

namespace OvnOfctrl

/-! ## The TLV table reply -/

section TlvReply

theorem shiftRight_and_one (x : UInt64) {i : Nat} (hi : i < 64) :
    ((x >>> i.toUInt64) &&& 1 != 0) = x.toNat.testBit i := by
  have h1 : (i.toUInt64.toBitVec % 64#64).toNat = i := by
    rw [BitVec.toNat_umod]; simp [Nat.toUInt64, UInt64.ofNat]; omega
  have hz : ((x >>> i.toUInt64) &&& 1).toBitVec.toNat = x.toNat / 2 ^ i % 2 := by
    show ((x.toBitVec >>> (i.toUInt64.toBitVec % 64#64)) &&& 1#64).toNat = _
    rw [BitVec.toNat_and, BitVec.ushiftRight_eq', BitVec.toNat_ushiftRight, h1]
    simp [Nat.and_one_is_mod, Nat.shiftRight_eq_div_pow]; rfl
  have h0 : ∀ z : UInt64, z = 0 ↔ z.toBitVec.toNat = 0 := fun z =>
    ⟨fun h => h ▸ rfl, fun h => UInt64.eq_of_toBitVec_eq (BitVec.eq_of_toNat_eq h)⟩
  rw [Nat.testBit_to_div_mod, Bool.eq_iff_iff]
  simp only [bne_iff_ne, ne_eq, h0, hz, decide_eq_true_eq]
  omega

theorem testBit_clear (md : UInt64) {idx : UInt16} (h : idx.toNat < 64) (i : Nat) :
    (md &&& ~~~((1 : UInt64) <<< idx.toUInt64)).toNat.testBit i =
      (md.toNat.testBit i && decide (i ≠ idx.toNat)) := by
  have h1 : (idx.toUInt64.toBitVec % 64#64).toNat = idx.toNat := by
    rw [BitVec.toNat_umod]; exact Nat.mod_eq_of_lt h
  show (md.toBitVec &&& ~~~(1#64 <<< (idx.toUInt64.toBitVec % 64#64))).toNat.testBit i =
    (md.toBitVec.toNat.testBit i && _)
  rw [BitVec.testBit_toNat, BitVec.testBit_toNat, BitVec.getLsbD_and, BitVec.getLsbD_not,
    BitVec.getLsbD_shiftLeft', h1, BitVec.getLsbD_one]
  by_cases hi : i < 64
  · by_cases e : i = idx.toNat
    · simp [hi, e]
    · simp [hi, e]; omega
  · simp [hi, BitVec.getLsbD_ge _ _ (by omega : 64 ≤ i)]

variable {L : List TlvMap}

theorem tlvScan_ovn {m : TlvMap} (h : L.find? isOvnOption = some m) (md : UInt64) :
    tlvScan L md = .inl m.index := by
  induction L generalizing md with
  | nil => cases h
  | cons map rest ih =>
    by_cases hm : isOvnOption map
    · rw [List.find?_cons_of_pos _ hm, Option.some.injEq] at h
      subst h
      simp [tlvScan, hm]
    · rw [List.find?_cons_of_neg _ hm] at h
      simp only [tlvScan, hm]
      exact ih h _

theorem tlvScan_free (h : L.find? isOvnOption = none) (md : UInt64) :
    ∃ md', tlvScan L md = .inr md' ∧ ∀ i < TUN_METADATA_NUM_OPTS,
      (md'.toNat.testBit i = true ↔ md.toNat.testBit i = true ∧ ∀ m ∈ L, m.index.toNat ≠ i) := by
  induction L generalizing md with
  | nil => exact ⟨md, rfl, fun i _ => by simp⟩
  | cons map rest ih =>
    have hm : isOvnOption map = false := by
      simpa using List.find?_eq_none.1 h map (List.mem_cons_self _ _)
    obtain ⟨md', h1, h2⟩ := ih (List.find?_eq_none.2 fun x hx =>
      List.find?_eq_none.1 h x (List.mem_cons_of_mem _ hx)) (if map.index.toNat < TUN_METADATA_NUM_OPTS
        then md &&& ~~~((1 : UInt64) <<< map.index.toUInt64) else md)
    refine ⟨md', by simp [tlvScan, hm, h1], fun i hi => ?_⟩
    rw [h2 i hi, List.forall_mem_cons]
    split_ifs with hlt
    · rw [testBit_clear md hlt]
      simp only [Bool.and_eq_true, decide_eq_true_eq, @ne_comm _ i, and_assoc]
    · simp only [TUN_METADATA_NUM_OPTS] at hi hlt
      exact ⟨fun ⟨a, b⟩ => ⟨a, by omega, b⟩, fun ⟨a, _, b⟩ => ⟨a, b⟩⟩

theorem testBit_md_free_init {i : Nat} (hi : i < TUN_METADATA_NUM_OPTS) :
    (0xFFFFFFFFFFFFFFFF : UInt64).toNat.testBit i = true := by
  rw [show (0xFFFFFFFFFFFFFFFF : UInt64).toNat = 2 ^ 64 - 1 from rfl, Nat.testBit_two_pow_sub_one]
  simpa using hi

theorem rightmost_1bit_idx_eq {x : UInt64} {k : Nat} (hk : k < 64) (hb : x.toNat.testBit k)
    (hlow : ∀ j < k, x.toNat.testBit j = false) : rightmost_1bit_idx x = k := by
  have : (List.range 64).find? (fun i => (x >>> i.toUInt64) &&& 1 != 0) = some k := by
    refine List.find?_range_eq_some.2 ⟨?_, List.mem_range.2 hk, fun j hj => ?_⟩
    · rw [shiftRight_and_one x hk, hb]
    · rw [shiftRight_and_one x (by omega), hlow j hj]; rfl
  simp [rightmost_1bit_idx, this]

theorem eq_zero_of_testBit (x : UInt64) (h : ∀ i < 64, x.toNat.testBit i = false) : x = 0 := by
  refine UInt64.eq_of_toBitVec_eq (BitVec.eq_of_toNat_eq (Nat.eq_of_testBit_eq fun i => ?_))
  by_cases hi : i < 64
  · simpa using h i hi
  · exact (Nat.testBit_lt_two_pow (lt_of_lt_of_le x.toBitVec.isLt
      (Nat.pow_le_pow_right (by decide) (by omega)))).trans (by simp)

end TlvReply

/-- `process_tlv_table_reply` on every mapping list. When OVN's option is mapped, its
first mapping decides: an index below 64 is taken and the machine moves to
`S_CLEAR_FLOWS`; any other index fails with nothing sent. Otherwise the least index below
64 that no mapping uses is requested: the field is set to it, a TLV table mod for exactly
that index and a barrier are sent, their xids kept, and the machine moves to
`S_TLV_TABLE_MOD_SENT`. When all 64 indices are used it fails with nothing sent. -/
theorem process_tlv_table_reply_spec (e : Ofctrl) (L : List TlvMap) :
    (∀ m, L.find? isOvnOption = some m →
      process_tlv_table_reply e L = if m.index.toNat < TUN_METADATA_NUM_OPTS
        then (true, { e with mff_ovn_geneve := some m.index.toNat, state := .S_CLEAR_FLOWS })
        else (false, e)) ∧
    (L.find? isOvnOption = none → ∀ k < TUN_METADATA_NUM_OPTS, (∀ m ∈ L, m.index.toNat ≠ k) →
      (∀ j < k, ∃ m ∈ L, m.index.toNat = j) →
      process_tlv_table_reply e L = (true, { e with
        mff_ovn_geneve := some k, next_xid := e.next_xid + 1 + 1,
        swconn := (e.swconn.send ⟨e.next_xid, .tlvTableMod k⟩).send
          ⟨e.next_xid + 1, .barrierRequest⟩,
        xid := e.next_xid, xid2 := e.next_xid + 1, state := .S_TLV_TABLE_MOD_SENT })) ∧
    (L.find? isOvnOption = none → (∀ k < TUN_METADATA_NUM_OPTS, ∃ m ∈ L, m.index.toNat = k) →
      process_tlv_table_reply e L = (false, e)) := by
  refine ⟨fun m hm => ?_, fun hn k hk hfree hused => ?_, fun hn hall => ?_⟩
  · simp only [process_tlv_table_reply, tlvScan_ovn hm]
    split_ifs <;> first | rfl | omega
  all_goals
    obtain ⟨md, hmd, hbits⟩ := tlvScan_free hn 0xFFFFFFFFFFFFFFFF
    simp only [process_tlv_table_reply, hmd]
  · have hb : md.toNat.testBit k = true := (hbits k hk).2 ⟨testBit_md_free_init hk, hfree⟩
    have hlow : ∀ j < k, md.toNat.testBit j = false := fun j hj => by
      obtain ⟨m, hm, e⟩ := hused j hj
      exact Bool.eq_false_iff.2 fun h => ((hbits j (by omega)).1 h).2 m hm e
    have hne : md ≠ 0 := by rintro rfl; simp at hb
    rw [if_neg hne, rightmost_1bit_idx_eq hk hb hlow]
    rfl
  · have : md = 0 := eq_zero_of_testBit md fun i hi => Bool.eq_false_iff.2 fun h => by
      obtain ⟨m, hm, e⟩ := hall i hi
      exact ((hbits i hi).1 h).2 m hm e
    rw [if_pos this]

/-- A reply that maps two other options at indices 0 and 2: index 1 is requested. -/
theorem tlv_reply_requests_index_1 :
    process_tlv_table_reply ofctrl_init [⟨1, 1, 1, 0⟩, ⟨1, 1, 1, 2⟩] =
      (true, { ofctrl_init with
        mff_ovn_geneve := some 1, next_xid := ofctrl_init.next_xid + 1 + 1,
        swconn := (ofctrl_init.swconn.send ⟨ofctrl_init.next_xid, .tlvTableMod 1⟩).send
          ⟨ofctrl_init.next_xid + 1, .barrierRequest⟩,
        xid := ofctrl_init.next_xid, xid2 := ofctrl_init.next_xid + 1,
        state := .S_TLV_TABLE_MOD_SENT }) :=
  (process_tlv_table_reply_spec ofctrl_init _).2.1 (by decide) 1 (by decide) (by decide)
    (by decide)

/-! ## No message reaches recv_S_NEW -/

/-- From every reachable state, whatever the connection does and whatever the switch
sends, `ofctrl_run` returns. `recvState` is `none` only in `S_NEW`, the `OVS_NOT_REACHED`
of `recv_S_NEW`: each turn of the loop runs the state function first, and it never leaves
the machine in `S_NEW`, also after a race sent it back there at the end of a turn, at the
50-turn cap or across calls. The other `none` of the loop, an assert of the clear in
`S_CLEAR_FLOWS`, does not fail either. -/
theorem ofctrl_run_never_dispatches_in_S_NEW {e : Ofctrl} (h : Reachable e) (established : Bool)
    (recvd : List (Option Received)) : ∃ e', ofctrl_run e established recvd = some e' :=
  let ⟨e', h', _⟩ := ofctrl_run_tablesOk (reachable_tablesOk h) established recvd
  ⟨e', h'⟩

/-- A first connection to a switch that maps no option: its empty TLV table reply makes
the machine ask for index 0 with a TLV table mod (xid 2) and a barrier (xid 3). -/
def modSent : List Event :=
  [.run true [none], .run false [some ⟨1, some (.tlvTableReply (some []))⟩]]

/-- After `modSent` the switch reports a race on the mod and then answers its barrier: the
race sends the machine back to `S_NEW`, and the barrier reply of the same call is handled
after `run_S_NEW`. -/
theorem race_retry_then_barrier_reply :
    ∃ e, Reachable e ∧ e.state = .S_TLV_TABLE_MOD_SENT ∧
      ∃ e', ofctrl_run e false [some ⟨2, some (.error .NXTTMFC_ALREADY_MAPPED)⟩,
        some ⟨3, some .barrierReply⟩] = some e' :=
  ⟨_, reachable_of_isSome modSent (by decide), by decide,
    ofctrl_run_never_dispatches_in_S_NEW (reachable_of_isSome modSent (by decide)) _ _⟩

/-! ## The error path of the TLV table mod -/

/-- From `S_TLV_TABLE_MOD_SENT`, on a connection that is up, an error reply to the TLV table
mod other than the two that report a race with another controller ends the run in
`S_UPDATE_FLOWS` with the field of the mod in use: the error path keeps the field that
`process_tlv_table_reply` set before sending the mod. -/
theorem tlv_mod_error_keeps_field {e e' : Ofctrl} (hs : e.state = .S_TLV_TABLE_MOD_SENT)
    (hc : e.swconn.connected) (hq : e.seqno = e.swconn.seqno) (hx : e.xid ≠ e.xid2)
    (ht : TablesOk e.tables) {err : OfpErr}
    (herr : err ≠ .NXTTMFC_ALREADY_MAPPED ∧ err ≠ .NXTTMFC_DUP_ENTRY)
    (hr : step e (.run false [some ⟨e.xid, some (.error err)⟩]) = some e') :
    e'.state = .S_UPDATE_FLOWS ∧ ofctrl_get_mf_field_id e' = e.mff_ovn_geneve := by
  let E : Ofctrl := { e with state := .S_CLEAR_FLOWS }
  have hrecv : recvMsg e ⟨e.xid, some (.error err)⟩ = some E := by
    simp [recvMsg, recvState, hs, recv_S_TLV_TABLE_MOD_SENT, Rconn.receive, hx, herr, E]
  obtain ⟨ft, hft, -⟩ := installed_clear_spec ht.links
  obtain ⟨e2, hc2⟩ : ∃ e2, run_S_CLEAR_FLOWS E = some e2 := ⟨_, by
    simp only [run_S_CLEAR_FLOWS, queue_msg, Option.bind_eq_bind]
    exact Option.bind_eq_some.2 ⟨ft, hft, rfl⟩⟩
  obtain ⟨-, hu, -, -, -, -, -, -, hm, hconn⟩ := run_S_CLEAR_FLOWS_spec hc2
  have hrun : step e (.run false [some ⟨e.xid, some (.error err)⟩]) = some e2 := by
    show ofctrl_run e false _ = _
    rw [ofctrl_run_synced hc hq, ofctrlRunLoop_recv (by simp [runState, hs]) hrecv 49,
      ofctrlRunLoop_clear_idle rfl hc2 47]
  rw [hrun, Option.some.injEq] at hr
  subst hr
  refine ⟨hu, ?_⟩
  simp [ofctrl_get_mf_field_id, hconn, Rconn.send, hc, hu, hm, E]

/-- After `modSent` the switch rejects the mod with an error that reports no race: the run
ends in `S_UPDATE_FLOWS` with `ofctrl_get_mf_field_id` returning `MFF_TUN_METADATA0 + 0`,
an index the switch never confirmed. -/
theorem tlv_mod_rejected_field_in_use :
    ∃ e e', Reachable e ∧ e.state = .S_TLV_TABLE_MOD_SENT ∧ e.xid = 2 ∧
      e.mff_ovn_geneve = some 0 ∧ step e (.run false [some ⟨e.xid, some (.error (.other 1))⟩]) = some e' ∧
      (e'.state = .S_UPDATE_FLOWS ∧ ofctrl_get_mf_field_id e' = e.mff_ovn_geneve) :=
  ⟨_, _, reachable_of_isSome modSent (by decide), by decide, by decide, by decide,
    (Option.some_get (by decide)).symm,
    tlv_mod_error_keeps_field (by decide) (by decide) (by decide) (by decide)
      (reachable_tablesOk (reachable_of_isSome modSent (by decide))) (by decide)
      (Option.some_get (by decide)).symm⟩

/-! ## The field is a tunnel metadata field -/

/-- The negotiated field, if any, is one of the `TUN_METADATA_NUM_OPTS` tunnel metadata
fields. -/
def MffOk (e : Ofctrl) : Prop := ∀ k, e.mff_ovn_geneve = some k → k < TUN_METADATA_NUM_OPTS

section MffOk

variable {e e' : Ofctrl}

theorem rightmost_1bit_idx_lt {x : UInt64} (hx : x ≠ 0) : rightmost_1bit_idx x < 64 := by
  unfold rightmost_1bit_idx
  cases hf : (List.range 64).find? (fun i => (x >>> i.toUInt64) &&& 1 != 0) with
  | some i => exact List.mem_range.1 (List.mem_of_find?_eq_some hf)
  | none =>
    refine absurd (eq_zero_of_testBit x fun i hi => ?_) hx
    have := List.find?_eq_none.1 hf i (List.mem_range.2 hi)
    rwa [shiftRight_and_one x hi, Bool.not_eq_true] at this

theorem MffOk.process (h : MffOk e) (L : List TlvMap) : MffOk (process_tlv_table_reply e L).2 := by
  unfold process_tlv_table_reply
  split
  · split_ifs with hi
    · exact h
    · rintro k ⟨⟩
      simpa using hi
  · split_ifs with h0
    · exact h
    · rintro k ⟨⟩
      exact rightmost_1bit_idx_lt h0

theorem MffOk.ofctrl_recv (h : MffOk e) (m : Received) : MffOk (ofctrl_recv e m) := by
  unfold OvnOfctrl.ofctrl_recv; split <;> exact h

theorem MffOk.tlvRequested (h : MffOk e) (m : Received) (t : OfpType) :
    MffOk (recv_S_TLV_TABLE_REQUESTED e m t) := by
  unfold recv_S_TLV_TABLE_REQUESTED tlvRequestFailed
  split
  · exact h.ofctrl_recv m
  split
  · rename_i maps
    have hp := h.process maps
    revert hp
    cases process_tlv_table_reply e maps
    intro hp
    dsimp only at hp ⊢
    split
    · exact hp
    · rintro k ⟨⟩
  · rintro k ⟨⟩

theorem MffOk.tlvModSent (h : MffOk e) (m : Received) (t : OfpType) :
    MffOk (recv_S_TLV_TABLE_MOD_SENT e m t) := by
  unfold recv_S_TLV_TABLE_MOD_SENT
  repeat' split
  all_goals first | exact h | exact h.ofctrl_recv m

theorem MffOk.recvMsg (h : MffOk e) {m : Received} (hr : recvMsg e m = some e') : MffOk e' := by
  unfold OvnOfctrl.recvMsg recvState at hr
  dsimp only at hr
  split at hr
  · cases hr; exact h
  rename_i t _
  have h1 : MffOk { e with swconn := e.swconn.receive m } := h
  split at hr <;> cases hr
  · exact h1.tlvRequested m t
  · exact h1.tlvModSent m t
  · exact h1.ofctrl_recv m
  · unfold recv_S_UPDATE_FLOWS
    split
    · dsimp only; split <;> exact h
    · exact h1.ofctrl_recv m

theorem MffOk.runState (h : MffOk e) (hr : runState e = some e') : MffOk e' := by
  rcases runState_cases hr with ⟨-, rfl⟩ | ⟨-, hc⟩ | ⟨-, -, rfl⟩
  · exact h
  · rw [MffOk, (run_S_CLEAR_FLOWS_spec hc).2.2.2.2.2.2.2.2.1]
    exact h
  · exact h

theorem step_mffOk (hr : Reachable e) (h : MffOk e) {ev : Event} (hs : step e ev = some e') :
    MffOk e' := by
  rcases step_cases hs with ⟨_, _, -, hs⟩ | ⟨p, meter_table, nb_cfg, flow_changed, -, hp⟩ |
    ⟨op, -, hd⟩ | ⟨g, m, z, x, c, rfl, -⟩
  · rcases ofctrl_run_cases hs with ⟨rfl, -⟩ | ⟨-, hl⟩
    · exact h
    obtain ⟨c, q, s, z, he, -⟩ := checkSeqno_rconnRun_eq e ‹_›
    rw [he] at hl
    exact ofctrlRunLoop_induct MffOk (fun _ _ h hr => h.runState hr)
      (fun _ _ _ h hr => h.recvMsg hr) 50 _ _ e' (by exact h) hl
  · rcases ofctrl_put_cases hp with ⟨-, rfl⟩ | ⟨-, -, rfl⟩ | ⟨-, -, hr'⟩
    · exact h
    · exact h
    have ht := reachable_tablesOk hr
    obtain ⟨ft, msgs1, msgs2, hr2, -⟩ := putReconcile_spec (e := { e with
      cur_cfg := (needPut e nb_cfg flow_changed).2, old_nb_cfg := nb_cfg })
      ht.desired ht.links p meter_table nb_cfg
    rw [hr', Option.some.injEq] at hr2
    subst hr2
    obtain ⟨fu, cc, z, c, x, he, -⟩ := putFinish_eq _ _ nb_cfg
    rw [he]
    exact h
  · obtain ⟨g, m, he⟩ := desiredOp_frame hd
    rw [he]
    exact h
  · exact h

/-- The field of OVN's Geneve option is a tunnel metadata field. From every reachable state,
whatever the switch answered during the negotiation, `ofctrl_get_mf_field_id` returns either
0 or `MFF_TUN_METADATA0 + k` with `k` below `TUN_METADATA_NUM_OPTS`. -/
theorem mf_field_id_in_range {e : Ofctrl} (h : Reachable e) {k : Nat}
    (hk : ofctrl_get_mf_field_id e = some k) : k < TUN_METADATA_NUM_OPTS := by
  have hm := reachable_induct (P := MffOk) (fun _ hk => by cases hk)
    (fun _ _ _ hr h hs => step_mffOk hr h hs) h
  unfold ofctrl_get_mf_field_id at hk
  split_ifs at hk
  exact hm k hk

/-- After `negotiated`, with OVN's option at index 0 on the switch, the field is
`MFF_TUN_METADATA0 + 0`. -/
theorem negotiated_field_in_range :
    ∃ e, Reachable e ∧ ofctrl_get_mf_field_id e = some 0 ∧ 0 < TUN_METADATA_NUM_OPTS :=
  ⟨_, reachable_of_isSome negotiated (by decide), by decide,
    mf_field_id_in_range (reachable_of_isSome negotiated (by decide)) (by decide)⟩

end MffOk

end OvnOfctrl
