-- The machine makes progress with a switch that answers. A new connection sends the TLV table
-- request; whatever the switch answers to it, the machine reaches S_UPDATE_FLOWS within the
-- next call of `ofctrl_run`, or within the one after when it has to ask for a free index and
-- the switch acknowledges the TLV table mod with its barrier reply. It arrives there with an
-- empty installed table and the flows to be reinstalled, so the next put sends them all: a
-- reconnect ends with the switch holding the desired table again.
import OvnOfctrl.Converged

namespace OvnOfctrl

/-- The end of the negotiation: the machine is in `S_UPDATE_FLOWS` with an empty installed
table and the flows to be reinstalled. -/
def ReadyToReinstall (e : Ofctrl) : Prop :=
  e.state = .S_UPDATE_FLOWS ∧ e.need_reinstall_flows = true ∧ ∀ i, e.tables.installed.flow_heap i = none

section Phases

variable {e : Ofctrl}

theorem ofctrlRunLoop_idle (h1 : e.state ≠ .S_NEW) (h2 : e.state ≠ .S_CLEAR_FLOWS) (n : Nat) :
    ofctrlRunLoop (n + 1) e [] = some e := by
  have hr : runState e = some e := by
    unfold runState; split <;> simp_all
  simp [ofctrlRunLoop, hr]

theorem clear_ready (hl : LinksOk e.tables) (hs : e.state = .S_CLEAR_FLOWS) (n : Nat) :
    ∃ e', ofctrlRunLoop (n + 2) e [] = some e' ∧ ReadyToReinstall e' ∧
      e'.swconn.connected = e.swconn.connected ∧
      e'.tables.desired.unlinked = e.tables.desired.unlinked := by
  obtain ⟨ft, hc, hl', hnil, hu⟩ := installed_clear_spec hl
  obtain ⟨e', he'⟩ : ∃ e', run_S_CLEAR_FLOWS e = some e' := by
    simp [run_S_CLEAR_FLOWS, queue_msg, hc]
  obtain ⟨ht, hup, -, hre, -, -, -, -, -, hconn⟩ := run_S_CLEAR_FLOWS_spec he'
  rw [hc, Option.some.injEq] at ht
  refine ⟨e', ofctrlRunLoop_clear_idle hs he' n, ⟨hup, hre, fun i => ?_⟩, by simp [hconn], ht ▸ hu⟩
  rw [← ht, ← Option.not_isSome_iff_eq_none, hl'.installed.live, hnil]
  exact List.not_mem_nil i

theorem ofctrlRunLoop_new (hs : e.state = .S_NEW) (n : Nat) :
    ofctrlRunLoop (n + 2) e [none] = some (run_S_NEW e) := by
  have h1 : (run_S_NEW e).state = .S_TLV_TABLE_REQUESTED := rfl
  simp [ofctrlRunLoop, runState, hs, h1]

theorem ofctrl_run_new_connection (h : SwitchInv e) :
    ∃ e1, ofctrl_run e true [none] = some e1 ∧ e1.state = .S_TLV_TABLE_REQUESTED ∧
      e1.swconn.log = [⟨e1.xid, .tlvTableRequest⟩] ∧ e1.swconn.connected = true ∧
      e1.tables = e.tables := by
  have hne : e.seqno ≠ e.swconn.seqno + 1 := by have := h.seqno_le; omega
  have hs : (checkSeqno (rconnRun e true)).state = .S_NEW := by
    simp [checkSeqno, rconnRun, Rconn.reconnect, hne]
  refine ⟨run_S_NEW (checkSeqno (rconnRun e true)), ?_, rfl, ?_, ?_, ?_⟩
  · rw [ofctrl_run, if_neg (by simp [rconnRun, Rconn.reconnect])]
    exact ofctrlRunLoop_new hs 48
  all_goals simp [run_S_NEW, queue_msg, checkSeqno, rconnRun, Rconn.send, Rconn.reconnect, hne]

theorem process_tlv_table_reply_cases (e : Ofctrl) (L : List TlvMap) :
    (process_tlv_table_reply e L).1 = false ∧ (process_tlv_table_reply e L).2 = e ∨
      (process_tlv_table_reply e L).1 = true ∧
        ((process_tlv_table_reply e L).2.state = .S_CLEAR_FLOWS ∨
          (process_tlv_table_reply e L).2.state = .S_TLV_TABLE_MOD_SENT) := by
  unfold process_tlv_table_reply
  split <;> split_ifs <;> simp

theorem recv_S_TLV_TABLE_REQUESTED_answer {m : Received} (hx : m.xid = e.xid) (t : OfpType) :
    (recv_S_TLV_TABLE_REQUESTED e m t).state = .S_CLEAR_FLOWS ∨
      (recv_S_TLV_TABLE_REQUESTED e m t).state = .S_TLV_TABLE_MOD_SENT := by
  unfold recv_S_TLV_TABLE_REQUESTED tlvRequestFailed
  rw [if_neg (not_not.2 hx)]
  split
  · rename_i L
    have hc := process_tlv_table_reply_cases e L
    generalize process_tlv_table_reply e L = p at hc ⊢
    obtain ⟨ok, e'⟩ := p
    cases ok <;> simp_all
  · simp

/-- The answer to the TLV table request, in the next call of `ofctrl_run` on the same
connection, ends the negotiation, or sends the TLV table mod and waits for its barrier. The
connection stays up and the desired flows stay as they were. -/
theorem answer_requested (h : Reachable e) (hs : e.state = .S_TLV_TABLE_REQUESTED)
    (hc : e.swconn.connected = true) (t : OfpType) :
    ∃ e2, ofctrl_run e false [some ⟨e.xid, some t⟩] = some e2 ∧ e2.swconn.connected = true ∧
      e2.tables.desired.unlinked = e.tables.desired.unlinked ∧
      (ReadyToReinstall e2 ∨ e2.state = .S_TLV_TABLE_MOD_SENT) := by
  have hr : runState e = some e := by simp [runState, hs]
  have hm : recvMsg e ⟨e.xid, some t⟩ = some (recv_S_TLV_TABLE_REQUESTED
      { e with swconn := e.swconn.receive ⟨e.xid, some t⟩ } ⟨e.xid, some t⟩ t) := by
    simp [recvMsg, recvState, hs]
  have fr := RecvFrame.of_recvMsg hm
  have hcr := fr.conn (·.connected = true) ⟨fun _ _ _ h => by simpa using h, fun _ _ h => by simpa using h⟩ hc
  rw [ofctrl_run_synced hc ((reachable_switchInv h).synced hc), ofctrlRunLoop_recv hr hm]
  rcases recv_S_TLV_TABLE_REQUESTED_answer (e := { e with swconn := e.swconn.receive ⟨e.xid, some t⟩ })
    (m := ⟨e.xid, some t⟩) rfl t with hcl | hmod
  · obtain ⟨e', h', hready, hc', hu'⟩ :=
      clear_ready (by rw [fr.tables]; exact (reachable_tablesOk h).links) hcl 47
    exact ⟨e', h', hc'.trans hcr, by rw [hu', fr.tables], .inl hready⟩
  · exact ⟨_, ofctrlRunLoop_idle (by simp [hmod]) (by simp [hmod]) 48, hcr, by rw [fr.tables], .inr hmod⟩

/-- The barrier reply to the TLV table mod, in the next call of `ofctrl_run` on the same
connection, ends the negotiation; the connection stays up and the desired flows stay as they
were. -/
theorem barrier_mod_sent (h : Reachable e) (hs : e.state = .S_TLV_TABLE_MOD_SENT)
    (hc : e.swconn.connected = true) :
    ∃ e3, ofctrl_run e false [some ⟨e.xid2, some .barrierReply⟩] = some e3 ∧ ReadyToReinstall e3 ∧
      e3.swconn.connected = true ∧ e3.tables.desired.unlinked = e.tables.desired.unlinked := by
  have hr : runState e = some e := by simp [runState, hs]
  have hm : recvMsg e ⟨e.xid2, some .barrierReply⟩ = some
      { e with swconn := e.swconn.receive ⟨e.xid2, some .barrierReply⟩, state := .S_CLEAR_FLOWS } := by
    simp [recvMsg, recvState, hs, recv_S_TLV_TABLE_MOD_SENT]
  rw [ofctrl_run_synced hc ((reachable_switchInv h).synced hc), ofctrlRunLoop_recv hr hm]
  have hcl : ({ e with
      swconn := e.swconn.receive ⟨e.xid2, some .barrierReply⟩, state := .S_CLEAR_FLOWS } : Ofctrl).state =
      .S_CLEAR_FLOWS := rfl
  obtain ⟨e3, h3, hready, hc3, hu3⟩ := clear_ready (by exact (reachable_tablesOk h).links) hcl 47
  exact ⟨e3, h3, hready, hc3.trans (by simp [hc]), hu3⟩

/-- Whatever the switch answers to the TLV table request, and with the barrier reply to the TLV
table mod when the machine sends one, one or two calls of `ofctrl_run` bring the machine to a
state ready to reinstall, on the same connection and with the same desired flows. -/
theorem answered_ready (h : Reachable e) (hs : e.state = .S_TLV_TABLE_REQUESTED)
    (hc : e.swconn.connected = true) (t : OfpType) :
    ∃ e2, (ofctrl_run e false [some ⟨e.xid, some t⟩] = some e2 ∨
        ∃ e', ofctrl_run e false [some ⟨e.xid, some t⟩] = some e' ∧
          ofctrl_run e' false [some ⟨e'.xid2, some .barrierReply⟩] = some e2) ∧
      Reachable e2 ∧ ReadyToReinstall e2 ∧ e2.swconn.connected = true ∧
      e2.tables.desired.unlinked = e.tables.desired.unlinked := by
  obtain ⟨e2, h2, hc2, hu2, hready | hmod⟩ := answer_requested h hs hc t
  · exact ⟨e2, .inl h2, .step (.run false _) h h2, hready, hc2, hu2⟩
  · have r2 : Reachable e2 := .step (.run false _) h h2
    obtain ⟨e3, h3, hready, hc3, hu3⟩ := barrier_mod_sent r2 hmod hc2
    exact ⟨e3, .inr ⟨e2, h2, h3⟩, .step (.run false _) r2 h3, hready, hc3, hu3.trans hu2⟩

end Phases

/-- The negotiation completes with a switch that answers. From any reachable state, a call of
`ofctrl_run` that makes a new connection queues the TLV table request alone on it. Whatever
the switch answers to that request, the next call reaches `S_UPDATE_FLOWS` with an empty
installed table and the flows to be reinstalled; or it sends the TLV table mod and waits in
`S_TLV_TABLE_MOD_SENT`, and then the barrier reply to the mod brings the call after to
`S_UPDATE_FLOWS` alike. -/
theorem negotiation_completes {e e1 : Ofctrl} (h : Reachable e)
    (h1 : ofctrl_run e true [none] = some e1) (t : OfpType) :
    e1.state = .S_TLV_TABLE_REQUESTED ∧ e1.swconn.log = [⟨e1.xid, .tlvTableRequest⟩] ∧
      ∃ e2, ofctrl_run e1 false [some ⟨e1.xid, some t⟩] = some e2 ∧
        (ReadyToReinstall e2 ∨ e2.state = .S_TLV_TABLE_MOD_SENT ∧
          ∃ e3, ofctrl_run e2 false [some ⟨e2.xid2, some .barrierReply⟩] = some e3 ∧
            ReadyToReinstall e3) := by
  obtain ⟨e1', h1', hs, hlog, hc, -⟩ := ofctrl_run_new_connection (reachable_switchInv h)
  rw [h1, Option.some.injEq] at h1'
  subst h1'
  have r1 : Reachable e1 := .step (.run true [none]) h h1
  obtain ⟨e2, h2, hc2, -, hready | hmod⟩ := answer_requested r1 hs hc t
  · exact ⟨hs, hlog, e2, h2, .inl hready⟩
  · obtain ⟨e3, h3, hready, -⟩ := barrier_mod_sent (.step (.run false _) r1 h2) hmod hc2
    exact ⟨hs, hlog, e2, h2, .inr ⟨hmod, e3, h3, hready⟩⟩

/-- On a first connection, a switch that answers the TLV table request with an empty table
has the machine ask for index 0 with a TLV table mod; its barrier reply then ends the
negotiation. -/
theorem first_connection_negotiates :
    ∃ e1, Reachable ofctrl_init ∧ ofctrl_run ofctrl_init true [none] = some e1 ∧
      e1.state = .S_TLV_TABLE_REQUESTED ∧ e1.swconn.log = [⟨e1.xid, .tlvTableRequest⟩] ∧
      ∃ e2, ofctrl_run e1 false [some ⟨e1.xid, some (.tlvTableReply (some []))⟩] = some e2 ∧
        (ReadyToReinstall e2 ∨ e2.state = .S_TLV_TABLE_MOD_SENT ∧
          ∃ e3, ofctrl_run e2 false [some ⟨e2.xid2, some .barrierReply⟩] = some e3 ∧
            ReadyToReinstall e3) :=
  ⟨_, .init, (Option.some_get (by decide)).symm,
    negotiation_completes .init (Option.some_get (by decide)).symm _⟩

/-! ## Recovery after a reconnect -/

section Recovery

variable {e : Ofctrl}

theorem ready_put_view (h : Reachable e) (hr : ReadyToReinstall e) (hc : e.swconn.connected = true)
    (ht : e.swconn.tx_packets = 0) (p : ModParse) (meter_table : List SbrecMeter) (nb_cfg : Int)
    (flow_changed : Bool) :
    ∃ e', ofctrl_put e p meter_table nb_cfg flow_changed = some e' ∧
      ∀ T, e'.swconn.flowLog.foldl applyFlowMod T = desiredView e.tables.desired := by
  have hn : (needPut e nb_cfg flow_changed).1 = true := by simp [needPut, hr.2.1]
  have hcp : ofctrl_can_put e = true := by simp [ofctrl_can_put, hr.1, hc, ht]
  have hok := reachable_tablesOk h
  obtain ⟨e', hs, -⟩ := ofctrl_put_tablesOk hok p meter_table nb_cfg flow_changed
  obtain ⟨-, -, hst, hu, hconv⟩ := ofctrl_put_converges hok hn hcp hs
  refine ⟨e', hs, fun T => ?_⟩
  rw [← desiredView_of_unlinked hu]
  exact hconv.switch_view (.step (.put p meter_table nb_cfg flow_changed) h hs) (hst.trans hr.1) T

end Recovery

/-- Recovery after a reconnect. From any reachable state, let `ofctrl_run` make a new connection
and the switch answer the negotiation: the TLV table request, and the barrier of the TLV table
mod when the machine asks for an index. Once the queue has drained, the first `ofctrl_put`
reconciles whatever its arguments, even with no flow change reported. A switch that applies the
flow_mods of the new connection in order, from whatever table it kept, then holds exactly the
desired table of the state before the reconnect, as `desired_flow_lookup` reads it. -/
theorem reconnect_restores_desired_view {e e1 : Ofctrl} (h : Reachable e)
    (h1 : ofctrl_run e true [none] = some e1) (t : OfpType) (p : ModParse)
    (meter_table : List SbrecMeter) (nb_cfg : Int) (flow_changed : Bool) :
    ∃ e2, (ofctrl_run e1 false [some ⟨e1.xid, some t⟩] = some e2 ∨
        ∃ e', ofctrl_run e1 false [some ⟨e1.xid, some t⟩] = some e' ∧
          ofctrl_run e' false [some ⟨e'.xid2, some .barrierReply⟩] = some e2) ∧
      ∃ e3, ofctrl_put { e2 with swconn := { e2.swconn with tx_packets := 0 } } p meter_table
          nb_cfg flow_changed = some e3 ∧
        ∀ T, e3.swconn.flowLog.foldl applyFlowMod T = desiredView e.tables.desired := by
  obtain ⟨e1', h1', hs, -, hc, ht⟩ := ofctrl_run_new_connection (reachable_switchInv h)
  rw [h1, Option.some.injEq] at h1'
  subst h1'
  obtain ⟨e2, hpath, r2, hready, hc2, hu2⟩ := answered_ready (.step (.run true [none]) h h1) hs hc t
  obtain ⟨e3, hp, hv⟩ := ready_put_view (e := { e2 with swconn := { e2.swconn with tx_packets := 0 } })
    (.step (.transmit e2.swconn.tx_packets) r2 (by simp [step])) hready hc2 rfl p meter_table nb_cfg
    flow_changed
  exact ⟨e2, hpath, e3, hp, fun T => (hv T).trans
    (desiredView_of_unlinked (hu2.trans (congrArg (·.desired.unlinked) ht)))⟩

/-- After the one flow of `onePut` is installed, a reconnect to a switch that still maps OVN's
option at index 0 ends, after one put with no flow change, with the switch holding that flow
again. -/
theorem onePut_reconnect_restores :
    ∃ e e1, Reachable e ∧ ofctrl_run e true [none] = some e1 ∧
      desiredView e.tables.desired ⟨0, 100, ipMatch⟩ = some ([1], 7) ∧
      ∃ e2, (ofctrl_run e1 false [some ⟨e1.xid, some (.tlvTableReply (some [ovnOptionAt0]))⟩] = some e2 ∨
          ∃ e', ofctrl_run e1 false [some ⟨e1.xid, some (.tlvTableReply (some [ovnOptionAt0]))⟩] =
            some e' ∧ ofctrl_run e' false [some ⟨e'.xid2, some .barrierReply⟩] = some e2) ∧
        ∃ e3, ofctrl_put { e2 with swconn := { e2.swconn with tx_packets := 0 } } acceptAll [] 1
            false = some e3 ∧
          ∀ T, e3.swconn.flowLog.foldl applyFlowMod T = desiredView e.tables.desired :=
  ⟨_, _, reachable_of_isSome onePut (by decide), (Option.some_get (by decide)).symm, by decide,
    reconnect_restores_desired_view (reachable_of_isSome onePut (by decide))
      (Option.some_get (by decide)).symm _ acceptAll [] 1 false⟩

end OvnOfctrl
