-- `ofctrl_put` as a whole: the messages it queues, what its end leaves alone, and the
-- reconciliation, which never aborts from tables that keep their invariants and leaves the
-- installed table agreeing with the desired table.
import OvnOfctrl.PutLoops
import OvnOfctrl.Engine

namespace OvnOfctrl

variable {e : Ofctrl}

/-! ## Queueing messages -/

theorem queueMsgs_log (ms : List OfpMsg) (e : Ofctrl) :
    ((queueMsgs e ms).swconn.log.map (·.msg)) =
      e.swconn.log.map (·.msg) ++ if e.swconn.connected then ms else [] := by
  induction ms generalizing e with
  | nil => simp [queueMsgs]
  | cons m ms ih =>
    simp only [queueMsgs, List.foldl_cons] at ih ⊢
    rw [ih]
    by_cases hc : e.swconn.connected <;> simp [queue_msg, Rconn.send, hc]

theorem queueMsgs_eq (ms : List OfpMsg) (e : Ofctrl) :
    ∃ c x, queueMsgs e ms = { e with swconn := c, next_xid := x } ∧
      c.connected = e.swconn.connected ∧ c.seqno = e.swconn.seqno := by
  induction ms generalizing e with
  | nil => exact ⟨e.swconn, e.next_xid, rfl, rfl, rfl⟩
  | cons m ms ih =>
    obtain ⟨c, x, h, hc, hs⟩ := ih (queue_msg e m).1
    refine ⟨c, x, h, ?_, ?_⟩
    · rw [hc]; simp only [queue_msg, Rconn.send]; split <;> rfl
    · rw [hs]; simp only [queue_msg, Rconn.send]; split <;> rfl

/-! ## The end of ofctrl_put -/

theorem putFinish_eq (e : Ofctrl) (msgs : List OfpMsg) (nb_cfg : Int) :
    ∃ fu cc z c x, putFinish e msgs nb_cfg = { e with
      flow_updates := fu, cur_cfg := cc, pending_ct_zones := z, swconn := c, next_xid := x } ∧
      c.connected = e.swconn.connected ∧ c.seqno = e.swconn.seqno := by
  unfold putFinish
  split_ifs
  · split
    · exact ⟨_, _, _, _, _, rfl, rfl, rfl⟩
    · exact ⟨_, _, _, _, _, rfl, rfl, rfl⟩
  · obtain ⟨c, x, h, hc, hs⟩ := queueMsgs_eq msgs e
    simp only [h, queue_msg]
    refine ⟨_, _, _, _, _, rfl, ?_, ?_⟩
    · simp only [Rconn.send]; split <;> exact hc
    · simp only [Rconn.send]; split <;> exact hs

theorem putFinish_frame (e : Ofctrl) (msgs : List OfpMsg) (nb_cfg : Int) :
    (putFinish e msgs nb_cfg).tables = e.tables ∧ (putFinish e msgs nb_cfg).state = e.state ∧
      (putFinish e msgs nb_cfg).skipped_last_time = e.skipped_last_time ∧
      (putFinish e msgs nb_cfg).need_reinstall_flows = e.need_reinstall_flows ∧
      (putFinish e msgs nb_cfg).seqno = e.seqno ∧
      (putFinish e msgs nb_cfg).swconn.connected = e.swconn.connected ∧
      (putFinish e msgs nb_cfg).swconn.seqno = e.swconn.seqno := by
  obtain ⟨fu, cc, z, c, x, h, hc, hs⟩ := putFinish_eq e msgs nb_cfg
  rw [h]
  exact ⟨rfl, rfl, rfl, rfl, rfl, hc, hs⟩

theorem putFinish_flowLog (e : Ofctrl) (msgs : List OfpMsg) (nb_cfg : Int) :
    (putFinish e msgs nb_cfg).swconn.flowLog =
      e.swconn.flowLog ++ if e.swconn.connected then flowMods msgs else [] := by
  unfold putFinish
  by_cases hm : msgs = []
  · subst hm; rw [if_pos rfl]; split <;> simp [flowMods]
  · rw [if_neg hm]
    show ((queueMsgs e msgs).swconn.send ⟨(queueMsgs e msgs).next_xid, .barrierRequest⟩).flowLog = _
    rw [Rconn.flowLog_send, Rconn.flowMods_singleton (by simp), ite_self, List.append_nil]
    unfold Rconn.flowLog
    rw [queueMsgs_log]
    split <;> simp [flowMods, List.filterMap_append]

theorem putFinish_log (e : Ofctrl) (msgs : List OfpMsg) (nb_cfg : Int) :
    (putFinish e msgs nb_cfg).swconn.log.map (·.msg) = e.swconn.log.map (·.msg) ++
      if e.swconn.connected ∧ msgs ≠ [] then msgs ++ [.barrierRequest] else [] := by
  unfold putFinish
  by_cases hm : msgs = []
  · subst hm; rw [if_pos rfl]; split <;> simp
  · rw [if_neg hm]
    have hl := queueMsgs_log msgs e
    obtain ⟨c, x, hq, hc, -⟩ := queueMsgs_eq msgs e
    rw [hq] at hl ⊢
    dsimp only at hl ⊢
    by_cases hcon : e.swconn.connected <;> simp [queue_msg, Rconn.send, hc, hcon, hl, hm]

/-! ## The reconciliation -/

/-- The reconciliation never aborts from tables that keep their invariants. It changes
nothing of the desired table but its installed links, keeps the links, leaves the installed
table agreeing with the desired table, and the flow_mods it sends bring a switch that
mirrored the installed table to the new one. -/
theorem putReconcile_spec (hw : WellLinked e.tables.desired) (h : LinksOk e.tables)
    (p : ModParse) (meter_table : List SbrecMeter) (nb_cfg : Int) :
    ∃ ft msgs1 msgs2, putReconcile e p meter_table nb_cfg = some (putFinish
      { e with skipped_last_time := false, need_reinstall_flows := false, tables := ft,
               groups := (groupDeletes p e.groups).2, meters := (meterDeletes e.meters).2,
               pending_ct_zones := (flushCtZones e.pending_ct_zones).2 }
      ((flushCtZones e.pending_ct_zones).1 ++ groupAdds p e.groups ++
        e.meters.uninstalled.filterMap (meterAdd p meter_table) ++ msgs1 ++ msgs2 ++
        (groupDeletes p e.groups).1 ++ (meterDeletes e.meters).1) nb_cfg) ∧
      LinksOk ft ∧ ft.desired.unlinked = e.tables.desired.unlinked ∧ Agrees ft ∧
      ∀ T, Mirrors T e.tables.installed →
        Mirrors (applyMsgs (applyMsgs T msgs1) msgs2) ft.installed := by
  obtain ⟨ft1, msgs1, ft2, msgs2, h1, h2, hl, hu, ha, hm⟩ := putLoops_spec hw h
  exact ⟨ft2, msgs1, msgs2, by simp [putReconcile, h1, h2], hl, hu, ha, hm⟩

theorem ofctrl_put_cases {p : ModParse} {meter_table : List SbrecMeter} {nb_cfg : Int}
    {flow_changed : Bool} {e' : Ofctrl} (h : ofctrl_put e p meter_table nb_cfg flow_changed = some e') :
    ((needPut e nb_cfg flow_changed).1 = false ∧
      e' = { e with cur_cfg := (needPut e nb_cfg flow_changed).2, old_nb_cfg := nb_cfg }) ∨
    ((needPut e nb_cfg flow_changed).1 = true ∧ ofctrl_can_put e = false ∧
      e' = { e with cur_cfg := (needPut e nb_cfg flow_changed).2, old_nb_cfg := nb_cfg,
                    skipped_last_time := true }) ∨
    ((needPut e nb_cfg flow_changed).1 = true ∧ ofctrl_can_put e = true ∧
      putReconcile { e with cur_cfg := (needPut e nb_cfg flow_changed).2, old_nb_cfg := nb_cfg }
        p meter_table nb_cfg = some e') := by
  unfold ofctrl_put at h
  dsimp only at h
  split at h <;> rename_i hn
  · exact .inl ⟨by simpa using hn, (Option.some.inj h).symm⟩
  split at h <;> rename_i hc
  · exact .inr (.inl ⟨by simpa using hn, by simpa using hc, (Option.some.inj h).symm⟩)
  · exact .inr (.inr ⟨by simpa using hn, by simpa using hc, h⟩)

/-- The flow_mods of `ofctrl_put` are those of its two loops. -/
theorem flowMods_put (p : ModParse) (meter_table : List SbrecMeter) (msgs1 msgs2 : List OfpMsg) :
    flowMods ((flushCtZones e.pending_ct_zones).1 ++ groupAdds p e.groups ++
        e.meters.uninstalled.filterMap (meterAdd p meter_table) ++ msgs1 ++ msgs2 ++
        (groupDeletes p e.groups).1 ++ (meterDeletes e.meters).1) =
      flowMods (msgs1 ++ msgs2) := by
  have hc : flowMods (flushCtZones e.pending_ct_zones).1 = [] := by
    simp only [flowMods, flushCtZones, List.filterMap_eq_nil_iff]
    intro m hm
    obtain ⟨p, -, hp⟩ := List.mem_filterMap.1 hm
    split_ifs at hp
    cases hp; rfl
  have hg : flowMods (groupAdds p e.groups) = [] := by
    simp only [flowMods, groupAdds, List.filterMap_eq_nil_iff]
    intro m hm
    obtain ⟨g, -, hp⟩ := List.mem_filterMap.1 hm
    split_ifs at hp
    cases hp; rfl
  have hma : flowMods (e.meters.uninstalled.filterMap (meterAdd p meter_table)) = [] := by
    simp only [flowMods, List.filterMap_eq_nil_iff]
    intro m hm
    obtain ⟨g, -, hp⟩ := List.mem_filterMap.1 hm
    unfold meterAdd at hp
    split_ifs at hp <;> (cases hp; rfl)
  have hgd : flowMods (groupDeletes p e.groups).1 = [] := by
    simp only [flowMods, groupDeletes, List.filterMap_eq_nil_iff]
    intro m hm
    obtain ⟨g, -, hp⟩ := List.mem_filterMap.1 hm
    split_ifs at hp
    cases hp; rfl
  have hmd : flowMods (meterDeletes e.meters).1 = [] := by
    simp [flowMods, meterDeletes]
  simp only [flowMods, List.filterMap_append] at hc hg hma hgd hmd ⊢
  simp [hc, hg, hma, hgd, hmd]

end OvnOfctrl
