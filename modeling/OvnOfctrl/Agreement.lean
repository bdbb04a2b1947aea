-- The installed table after `ofctrl_put`. For a caller that passes `flow_changed` whenever it
-- changed the desired table since its previous put, every put ends with the installed table
-- agreeing with the desired table, or with `skipped_last_time` set so that the next put
-- reconciles: neither the need_put shortcut, nor a refused put, nor a reconnect and its
-- S_CLEAR_FLOWS reset leave a stale installed table with no retry pending.
import OvnOfctrl.Invariants

namespace OvnOfctrl

/-! ## Runs of a caller that reports its changes -/

/-- The runs of a caller that passes `flow_changed = true` to `ofctrl_put` whenever it has
changed the desired table since its previous put; `dirty` says whether it has. A desired
operation that leaves the desired table as it was need not count as a change. -/
inductive HonestRun : Ofctrl → Bool → Prop
  | init : HonestRun ofctrl_init false
  | put {e e' : Ofctrl} {dirty : Bool} (p : ModParse) (meter_table : List SbrecMeter)
      (nb_cfg : Int) (flow_changed : Bool) : HonestRun e dirty →
      (dirty = true → flow_changed = true) →
      step e (.put p meter_table nb_cfg flow_changed) = some e' → HonestRun e' false
  | unchanged {e e' : Ofctrl} {dirty : Bool} (op : DesiredOp) : HonestRun e dirty →
      step e (.desired op) = some e' → e'.tables.desired = e.tables.desired → HonestRun e' dirty
  | changed {e e' : Ofctrl} {dirty : Bool} (op : DesiredOp) : HonestRun e dirty →
      step e (.desired op) = some e' → HonestRun e' true
  | other {e e' : Ofctrl} {dirty : Bool} (ev : Event) : HonestRun e dirty →
      (∀ p meter_table nb_cfg flow_changed, ev ≠ .put p meter_table nb_cfg flow_changed) →
      (∀ op, ev ≠ .desired op) → step e ev = some e' → HonestRun e' dirty

theorem HonestRun.reachable {e : Ofctrl} {dirty : Bool} (h : HonestRun e dirty) : Reachable e := by
  induction h with
  | init => exact .init
  | put _ _ _ _ _ _ hs ih => exact .step _ ih hs
  | unchanged _ _ hs _ ih => exact .step _ ih hs
  | changed _ _ hs ih => exact .step _ ih hs
  | other _ _ _ _ hs ih => exact .step _ ih hs

/-! ## The invariant -/

/-- Between two steps of an honest run the installed table agrees with the desired table,
unless a put is owed: the desired table changed, a put was skipped, or the flows are to be
reinstalled. -/
def AgreeInv (e : Ofctrl) (dirty : Bool) : Prop :=
  dirty = false → e.skipped_last_time = false → e.need_reinstall_flows = false → Agrees e.tables

section Steps

variable {e e' : Ofctrl}

theorem needPut_false {nb_cfg : Int} {flow_changed : Bool} (h : (needPut e nb_cfg flow_changed).1 = false) :
    flow_changed = false ∧ e.skipped_last_time = false ∧ e.need_reinstall_flows = false := by
  unfold needPut at h
  split_ifs at h with h1 <;> simp_all

/-- `ofctrl_run` keeps the tables and the flags of `ofctrl_put`, but that `S_CLEAR_FLOWS`
clears the installed table and sets `need_reinstall_flows`. -/
theorem ofctrl_run_reinstall {established : Bool} {recvd : List (Option Received)}
    (hs : ofctrl_run e established recvd = some e') :
    e'.skipped_last_time = e.skipped_last_time ∧
      (e'.need_reinstall_flows = false → e'.tables = e.tables ∧ e.need_reinstall_flows = false) := by
  let P := fun e1 : Ofctrl => e1.skipped_last_time = e.skipped_last_time ∧
    (e1.need_reinstall_flows = false → e1.tables = e.tables ∧ e.need_reinstall_flows = false)
  rcases ofctrl_run_cases hs with ⟨rfl, -⟩ | ⟨-, hl⟩
  · exact ⟨rfl, fun h => ⟨rfl, h⟩⟩
  obtain ⟨c, q, s, z, h0, -⟩ := checkSeqno_rconnRun_eq e established
  rw [h0] at hl
  refine ofctrlRunLoop_induct P (fun e1 e2 ⟨hk, hr⟩ h => ?_)
    (fun e1 m e2 ⟨hk, hr⟩ h => ?_) 50 _ recvd e' (by exact ⟨rfl, fun h => ⟨rfl, h⟩⟩) hl
  · rcases runState_cases h with ⟨-, rfl⟩ | ⟨-, hc⟩ | ⟨-, -, rfl⟩
    · exact ⟨hk, hr⟩
    · obtain ⟨-, -, -, hre, hsk, -⟩ := run_S_CLEAR_FLOWS_spec hc
      exact ⟨hsk.trans hk, fun h => absurd (hre.symm.trans h) Bool.noConfusion⟩
    · exact ⟨hk, hr⟩
  · have fr := RecvFrame.of_recvMsg h
    exact ⟨fr.skipped.trans hk, fun h => by rw [fr.tables]; exact hr (fr.reinstall ▸ h)⟩

/-- A put of an honest caller ends with a retry pending or with agreeing tables, and keeps
the invariant. -/
theorem agreeInv_put {dirty : Bool} (ht : TablesOk e.tables) (hi : AgreeInv e dirty)
    {p : ModParse} {meter_table : List SbrecMeter} {nb_cfg : Int} {flow_changed : Bool}
    (hf : dirty = true → flow_changed = true)
    (hs : ofctrl_put e p meter_table nb_cfg flow_changed = some e') :
    (e'.skipped_last_time = true ∨ Agrees e'.tables) ∧ AgreeInv e' false := by
  suffices h : e'.skipped_last_time = true ∨ Agrees e'.tables from
    ⟨h, fun _ hsk _ => h.resolve_left (by simp [hsk])⟩
  rcases ofctrl_put_cases hs with ⟨hn, rfl⟩ | ⟨-, -, rfl⟩ | ⟨-, -, hr⟩
  · obtain ⟨hfc, hsk, hre⟩ := needPut_false hn
    have hd : dirty = false := by cases dirty <;> simp_all
    exact .inr (hi hd hsk hre)
  · exact .inl rfl
  · obtain ⟨ft, msgs1, msgs2, hr', -, -, ha, -⟩ := putReconcile_spec (e := { e with
      cur_cfg := (needPut e nb_cfg flow_changed).2, old_nb_cfg := nb_cfg })
      ht.desired ht.links p meter_table nb_cfg
    rw [hr, Option.some.injEq] at hr'
    subst hr'
    rw [(putFinish_frame _ _ _).1]
    exact .inr ha

theorem desiredOp_unchanged (ht : TablesOk e.tables) {op : DesiredOp}
    (hs : desiredOp e op = some e') (hd : e'.tables.desired = e.tables.desired) :
    e'.tables = e.tables ∧ e'.skipped_last_time = e.skipped_last_time ∧
      e'.need_reinstall_flows = e.need_reinstall_flows := by
  obtain ⟨g, m, he⟩ := desiredOp_frame hs
  refine ⟨?_, by rw [he], by rw [he]⟩
  rcases desiredOp_stable ht (floodStable_shrinks e.tables) ⟨fun _ h => h, .inl rfl⟩ hs with
    hi | hk
  · exact FlowTables.ext hd hi
  · exact hk.eq_of_desired hd

theorem agreeInv_other {dirty : Bool} (hi : AgreeInv e dirty) {ev : Event}
    (hp : ∀ p meter_table nb_cfg flow_changed, ev ≠ .put p meter_table nb_cfg flow_changed)
    (hd : ∀ op, ev ≠ .desired op) (hs : step e ev = some e') : AgreeInv e' dirty := by
  rcases step_cases hs with ⟨_, _, -, hr⟩ | ⟨p, meter_table, nb_cfg, flow_changed, rfl, -⟩ |
    ⟨op, rfl, -⟩ | ⟨g, m, z, x, c, rfl, -⟩
  · obtain ⟨hk, hr⟩ := ofctrl_run_reinstall hr
    intro hd hsk hre
    obtain ⟨ht, hre0⟩ := hr hre
    rw [ht]
    exact hi hd (hk ▸ hsk) hre0
  · exact absurd rfl (hp p meter_table nb_cfg flow_changed)
  · exact absurd rfl (hd op)
  · exact hi

end Steps

theorem agrees_init : Agrees ofctrl_init.tables := ⟨nofun, nofun⟩

theorem honestRun_inv {e : Ofctrl} {dirty : Bool} (h : HonestRun e dirty) :
    TablesOk e.tables ∧ AgreeInv e dirty := by
  induction h with
  | init => exact ⟨tablesOk_init, fun _ _ _ => agrees_init⟩
  | put p meter_table nb_cfg flow_changed _ hf hs ih =>
    exact ⟨step_tablesOk ih.1 hs, (agreeInv_put ih.1 ih.2 hf hs).2⟩
  | unchanged op _ hs hd ih =>
    obtain ⟨ht, hsk, hre⟩ := desiredOp_unchanged ih.1 hs hd
    refine ⟨step_tablesOk ih.1 hs, fun h1 h2 h3 => ?_⟩
    rw [ht]
    exact ih.2 h1 (hsk ▸ h2) (hre ▸ h3)
  | changed op _ hs ih => exact ⟨step_tablesOk ih.1 hs, nofun⟩
  | other ev _ hp hd hs ih => exact ⟨step_tablesOk ih.1 hs, agreeInv_other ih.2 hp hd hs⟩

/-- In a run where the caller passes `flow_changed = true` to `ofctrl_put` whenever it has
changed the desired table since its previous put, every `ofctrl_put` ends with
`skipped_last_time` set or with the installed table agreeing with the desired table: the
same keys, each installed flow carrying the actions and cookie of its primary desired
flow. -/
theorem put_skipped_or_agrees {e e' : Ofctrl} {dirty : Bool} (h : HonestRun e dirty)
    {p : ModParse} {meter_table : List SbrecMeter} {nb_cfg : Int} {flow_changed : Bool}
    (hf : dirty = true → flow_changed = true)
    (hs : step e (.put p meter_table nb_cfg flow_changed) = some e') :
    e'.skipped_last_time = true ∨ Agrees e'.tables :=
  (agreeInv_put (honestRun_inv h).1 (honestRun_inv h).2 hf hs).1

theorem exec_append_step (e : Ofctrl) (L : List Event) (ev : Event) :
    exec e (L ++ [ev]) = (exec e L).bind (step · ev) := by
  induction L generalizing e with
  | nil => simp [exec]
  | cons a L ih => simp only [List.cons_append, exec, List.append_eq, ih, Option.bind_assoc]

theorem step_of_exec_append {e x y : Ofctrl} {L : List Event} {ev : Event}
    (h1 : exec e L = some x) (h2 : exec e (L ++ [ev]) = some y) : step x ev = some y := by
  rwa [exec_append_step, h1, Option.some_bind] at h2

theorem honestRun_onePut_added :
    HonestRun ((exec ofctrl_init onePut.dropLast).get (by decide)) true := by
  have hs := fun (L : List Event) (ev : Event) (p : (exec ofctrl_init L).isSome)
      (q : (exec ofctrl_init (L ++ [ev])).isSome) =>
    step_of_exec_append (Option.eq_some_of_isSome p) (Option.eq_some_of_isSome q)
  have r1 := HonestRun.other (.run true [none]) .init (by simp) (by simp) (hs [] _ rfl (by decide))
  have r2 := HonestRun.other (.run false [some ⟨1, some (.tlvTableReply (some [ovnOptionAt0]))⟩]) r1
    (by simp) (by simp) (hs [.run true [none]] _ (by decide) (by decide))
  have r3 := HonestRun.other (.transmit 4) r2 (by simp) (by simp)
    (hs (negotiated.take 2) _ (by decide) (by decide))
  exact HonestRun.changed (.check_and_add 0 100 7 ipMatch [1] 1 true) r3
    (hs negotiated _ (by decide) (by decide))

theorem onePut_last_step :
    step ((exec ofctrl_init onePut.dropLast).get (by decide)) (.put acceptAll [] 1 true) =
      some ((exec ofctrl_init onePut).get (by decide)) :=
  step_of_exec_append (Option.some_get _).symm (Option.some_get _).symm

/-- The put of `onePut`, after the add of its flow: an honest put that reconciles, so it is not
skipped and the installed table agrees with the desired one. -/
theorem put_skipped_or_agrees_onePut :
    ∃ e e', HonestRun e true ∧ step e (.put acceptAll [] 1 true) = some e' ∧
      e'.skipped_last_time = false ∧ (e'.skipped_last_time = true ∨ Agrees e'.tables) :=
  ⟨_, _, honestRun_onePut_added, onePut_last_step, by decide,
    put_skipped_or_agrees honestRun_onePut_added (fun _ => rfl) onePut_last_step⟩

/-! ## A flow_mod the switch rejects -/

/-- After `onePut` the switch answers the flow's ADD (xid 5) with an `OFPT_ERROR`, and the
queue drains. -/
def rejectedAdd : List Event :=
  onePut ++ [.run false [some ⟨5, some (.error (.other 1))⟩], .transmit 2]

/-- `ofctrl_recv` only logs an error reply. After `onePut` the switch answers the flow's ADD
(xid 5) with an `OFPT_ERROR`; the installed table goes on recording the flow, and once the
queue drains the next put, which reconciles, finds it installed and sends nothing (the log
keeps its 6 messages) for its key, which is still desired. -/
theorem rejected_flow_mod_not_resent :
    ∃ e0 e1 e, exec ofctrl_init onePut = some e0 ∧
      (⟨5, .flowMod (.add ⟨0, 100, ipMatch⟩ [1] 7)⟩ : Sent) ∈ e0.swconn.log ∧
      step e0 (.run false [some ⟨5, some (.error (.other 1))⟩]) = some e1 ∧
      e1.tables.installed.installed_flows = [0] ∧
      (e1.tables.installed.flow_heap 0).map (·.flow.key) = some ⟨0, 100, ipMatch⟩ ∧
      step e1 (.transmit 2) = some e ∧ e.swconn.log.length = 6 ∧
      e.tables.desired.match_flow_table = [0] ∧ ofctrl_can_put e = true ∧
      (step e (.put acceptAll [] 2 true)).map (fun e' => (e'.swconn.log.length,
        e'.tables.installed.installed_flows, (e'.tables.installed.flow_heap 0).map (·.flow.key))) =
        some (6, [0], some ⟨0, 100, ipMatch⟩) :=
  ⟨_, _, _, (Option.some_get (by decide)).symm, by decide,
    step_of_exec_append (L := onePut) (Option.some_get (by decide)).symm
      (Option.some_get (by decide)).symm, by decide, by decide,
    step_of_exec_append (L := onePut ++ [.run false [some ⟨5, some (.error (.other 1))⟩]])
      (Option.some_get (by decide)).symm
      (Option.some_get (by decide : (exec ofctrl_init rejectedAdd).isSome)).symm,
    by decide, by decide, by decide, by decide⟩

end OvnOfctrl