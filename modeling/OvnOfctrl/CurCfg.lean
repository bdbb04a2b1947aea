-- The configuration revision `cur_cfg`. A barrier reply only raises it, but the two
-- places of `ofctrl_put` that set it to `nb_cfg` do so whatever the flow updates in flight
-- and whatever the previous `nb_cfg`: two runs below show it announcing a revision the
-- switch has not confirmed, and going back. For a caller whose `nb_cfg` never goes back,
-- `cur_cfg` never goes back either.
import OvnOfctrl.Invariants

namespace OvnOfctrl

/-! ## The nb_cfg shortcut -/

/-- A put of revision 0 that sends a flow and its barrier (xid 6) after `cur_cfg` reached
revision 0. -/
def sameRevisionPut : List Event :=
  negotiated ++ [.put acceptAll [] 0 false, .desired (.check_and_add 0 100 7 ipMatch [1] 1 true),
    .put acceptAll [] 0 true]

/-- After `sameRevisionPut` the flow update of its last put, barrier 6 of revision 0, waits for
its reply. A put of revision 1 with no flow change then takes the shortcut: `cur_cfg` moves
from 0 to 1 while barrier 6, the only barrier after the flow of revision 0, is still
unanswered. -/
theorem cur_cfg_announced_before_barrier_reply :
    ∃ e, exec ofctrl_init sameRevisionPut = some e ∧ e.state = .S_UPDATE_FLOWS ∧
      e.cur_cfg = 0 ∧ e.old_nb_cfg = 0 ∧ e.flow_updates = [⟨6, 0⟩] ∧
      e.swconn.log.drop 4 = [⟨5, .flowMod (.add ⟨0, 100, ipMatch⟩ [1] 7)⟩, ⟨6, .barrierRequest⟩] ∧
      e.swconn.unanswered = [6] ∧
      (step e (.put acceptAll [] 1 false)).map
        (fun e' => (e'.cur_cfg, e'.swconn.log.length, e'.swconn.unanswered, e'.flow_updates)) =
        some (1, 6, [6], [⟨6, 0⟩]) :=
  ⟨_, (Option.some_get (by decide)).symm, by decide, by decide, by decide, by decide, by decide,
    by decide, by decide⟩

/-- With no flow update in flight, a put of a lower `nb_cfg` with no flow change takes
the shortcut back: `cur_cfg` goes from 5 to 3. -/
theorem cur_cfg_follows_nb_cfg_down :
    ∃ e, Reachable e ∧ ofctrl_get_cur_cfg e = 5 ∧
      (step e (.put acceptAll [] 3 false)).map ofctrl_get_cur_cfg = some 3 :=
  ⟨_, reachable_of_isSome [.put acceptAll [] 5 false] (by decide), by decide, by decide⟩

/-! ## A caller whose nb_cfg never goes back -/

/-- `cur_cfg` and the revisions of the flow updates never pass the last `nb_cfg` given to
`ofctrl_put`. -/
structure CfgInv (e : Ofctrl) : Prop where
  cur : e.cur_cfg ≤ e.old_nb_cfg
  updates : ∀ fu ∈ e.flow_updates, fu.nb_cfg ≤ e.old_nb_cfg

section Steps

variable {e e' : Ofctrl}

theorem CfgStep.cfgInv (h : CfgStep e e') (ho : e'.old_nb_cfg = e.old_nb_cfg) (hi : CfgInv e) :
    CfgInv e' := by
  refine ⟨?_, fun fu hm => ho ▸ hi.updates fu (h.retires hm)⟩
  rw [ho]
  rcases h.reached with hc | ⟨fu, hm, hc⟩
  · rw [hc]; exact hi.cur
  · rw [hc]; exact hi.updates fu hm

theorem ofctrl_run_cfg {established : Bool} {recvd : List (Option Received)}
    (hs : ofctrl_run e established recvd = some e') :
    CfgStep e e' ∧ e'.old_nb_cfg = e.old_nb_cfg := by
  rcases ofctrl_run_cases hs with ⟨rfl, -⟩ | ⟨-, hl⟩
  · exact ⟨.of_eq rfl rfl, rfl⟩
  obtain ⟨c, q, s, z, h0, -⟩ := checkSeqno_rconnRun_eq e established
  rw [h0] at hl
  exact ofctrlRunLoop_induct (fun e1 => CfgStep e e1 ∧ e1.old_nb_cfg = e.old_nb_cfg)
    (fun _ _ ⟨h, ho⟩ hr => ⟨h.trans (runState_cfg hr).1, (runState_cfg hr).2.trans ho⟩)
    (fun _ _ _ ⟨h, ho⟩ hr => ⟨h.trans (RecvFrame.of_recvMsg hr).cfg,
      (RecvFrame.of_recvMsg hr).old_nb_cfg.trans ho⟩) 50 _ recvd e'
    (by exact ⟨.of_eq rfl rfl, rfl⟩) hl

theorem needPut_cfg {nb_cfg : Int} (hi : e.cur_cfg ≤ e.old_nb_cfg) (hm : e.old_nb_cfg ≤ nb_cfg)
    (flow_changed : Bool) :
    e.cur_cfg ≤ (needPut e nb_cfg flow_changed).2 ∧ (needPut e nb_cfg flow_changed).2 ≤ nb_cfg := by
  unfold needPut
  split_ifs <;> dsimp only <;> omega

/-- The tracking gives each record the new revision or the revision of an old record. -/
theorem trackFlowUpdate_nb_cfg (F : List OfctrlFlowUpdate) (nb_cfg : Int) (xid : UInt32) :
    ∀ fu ∈ trackFlowUpdate F nb_cfg xid, fu.nb_cfg = nb_cfg ∨ ∃ f ∈ F, fu.nb_cfg = f.nb_cfg := by
  suffices h : ∀ l, ∀ fu ∈ trackRev nb_cfg xid l, fu.nb_cfg = nb_cfg ∨ ∃ f ∈ l, fu.nb_cfg = f.nb_cfg by
    intro fu hfu
    rcases h F.reverse fu (List.mem_reverse.1 hfu) with hn | ⟨f, hf, hn⟩
    · exact .inl hn
    · exact .inr ⟨f, List.mem_reverse.1 hf, hn⟩
  intro l
  induction l with
  | nil => simp [trackRev]
  | cons fup rest ih =>
    intro fu hfu
    unfold trackRev at hfu
    split_ifs at hfu
    · rcases ih fu hfu with hn | ⟨f, hf, hn⟩
      · exact .inl hn
      · exact .inr ⟨f, List.mem_cons_of_mem _ hf, hn⟩
    · rcases List.mem_cons.1 hfu with rfl | hm
      · exact .inr ⟨fup, List.mem_cons_self _ _, rfl⟩
      · exact .inr ⟨fu, List.mem_cons_of_mem _ hm, rfl⟩
    · rcases List.mem_cons.1 hfu with rfl | hm
      · exact .inl rfl
      · exact .inr ⟨fu, hm, rfl⟩

theorem putFinish_cfg {E : Ofctrl} (hi : CfgInv E) (msgs : List OfpMsg) {nb_cfg : Int}
    (hn : E.old_nb_cfg = nb_cfg) :
    CfgInv (putFinish E msgs nb_cfg) ∧ E.cur_cfg ≤ (putFinish E msgs nb_cfg).cur_cfg := by
  subst hn
  unfold putFinish
  split_ifs
  · split
    · refine ⟨⟨hi.cur, fun fu hm => ?_⟩, Int.le_refl _⟩
      rcases List.mem_append.1 hm with hm | hm
      · exact hi.updates fu (List.dropLast_subset _ hm)
      · rw [List.mem_singleton.1 hm]
    · exact ⟨⟨Int.le_refl _, hi.updates⟩, hi.cur⟩
  · obtain ⟨c, x, hq, -, -⟩ := queueMsgs_eq msgs E
    simp only [hq, queue_msg]
    refine ⟨⟨hi.cur, fun fu hm => ?_⟩, Int.le_refl _⟩
    rcases trackFlowUpdate_nb_cfg _ _ _ fu hm with hf | ⟨f, hf, hfu⟩
    · rw [hf]
    · rw [hfu]; exact hi.updates f hf

theorem ofctrl_put_cfg (hi : CfgInv e) (ht : TablesOk e.tables) {p : ModParse}
    {meter_table : List SbrecMeter} {nb_cfg : Int} {flow_changed : Bool}
    (hm : e.old_nb_cfg ≤ nb_cfg) (hs : ofctrl_put e p meter_table nb_cfg flow_changed = some e') :
    CfgInv e' ∧ e.cur_cfg ≤ e'.cur_cfg := by
  obtain ⟨h1, h2⟩ := needPut_cfg hi.cur hm flow_changed
  have hE : CfgInv { e with cur_cfg := (needPut e nb_cfg flow_changed).2, old_nb_cfg := nb_cfg } :=
    ⟨h2, fun fu hf => Int.le_trans (hi.updates fu hf) hm⟩
  rcases ofctrl_put_cases hs with ⟨-, rfl⟩ | ⟨-, -, rfl⟩ | ⟨-, -, hr⟩
  · exact ⟨hE, h1⟩
  · exact ⟨⟨hE.cur, hE.updates⟩, h1⟩
  obtain ⟨ft, msgs1, msgs2, hr', -⟩ := putReconcile_spec (e := { e with
    cur_cfg := (needPut e nb_cfg flow_changed).2, old_nb_cfg := nb_cfg })
    ht.desired ht.links p meter_table nb_cfg
  rw [hr, Option.some.injEq] at hr'
  subst hr'
  refine (putFinish_cfg ?_ _ rfl).imp id (Int.le_trans h1)
  exact ⟨hE.cur, hE.updates⟩

theorem step_cfg (hi : CfgInv e) (ht : TablesOk e.tables) {ev : Event}
    (hm : ∀ p meter_table nb_cfg flow_changed, ev = .put p meter_table nb_cfg flow_changed →
      e.old_nb_cfg ≤ nb_cfg) (hs : step e ev = some e') : CfgInv e' ∧ e.cur_cfg ≤ e'.cur_cfg := by
  rcases step_cases hs with ⟨_, _, -, hr⟩ | ⟨_, _, _, _, rfl, hp⟩ | ⟨op, -, hd⟩ |
    ⟨g, m, z, x, c, rfl, -⟩
  · obtain ⟨h, ho⟩ := ofctrl_run_cfg hr
    exact ⟨h.cfgInv ho hi, h.rises⟩
  · exact ofctrl_put_cfg hi ht (hm _ _ _ _ rfl) hp
  · obtain ⟨g, m, he⟩ := desiredOp_frame hd
    rw [he]
    exact ⟨⟨hi.cur, hi.updates⟩, Int.le_refl _⟩
  · exact ⟨⟨hi.cur, hi.updates⟩, Int.le_refl _⟩

end Steps

/-- The runs in which `ofctrl_put` is never given an `nb_cfg` below that of the previous
put (or below 0, the `old_nb_cfg` of `ofctrl_init`). -/
inductive CfgRun : Ofctrl → Prop
  | init : CfgRun ofctrl_init
  | step {e e' : Ofctrl} (ev : Event) : CfgRun e →
      (∀ p meter_table nb_cfg flow_changed, ev = .put p meter_table nb_cfg flow_changed →
        e.old_nb_cfg ≤ nb_cfg) →
      step e ev = some e' → CfgRun e'

theorem CfgRun.inv {e : Ofctrl} (h : CfgRun e) : CfgInv e ∧ TablesOk e.tables := by
  induction h with
  | init => exact ⟨⟨Int.le_refl _, fun _ h => by simp [ofctrl_init] at h⟩, tablesOk_init⟩
  | step ev _ hm hs ih => exact ⟨(step_cfg ih.1 ih.2 hm hs).1, step_tablesOk ih.2 hs⟩

/-- In a run where `ofctrl_put` is never given an `nb_cfg` below the previous one, no step
lowers `cur_cfg`, and `cur_cfg` never passes the last `nb_cfg`. -/
theorem cur_cfg_never_decreases {e e' : Ofctrl} (h : CfgRun e) {ev : Event}
    (hm : ∀ p meter_table nb_cfg flow_changed, ev = .put p meter_table nb_cfg flow_changed →
      e.old_nb_cfg ≤ nb_cfg) (hs : step e ev = some e') :
    e.cur_cfg ≤ e'.cur_cfg ∧ e'.cur_cfg ≤ e'.old_nb_cfg :=
  ⟨(step_cfg h.inv.1 h.inv.2 hm hs).2, (step_cfg h.inv.1 h.inv.2 hm hs).1.cur⟩

/-- A first put of revision 5 with no flow change: `cur_cfg` goes from 0 to 5. -/
theorem cur_cfg_never_decreases_first_put :
    ∃ e', step ofctrl_init (.put acceptAll [] 5 false) = some e' ∧
      (ofctrl_init.cur_cfg ≤ e'.cur_cfg ∧ e'.cur_cfg ≤ e'.old_nb_cfg) :=
  ⟨_, rfl, cur_cfg_never_decreases .init (fun _ _ _ _ h => by cases h; decide)
    (show step ofctrl_init (.put acceptAll [] 5 false) = some _ from rfl)⟩

end OvnOfctrl
