-- A switch may reorder. OpenFlow lets a switch apply the messages it gets between two barriers
-- in any order, and finish every message before a barrier ere it starts those after. The
-- flow_mods ofctrl.c sends fall into batches cut at its barriers. `ofctrl_put` closes its
-- messages with a barrier, and the flow_mods of one put name pairwise distinct flows, so any
-- order within their batch gives the same table. The one batch that is not so is the batch of
-- the delete-all of S_CLEAR_FLOWS: `run_S_CLEAR_FLOWS` sends no barrier, and the flow_mods of
-- the first put after it join that batch. A switch that applies that batch as sent, and each
-- other batch in any order, still ends holding exactly the installed table.
import Mathlib.Data.List.Forall2
import OvnOfctrl.Converged

namespace OvnOfctrl

/-! ## Batches -/

/-- One message of the cut of a connection's messages into batches: a barrier closes the batch
open, a flow_mod joins it. -/
def cutBatch (acc : List (List FlowMod) × List FlowMod) : OfpMsg → List (List FlowMod) × List FlowMod
  | .barrierRequest => (acc.1 ++ [acc.2], [])
  | .flowMod fm => (acc.1, acc.2 ++ [fm])
  | _ => acc

/-- The flow_mods of a list of messages between its barriers, in order: the batches that a
barrier closes, then the batch still open. -/
def flowBatches (msgs : List OfpMsg) : List (List FlowMod) :=
  (msgs.foldl cutBatch ([], [])).1 ++ [(msgs.foldl cutBatch ([], [])).2]

theorem foldl_cutBatch_flatten (msgs : List OfpMsg) (acc : List (List FlowMod) × List FlowMod) :
    (msgs.foldl cutBatch acc).1.flatten ++ (msgs.foldl cutBatch acc).2 =
      acc.1.flatten ++ acc.2 ++ flowMods msgs := by
  induction msgs generalizing acc with
  | nil => simp [flowMods]
  | cons m msgs ih =>
    rw [List.foldl_cons, ih]
    cases m <;> simp [cutBatch, flowMods]

theorem flowBatches_flatten (msgs : List OfpMsg) : (flowBatches msgs).flatten = flowMods msgs := by
  simpa [flowBatches] using foldl_cutBatch_flatten msgs ([], [])

theorem foldl_cutBatch_of_not_mem {msgs : List OfpMsg} (h : .barrierRequest ∉ msgs)
    (acc : List (List FlowMod) × List FlowMod) : msgs.foldl cutBatch acc = (acc.1, acc.2 ++ flowMods msgs) := by
  induction msgs generalizing acc with
  | nil => simp [flowMods]
  | cons m msgs ih =>
    rw [List.foldl_cons, ih (fun hm => h (List.mem_cons_of_mem _ hm))]
    cases m with
    | barrierRequest => exact absurd (List.mem_cons_self _ _) h
    | flowMod fm => simp [cutBatch, flowMods]
    | _ => simp [cutBatch, flowMods]

/-! ## What the switch may do -/

/-- A batch a switch may apply in any order: its flow_mods each name one flow, no two the same. -/
def Reorderable (b : List FlowMod) : Prop :=
  (b.map FlowMod.target).Nodup ∧ ∀ m ∈ b, m.target.isSome

/-- The orders in which a switch that honours barriers applies batches of flow_mods: one batch
after the other, each in an order of its own, but the batch of a delete-all as it was sent. -/
def Reorders (bs' bs : List (List FlowMod)) : Prop :=
  List.Forall₂ (fun b' b => b'.Perm b ∧ (.deleteAll ∈ b → b' = b)) bs' bs

instance (bs' bs : List (List FlowMod)) : Decidable (Reorders bs' bs) :=
  inferInstanceAs (Decidable (List.Forall₂ _ _ _))

theorem foldl_reorders {bs' bs : List (List FlowMod)} (hr : Reorders bs' bs)
    (hok : ∀ b ∈ bs, .deleteAll ∉ b → Reorderable b) (T : SwitchTable) :
    bs'.flatten.foldl applyFlowMod T = bs.flatten.foldl applyFlowMod T := by
  induction hr generalizing T with
  | nil => rfl
  | @cons b' b bs' bs hb _ ih =>
    rw [List.flatten_cons, List.flatten_cons, List.foldl_append, List.foldl_append,
      ih (fun c hc => hok c (List.mem_cons_of_mem _ hc))]
    by_cases hd : .deleteAll ∈ b
    · rw [hb.2 hd]
    · obtain ⟨hn, hs⟩ := hok b (List.mem_cons_self _ _) hd
      rw [foldl_applyFlowMod_perm hb.1 hn hs T]

/-! ## The cut along every run -/

/-- The cut of the messages sent so far: every closed batch without a delete-all may be
reordered, and the batch still open is empty or holds a delete-all. -/
structure CutOk (acc : List (List FlowMod) × List FlowMod) : Prop where
  closed : ∀ b ∈ acc.1, .deleteAll ∉ b → Reorderable b
  current : acc.2 = [] ∨ .deleteAll ∈ acc.2

theorem cutOk_nil : CutOk ([], []) := ⟨nofun, .inl rfl⟩

theorem CutOk.batches {acc : List (List FlowMod) × List FlowMod} (h : CutOk acc) :
    ∀ b ∈ acc.1 ++ [acc.2], .deleteAll ∉ b → Reorderable b := by
  intro b hb hd
  rcases List.mem_append.1 hb with hb | hb
  · exact h.closed b hb hd
  · rw [List.mem_singleton.1 hb] at hd ⊢
    rcases h.current with he | he
    · rw [he]; exact ⟨List.nodup_nil, nofun⟩
    · exact absurd he hd

theorem CutOk.cut {acc : List (List FlowMod) × List FlowMod} (h : CutOk acc) {m : OfpMsg}
    (hm : ∀ fm, m = .flowMod fm → fm = .deleteAll) : CutOk (cutBatch acc m) := by
  cases m with
  | barrierRequest => exact ⟨h.batches, .inl rfl⟩
  | flowMod fm =>
    obtain rfl := hm fm rfl
    exact ⟨h.closed, .inr (List.mem_append_right _ (List.mem_singleton_self _))⟩
  | _ => exact h

theorem CutOk.put {acc : List (List FlowMod) × List FlowMod} (h : CutOk acc) {msgs : List OfpMsg}
    (hb : .barrierRequest ∉ msgs) (hr : Reorderable (flowMods msgs)) :
    CutOk ((msgs ++ [OfpMsg.barrierRequest]).foldl cutBatch acc) := by
  rw [List.foldl_append, foldl_cutBatch_of_not_mem hb]
  refine ⟨fun b hb' hd => ?_, .inl rfl⟩
  rcases List.mem_append.1 hb' with hb' | hb'
  · exact h.closed b hb' hd
  · rw [List.mem_singleton.1 hb'] at hd ⊢
    rcases h.current with he | he
    · rw [he, List.nil_append]; exact hr
    · exact absurd (List.mem_append_left _ he) hd

/-- The cut of the messages queued on the connection is good. -/
def BatchInv (c : Rconn) : Prop := CutOk ((c.log.map (·.msg)).foldl cutBatch ([], []))

theorem batchInv_send {c : Rconn} (h : BatchInv c) {s : Sent}
    (hm : ∀ fm, s.msg = .flowMod fm → fm = .deleteAll) : BatchInv (c.send s) := by
  unfold Rconn.send
  split
  · simpa only [BatchInv, List.map_append, List.map_cons, List.map_nil, List.foldl_append,
      List.foldl_cons, List.foldl_nil] using CutOk.cut h hm
  · exact h

theorem recvStable_batchInv : Rconn.RecvStable BatchInv :=
  ⟨fun _ _ hs h => batchInv_send h fun fm he => absurd he (hs fm), fun c m h => by
    obtain ⟨u, o, e⟩ := c.receive_eq m
    rw [e]; exact h⟩

section Steps

variable {e e' : Ofctrl}

/-- `ofctrl_run` keeps the cut good: a new connection starts with nothing queued, and the
machine sends no flow_mod but the delete-all. -/
theorem batchInv_ofctrl_run (h : BatchInv e.swconn) {established : Bool}
    {recvd : List (Option Received)} (hs : ofctrl_run e established recvd = some e') :
    BatchInv e'.swconn := by
  rcases ofctrl_run_cases hs with ⟨rfl, -⟩ | ⟨-, hl⟩
  · exact h
  obtain ⟨c, q, s, z, h0, rfl⟩ := checkSeqno_rconnRun_eq e established
  rw [h0] at hl
  have h1 : BatchInv (rconnRun e established).swconn := by
    unfold rconnRun; split
    · exact cutOk_nil
    · exact h
  refine ofctrlRunLoop_induct (fun e => BatchInv e.swconn) (fun e1 e2 h1 hr => ?_)
    (fun e1 m e2 h1 hr => (RecvFrame.of_recvMsg hr).conn _ recvStable_batchInv h1) 50 _ recvd e'
    (by exact h1) hl
  rcases runState_cases hr with ⟨-, rfl⟩ | ⟨-, hc⟩ | ⟨-, -, rfl⟩
  · exact batchInv_send h1 (by simp)
  · rw [(run_S_CLEAR_FLOWS_spec hc).2.2.2.2.2.2.2.2.2]
    exact batchInv_send (batchInv_send (batchInv_send h1 fun _ he => (OfpMsg.flowMod.inj he).symm)
      (by simp)) (by simp)
  · exact h1

theorem batchInv_ofctrl_put (ht : TablesOk e.tables) (h : BatchInv e.swconn) {p : ModParse}
    {meter_table : List SbrecMeter} {nb_cfg : Int} {flow_changed : Bool}
    (hs : ofctrl_put e p meter_table nb_cfg flow_changed = some e') : BatchInv e'.swconn := by
  rcases ofctrl_put_cases hs with ⟨-, rfl⟩ | ⟨-, -, rfl⟩ | ⟨hn, hc, -⟩
  · exact h
  · exact h
  obtain ⟨⟨msgs, hl, hb, hf⟩, -⟩ := ofctrl_put_converges ht hn hc hs
  unfold BatchInv
  rw [hl, List.foldl_append]
  split
  · exact h
  · exact CutOk.put h hb (hf ▸ owedMods_targets ht)

theorem batchInv_env {c c' : Rconn} (h : BatchInv c) (hc : EnvConn c c') : BatchInv c' := by
  cases hc with
  | packetOut x => exact batchInv_send h (by simp)
  | _ => exact h

theorem step_batchInv (ht : TablesOk e.tables) (h : BatchInv e.swconn) {ev : Event}
    (hs : step e ev = some e') : BatchInv e'.swconn := by
  rcases step_cases hs with ⟨_, _, -, hr⟩ | ⟨_, _, _, _, -, hp⟩ | ⟨op, -, hd⟩ |
    ⟨g, m, z, x, c, rfl, hc⟩
  · exact batchInv_ofctrl_run h hr
  · exact batchInv_ofctrl_put ht h hp
  · obtain ⟨g, m, he⟩ := desiredOp_frame hd
    rw [he]; exact h
  · exact batchInv_env h hc

end Steps

theorem reachable_batchInv {e : Ofctrl} (h : Reachable e) : BatchInv e.swconn :=
  reachable_induct cutOk_nil (fun _ _ _ hr hi hs => step_batchInv (reachable_tablesOk hr) hi hs) h

/-- A switch may reorder. From any reachable state in `S_UPDATE_FLOWS`, let a switch apply the
flow_mods of the connection batch after batch, as the barriers ask, each batch in an order of
its own, but the batch of the delete-all of `S_CLEAR_FLOWS` as it was sent. From any table it
started with, it then holds exactly the installed flows, each with its actions and cookie. -/
theorem reordering_switch_mirrors_installed {e : Ofctrl} (h : Reachable e)
    (hu : e.state = .S_UPDATE_FLOWS) {bs : List (List FlowMod)}
    (hr : Reorders bs (flowBatches (e.swconn.log.map (·.msg)))) (T : SwitchTable) :
    Mirrors (bs.flatten.foldl applyFlowMod T) e.tables.installed := by
  rw [foldl_reorders hr (CutOk.batches (reachable_batchInv h)), flowBatches_flatten]
  exact (reachable_switchInv h).mirror hu T

/-- `onePut`, then two more flows and a second put once the queue has drained. -/
def twoPuts : List Event :=
  onePut ++ [.transmit 2, .desired (.check_and_add 0 90 8 ipMatch [2] 2 true),
    .desired (.check_and_add 0 80 9 ipMatch [3] 3 true), .put acceptAll [] 2 true]

/-- After `twoPuts` the adds of the second put form a batch of their own, which a switch may
apply in the other order. The add of the first put shares the batch of the delete-all: applied
before the delete-all, that flow would be lost. -/
theorem twoPuts_reordered :
    ∃ e, Reachable e ∧ e.state = .S_UPDATE_FLOWS ∧
      flowBatches (e.swconn.log.map (·.msg)) = [[.deleteAll, .add ⟨0, 100, ipMatch⟩ [1] 7],
        [.add ⟨0, 80, ipMatch⟩ [3] 9, .add ⟨0, 90, ipMatch⟩ [2] 8], []] ∧
      (∀ T, (([[.add ⟨0, 100, ipMatch⟩ [1] 7, .deleteAll],
        [.add ⟨0, 80, ipMatch⟩ [3] 9, .add ⟨0, 90, ipMatch⟩ [2] 8], []] : List (List FlowMod)).flatten.foldl
          applyFlowMod T) ⟨0, 100, ipMatch⟩ = none) ∧
      Reorders [[.deleteAll, .add ⟨0, 100, ipMatch⟩ [1] 7],
        [.add ⟨0, 90, ipMatch⟩ [2] 8, .add ⟨0, 80, ipMatch⟩ [3] 9], []]
        (flowBatches (e.swconn.log.map (·.msg))) ∧
      ∀ T, Mirrors (([[.deleteAll, .add ⟨0, 100, ipMatch⟩ [1] 7],
        [.add ⟨0, 90, ipMatch⟩ [2] 8, .add ⟨0, 80, ipMatch⟩ [3] 9], []] : List (List FlowMod)).flatten.foldl
          applyFlowMod T) e.tables.installed := by
  have hb : Reorders [[.deleteAll, .add ⟨0, 100, ipMatch⟩ [1] 7],
      [.add ⟨0, 90, ipMatch⟩ [2] 8, .add ⟨0, 80, ipMatch⟩ [3] 9], []]
      [[.deleteAll, .add ⟨0, 100, ipMatch⟩ [1] 7],
        [.add ⟨0, 80, ipMatch⟩ [3] 9, .add ⟨0, 90, ipMatch⟩ [2] 8], []] := by decide
  exact ⟨_, reachable_of_isSome twoPuts (by decide), rfl, rfl, fun _ => rfl, hb,
    reordering_switch_mirrors_installed (reachable_of_isSome twoPuts (by decide)) rfl hb⟩

end OvnOfctrl
