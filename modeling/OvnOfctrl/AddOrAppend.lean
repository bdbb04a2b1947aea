-- `ofctrl_add_or_append_flow` links its uuid to the flow of the key whatever links that flow
-- already has. Two appends of one key for one uuid leave the flow linked twice to that
-- uuid, and the flood removal of the uuid then stops on the assert of its first loop.
import OvnOfctrl.Step
import OvnOfctrl.DesiredLinks

namespace OvnOfctrl

/-- The uuids a desired flow is linked to, one for each of its links, in the order of its
references. -/
def linkUuids (t : OvnDesiredFlowTable) (g : DesiredFlow) : List Uuid :=
  g.references.filterMap fun r => (t.ref_heap r).map (·.sb_uuid)

/-- `ofctrl_add_or_append_flow` on a key the table holds links `sb_uuid` to the flow of
that key once more, even when that flow is already linked to `sb_uuid`. -/
theorem add_or_append_links_again {t : OvnDesiredFlowTable} (hw : WellLinked t)
    {table_id : UInt8} {priority : UInt16} {cookie : UInt64} {m : Minimatch}
    {actions : List UInt8} (sb_uuid : Uuid) {d : Nat} {g : DesiredFlow}
    (hl : desired_flow_lookup t (desired_flow_alloc table_id priority cookie m actions).flow none =
      some d) (hg : t.flow_heap d = some g) :
    ∃ g', (ofctrl_add_or_append_flow t table_id priority cookie m actions sb_uuid).flow_heap d =
        some g' ∧
      linkUuids (ofctrl_add_or_append_flow t table_id priority cookie m actions sb_uuid) g' =
        linkUuids t g ++ [sb_uuid] := by
  have hf := hw.1.flows
  unfold ofctrl_add_or_append_flow
  simp only [hl]
  refine ⟨{ g with
    flow := { g.flow with
      ofpacts := g.flow.ofpacts ++ (desired_flow_alloc table_id priority cookie m actions).flow.ofpacts }
    references := g.references ++ [t.next_id] }, by simp [OvnDesiredFlowTable.modifyFlow, hg], ?_⟩
  simp only [linkUuids, link_flow_to_sb_refs, OvnDesiredFlowTable.modifyFlow,
    OvnDesiredFlowTable.setFlow_next, List.filterMap_append]
  congr 1
  · refine List.filterMap_congr fun r hr => ?_
    have hne : r ≠ t.next_id := by
      rintro rfl
      exact hf.not_mem_refs (hf.fresh _ le_rfl).2 hg hr
    simp [Function.update_apply, hne]
  · simp

/-- Two appends of the key of `ipMatch` for uuid 1: the flow is linked twice to uuid 1, and
`ofctrl_flood_remove_flows` of uuid 1 aborts, on the assert that the flow's list node is
not yet in `to_be_removed`. -/
theorem add_or_append_twice_breaks_flood :
    ∃ e, Reachable e ∧
      (e.tables.desired.flow_heap 0).map (linkUuids e.tables.desired) = some [1, 1] ∧
      step e (.desired (.flood_remove_flows [1])) = none :=
  ⟨_, reachable_of_isSome [.desired (.add_or_append 0 100 7 ipMatch [1] 1),
    .desired (.add_or_append 0 100 7 ipMatch [2] 1)] (by decide), by decide,
    Option.isNone_iff_eq_none.1 (by decide)⟩

end OvnOfctrl
