import LumaOS.TypedDag.Executor
import Mathlib.Data.String.Basic

/-!
# The order of a graph

`topological_order` lists every node once, after its dependencies (`topologicalOrder_spec`). Neither
the order nor the fingerprint depends on the order in which the nodes are listed: both sort what they
take from that list (`topologicalOrder_perm`, `fingerprint_perm`).
-/

namespace LumaOS.TypedDag

open LumaOS.Base LumaOS.Text LumaOS.Json

variable {τ υ : Type}

namespace DagSpec

variable {spec : DagSpec τ} {remaining remaining' : List (String × List String)}
  {order result : List String}

/-- `a` depends on `d`. -/
def Depends (spec : DagSpec τ) (a d : String) : Prop :=
  ∃ node ∈ spec.nodes, node.nodeId = a ∧ d ∈ node.dependencies

/-! ## One turn -/

theorem mem_ready {id : String} : id ∈ ready remaining ↔ ∃ e ∈ remaining, e.2 = [] ∧ e.1 = id := by
  simp only [ready, sortedNames, List.mem_insertionSort, List.mem_map, List.mem_filter,
    List.isEmpty_iff, and_assoc]

/-- What is ready and what is left are all there was. -/
theorem ready_append_without (hnodup : (remaining.map Prod.fst).Nodup) :
    (ready remaining ++ (without remaining (ready remaining)).map Prod.fst).Perm
      (remaining.map Prod.fst) := by
  have hiff : ∀ e ∈ remaining, (!(ready remaining).contains e.1) = !e.2.isEmpty := by
    intro e he
    congr 1
    rw [Bool.eq_iff_iff, List.contains_iff_mem, mem_ready, List.isEmpty_iff]
    constructor
    · rintro ⟨e', he', hempty, heq⟩
      rwa [List.inj_on_of_nodup_map hnodup he' he heq] at hempty
    · exact fun h => ⟨e, he, h, rfl⟩
  have hleft : (without remaining (ready remaining)).map Prod.fst =
      (remaining.filter fun e => !e.2.isEmpty).map Prod.fst := by
    unfold without
    rw [List.map_map, List.filter_congr hiff]
    rfl
  rw [hleft]
  refine (List.Perm.append_right _ (List.perm_insertionSort _ _)).trans ?_
  rw [← List.map_append]
  exact (List.filter_append_perm _ _).map _

/-- **Where the loop is**: the nodes taken off are in topological order, and those that are left
wait for those that were not taken off. -/
structure Peeling (spec : DagSpec τ) (remaining : List (String × List String))
    (order : List String) : Prop where
  ids : (order ++ remaining.map Prod.fst).Perm spec.ids
  waits : ∀ e ∈ remaining, ∀ d, spec.Depends e.1 d → d ∈ e.2 ∨ d ∈ order
  topological : Topological spec.Depends order

theorem Peeling.turn (h : Peeling spec remaining order) (hnodup : spec.ids.Nodup) :
    Peeling spec (without remaining (ready remaining)) (order ++ ready remaining) where
  ids := by
    have hremaining : (remaining.map Prod.fst).Nodup :=
      (List.nodup_append.mp (h.ids.nodup_iff.mpr hnodup)).2.1
    rw [List.append_assoc]
    exact ((ready_append_without hremaining).append_left order).trans h.ids
  waits e he d hd := by
    obtain ⟨e', he', rfl⟩ := List.mem_map.mp he
    rcases h.waits e' (List.mem_filter.mp he').1 d hd with hwaits | horder
    · by_cases hready : d ∈ ready remaining
      · exact .inr (List.mem_append_right _ hready)
      · refine .inl (List.mem_filter.mpr ⟨hwaits, ?_⟩)
        simpa using hready
    · exact .inr (List.mem_append_left _ horder)
  topological := by
    refine h.topological.append fun id hid d hd => ?_
    obtain ⟨e, he, hempty, rfl⟩ := mem_ready.mp hid
    have := h.waits e he d hd
    rw [hempty] at this
    exact this.resolve_left List.not_mem_nil

theorem length_without (hnodup : (remaining.map Prod.fst).Nodup)
    (hready : (ready remaining).isEmpty = false) :
    (without remaining (ready remaining)).length < remaining.length := by
  have hlength := (ready_append_without hnodup).length_eq
  rw [List.length_append, List.length_map, List.length_map] at hlength
  have : 0 < (ready remaining).length := by
    rw [List.length_pos_iff]
    simpa using hready
  omega

/-- **What the loop returns**, when it has enough turns. -/
theorem peel_spec (hnodup : spec.ids.Nodup) : ∀ {fuel : Nat} {remaining : List (String × List String)}
    {order : List String}, remaining.length ≤ fuel → Peeling spec remaining order →
    peel fuel remaining order = .ok result → result.Perm spec.ids ∧ Topological spec.Depends result
  | fuel, remaining, order, hfuel, hpeeling, h => by
    have hdone : remaining = [] → order = result →
        result.Perm spec.ids ∧ Topological spec.Depends result := by
      rintro rfl rfl
      have hids := hpeeling.ids
      rw [List.map_nil, List.append_nil] at hids
      exact ⟨hids, hpeeling.topological⟩
    cases fuel with
    | zero => exact hdone (List.length_eq_zero_iff.mp (Nat.le_zero.mp hfuel)) (Except.ok.inj h)
    | succ fuel =>
      unfold peel at h
      split at h
      · rename_i hempty
        exact hdone (List.isEmpty_iff.mp hempty) (Except.ok.inj h)
      · split at h
        · cases h
        · rename_i hready
          have hremaining : (remaining.map Prod.fst).Nodup :=
            (List.nodup_append.mp (hpeeling.ids.nodup_iff.mpr hnodup)).2.1
          have hlength := length_without hremaining (by simpa using hready)
          exact peel_spec hnodup (by omega) (hpeeling.turn hnodup) h

/-- **The order is topological**, and lists every node once. -/
theorem topologicalOrder_spec (hnodup : spec.ids.Nodup) (h : spec.topologicalOrder = .ok order) :
    order.Perm spec.ids ∧ Topological spec.Depends order := by
  refine peel_spec hnodup (Nat.le_of_eq (List.length_map _)) ⟨?_, ?_, topological_nil⟩ h
  · rw [List.nil_append, List.map_map]
    exact List.Perm.refl _
  · intro e he d hd
    obtain ⟨node, hnode, rfl⟩ := List.mem_map.mp he
    obtain ⟨node', hnode', hid, hd⟩ := hd
    rw [List.inj_on_of_nodup_map hnodup hnode' hnode hid] at hd
    exact .inl hd

/-! ## The listing does not matter -/

theorem sortedNames_perm {names names' : List String} (h : names.Perm names') :
    sortedNames names = sortedNames names' :=
  List.Perm.eq_of_pairwise' (List.pairwise_insertionSort (· ≤ ·) names)
    (List.pairwise_insertionSort (· ≤ ·) names')
    ((List.perm_insertionSort _ _).trans (h.trans (List.perm_insertionSort _ _).symm))

theorem ready_perm (h : remaining.Perm remaining') : ready remaining = ready remaining' :=
  sortedNames_perm ((h.filter _).map _)

theorem peel_perm : ∀ {fuel : Nat} {remaining remaining' : List (String × List String)}
    {order : List String}, remaining.Perm remaining' →
    peel fuel remaining order = peel fuel remaining' order
  | 0, _, _, _, _ => rfl
  | fuel + 1, remaining, remaining', order, h => by
    have hempty : remaining.isEmpty = remaining'.isEmpty := by
      rw [Bool.eq_iff_iff, List.isEmpty_iff, List.isEmpty_iff]
      exact ⟨fun hnil => (hnil ▸ h).nil_eq.symm, fun hnil => (hnil ▸ h).eq_nil⟩
    unfold peel
    rw [hempty, ready_perm h]
    split
    · rfl
    · split
      · rfl
      · exact peel_perm ((h.filter _).map _)

theorem topologicalOrder_perm {nodes : List (DagNode τ)} (h : nodes.Perm spec.nodes) :
    { spec with nodes }.topologicalOrder = spec.topologicalOrder := by
  unfold topologicalOrder
  rw [h.length_eq]
  exact peel_perm (h.map _)

theorem sortedNodes_perm {nodes nodes' : List (DagNode τ)} (hnodup : (nodes'.map (·.nodeId)).Nodup)
    (h : nodes.Perm nodes') : sortedNodes nodes = sortedNodes nodes' := by
  have htotal : Std.Total fun a b : DagNode τ => a.nodeId ≤ b.nodeId :=
    ⟨fun a b => String.le_total a.nodeId b.nodeId⟩
  have htrans : IsTrans (DagNode τ) fun a b => a.nodeId ≤ b.nodeId :=
    ⟨fun _ _ _ hab hbc => String.le_trans hab hbc⟩
  refine List.Perm.eq_of_pairwise ?_ (List.pairwise_insertionSort _ nodes)
    (List.pairwise_insertionSort _ nodes')
    ((List.perm_insertionSort _ _).trans (h.trans (List.perm_insertionSort _ _).symm))
  intro a b ha hb hab hba
  -- two nodes of one name are one node
  have ha := h.subset ((List.mem_insertionSort _).mp ha)
  have hb := (List.mem_insertionSort _).mp hb
  exact List.inj_on_of_nodup_map hnodup ha hb (String.le_antisymm hab hba)

theorem fingerprint_perm (typeName : τ → String) (sha256 : Bytes → Vector UInt8 32)
    {nodes : List (DagNode τ)} (hnodup : spec.ids.Nodup) (h : nodes.Perm spec.nodes) :
    { spec with nodes }.fingerprint typeName sha256 = spec.fingerprint typeName sha256 := by
  simp only [fingerprint, sortedNodes_perm hnodup h]

end DagSpec

end LumaOS.TypedDag
