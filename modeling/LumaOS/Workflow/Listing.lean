import LumaOS.Workflow.Admission

/-!
# The listing of the nodes

`validate` runs four of its loops in the order of `graph.nodes`. What it returns is made from the
table of the nodes (`Decided`), and what it accepts is a property of the graph as a set of nodes, so
a graph and any other listing of its nodes have the same result (`listing_irrelevant`).
-/

namespace LumaOS.Workflow

open LumaOS.Base LumaOS.Text LumaOS.Json Relation

variable {sha256 : Bytes → Bytes} {g : Graph} {nodes : List Node}

/-- The graph with its nodes listed otherwise. -/
def Graph.listed (g : Graph) (nodes : List Node) : Graph := { g with nodes }

/-! ## What is accepted -/

theorem declares_listed (h : nodes.Perm g.nodes) (id : String) (n : Node) :
    (g.listed nodes).Declares id n ↔ g.Declares id n := and_congr_left fun _ => h.mem_iff

theorem dependsOn_listed (h : nodes.Perm g.nodes) : (g.listed nodes).DependsOn = g.DependsOn := by
  funext a b
  simp only [Graph.DependsOn, declares_listed h]

theorem inBounds_listed (h : nodes.Perm g.nodes) (hb : g.InBounds) : (g.listed nodes).InBounds where
  schema := hb.schema
  profile := hb.profile
  graphId := hb.graphId
  nodes := by
    have hlength : (g.listed nodes).nodes.length = g.nodes.length := h.length_eq
    rw [hlength]
    exact hb.nodes
  ids n hn := hb.ids n (h.mem_iff.mp hn)
  inputs n hn := hb.inputs n (h.mem_iff.mp hn)

theorem typed_listed (h : nodes.Perm g.nodes) {n : Node} (ht : g.Typed n) :
    (g.listed nodes).Typed n := by
  unfold Graph.Typed at ht ⊢
  simp only [declares_listed h]
  exact ht

theorem closedDag_listed (h : nodes.Perm g.nodes) (hd : g.ClosedDag) :
    (g.listed nodes).ClosedDag where
  unique := (h.map Node.id).nodup_iff.mpr hd.unique
  closed n hn := by
    obtain ⟨hnodup, hall⟩ := hd.closed n (h.mem_iff.mp hn)
    refine ⟨hnodup, fun d hdep => ?_⟩
    obtain ⟨hne, m, hm⟩ := hall d hdep
    exact ⟨hne, m, (declares_listed h d m).mpr hm⟩
  acyclic := by
    rw [dependsOn_listed h]
    exact hd.acyclic
  typed n hn := typed_listed h (hd.typed n (h.mem_iff.mp hn))
  sink := by
    obtain ⟨n, hn, hkind⟩ := hd.sink
    exact ⟨n, h.mem_iff.mpr hn, hkind⟩
  used n hn := by
    obtain ⟨s, hs, hkind, hreach⟩ := hd.used n (h.mem_iff.mp hn)
    refine ⟨s, h.mem_iff.mpr hs, hkind, ?_⟩
    rw [dependsOn_listed h]
    exact hreach

/-! ## What is returned -/

/-- The result is made from the table of the nodes. -/
def Decided (sha256 : Bytes → Bytes) (g : Graph) (table : Table Node) (v : Validation) : Prop :=
  ∃ order, sort table = .ok order ∧ v =
    { profile := g.profile, graphId := g.graphId, nodes := table.size, order
      fingerprint := hex (sha256 (toVec (normalized g table))) }

theorem decided_of_ok {v : Validation} (h : validate sha256 g = .ok v) :
    Decided sha256 g (tableOf g.nodes) v := by
  simp only [validate, bind_eq_ok, pure_eq_ok, declareAll_eq_ok] at h
  obtain ⟨_, -, _, ⟨-, -, rfl⟩, _, -, order, horder, _, -, _, -, _, -, _, -, rfl⟩ := h
  exact ⟨order, horder, rfl⟩

/-- **The table does not depend on the listing.** -/
theorem tableOf_perm (h : nodes.Perm g.nodes) (hunique : (g.nodes.map Node.id).Nodup) :
    tableOf nodes = tableOf g.nodes := by
  have hunique' : ((g.listed nodes).nodes.map Node.id).Nodup := (h.map Node.id).nodup_iff.mpr hunique
  refine Std.ExtTreeMap.ext_getElem? fun id => Option.ext fun n => ?_
  exact ((get_iff_declares hunique').trans (declares_listed h id n)).trans
    (get_iff_declares hunique).symm

theorem validate_listed (h : nodes.Perm g.nodes) {v : Validation}
    (hv : validate sha256 g = .ok v) : validate sha256 (g.listed nodes) = .ok v := by
  obtain ⟨⟨hbounds, hdag⟩, -⟩ := admitted_of_ok hv
  obtain ⟨w, hw⟩ := ok_of_admitted sha256 (inBounds_listed h hbounds) (closedDag_listed h hdag)
  obtain ⟨order, horder, rfl⟩ := decided_of_ok hv
  obtain ⟨order', horder', rfl⟩ := decided_of_ok hw
  have htable : tableOf (g.listed nodes).nodes = tableOf g.nodes := tableOf_perm h hdag.unique
  rw [htable] at horder' hw
  obtain rfl : order = order' := Except.ok.inj (horder.symm.trans horder')
  exact hw

/-- **Workflow admission is independent of the node listing.** -/
theorem listing_irrelevant (h : nodes.Perm g.nodes) (v : Validation) :
    validate sha256 g = .ok v ↔ validate sha256 { g with nodes } = .ok v := by
  refine ⟨validate_listed h, fun hv => ?_⟩
  exact (@validate_listed _ (g.listed nodes) g.nodes) h.symm hv

/-- A file that is read, calculated with and published. -/
def chainGraph : Graph where
  schemaVersion := 1
  profile := "file-to-artifact-v1"
  graphId := "report-1"
  nodes := [⟨"source", .fileRead, [], [], .text⟩,
    ⟨"calculate", .deterministicCalculate, ["source"], [.text], .report⟩,
    ⟨"publish", .artifactWrite, ["calculate"], [.report], .artifact⟩]

theorem listing_irrelevant_reversed :
    let reversed := { chainGraph with nodes := chainGraph.nodes.reverse }
    ∃ v, validate (fun _ => []) reversed = .ok v ∧ v.order = ["source", "calculate", "publish"] := by
  intro reversed
  have hfirst : validate (fun _ => []) chainGraph = .ok
      { profile := "file-to-artifact-v1", graphId := "report-1", nodes := 3
        order := ["source", "calculate", "publish"], fingerprint := "" } := by
    decide +kernel
  exact ⟨_, (listing_irrelevant (List.reverse_perm _) _).mp hfirst, rfl⟩

end LumaOS.Workflow
