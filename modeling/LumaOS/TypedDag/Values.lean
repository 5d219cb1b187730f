import LumaOS.Base.Loop
import LumaOS.TypedDag.Order

/-!
# What the nodes of a graph compute

`f` is what the handlers compute. A table of outputs is `Sound` when every entry is what `f` makes of
the entries of its node's dependencies, and passed the type checks. A checkpoint with a sound table
is accepted (`restore_good`).
-/

namespace LumaOS.TypedDag

open LumaOS.Base LumaOS.Text LumaOS.Json

variable {τ υ : Type}

/-! ## Inputs -/

section Inputs

variable {node : DagNode τ} {completed completed' inputs : Table υ}

/-- A node reads the entries of its dependencies and nothing else. -/
theorem DagNode.inputs_congr
    (h : ∀ d ∈ node.dependencies, completed[d]? = completed'[d]?) :
    node.inputs completed = node.inputs completed' := by
  unfold inputs
  have hfold : ∀ (ds : List String) (acc : Table υ), (∀ d ∈ ds, completed[d]? = completed'[d]?) →
      ds.foldlM (takeInput completed) acc = ds.foldlM (takeInput completed') acc := by
    intro ds
    induction ds with
    | nil => exact fun _ _ => rfl
    | cons d ds ih =>
      intro acc hds
      rw [List.forall_mem_cons] at hds
      rw [List.foldlM_cons, List.foldlM_cons, takeInput, takeInput, hds.1]
      cases completed'[d]? with
      | none => rfl
      | some value => exact ih _ hds.2
  exact hfold _ _ h

theorem DagNode.inputs_eq_ok (h : node.inputs completed = .ok inputs) (d : String) :
    (d ∈ node.dependencies → ∃ v, completed[d]? = some v ∧ inputs[d]? = some v) ∧
      (d ∉ node.dependencies → inputs[d]? = none) := by
  unfold DagNode.inputs at h
  have hfold : ∀ (ds : List String) (acc : Table υ),
      ds.foldlM (takeInput completed) acc = .ok inputs →
      (d ∈ ds → ∃ v, completed[d]? = some v ∧ inputs[d]? = some v) ∧
        (d ∉ ds → inputs[d]? = acc[d]?) := by
    intro ds
    induction ds with
    | nil =>
      intro acc hacc
      cases hacc
      exact ⟨fun hd => absurd hd List.not_mem_nil, fun _ => rfl⟩
    | cons e ds ih =>
      intro acc hacc
      rw [List.foldlM_cons] at hacc
      obtain ⟨next, hnext, hacc⟩ := bind_eq_ok.mp hacc
      obtain ⟨hin, hout⟩ := ih next hacc
      unfold takeInput at hnext
      cases hv : completed[e]? with
      | none =>
        rw [hv] at hnext
        cases hnext
      | some v =>
        rw [hv] at hnext
        cases hnext
        by_cases hd : d ∈ ds
        · exact ⟨fun _ => hin hd, fun hnot => absurd (List.mem_cons_of_mem _ hd) hnot⟩
        · have hlookup := hout hd
          rw [Table.get_insert] at hlookup
          by_cases he : e = d
          · subst he
            rw [if_pos rfl] at hlookup
            exact ⟨fun _ => ⟨v, hv, hlookup⟩, fun hnot => absurd List.mem_cons_self hnot⟩
          · rw [if_neg he] at hlookup
            refine ⟨fun hmem => ?_, fun _ => hlookup⟩
            exact absurd hmem (by simp [hd, Ne.symm he])
  obtain ⟨hin, hout⟩ := hfold _ _ h
  exact ⟨hin, fun hd => by rw [hout hd]; simp⟩

theorem DagNode.inputs_mono (h : node.inputs completed = .ok inputs)
    (hmono : ∀ (id : String) v, completed[id]? = some v → completed'[id]? = some v) :
    node.inputs completed' = .ok inputs := by
  rw [← h]
  refine (DagNode.inputs_congr fun d hd => ?_).symm
  obtain ⟨v, hv, -⟩ := (DagNode.inputs_eq_ok h d).1 hd
  rw [hv, hmono d v hv]

end Inputs

/-! ## Constructed graphs -/

namespace DagSpec

variable {spec : DagSpec τ} {id : String} {node : DagNode τ}

theorem node_eq_ok (h : spec.node id = .ok node) : node ∈ spec.nodes ∧ node.nodeId = id := by
  unfold DagSpec.node at h
  cases hfind : spec.nodes.find? fun node => node.nodeId == id with
  | none =>
    rw [hfind] at h
    cases h
  | some found =>
    rw [hfind] at h
    cases h
    exact ⟨List.mem_of_find?_eq_some hfind, by simpa using List.find?_some hfind⟩

/-- What the constructor has made sure of. -/
structure Sorted (spec : DagSpec τ) (order : List String) : Prop where
  sorted : spec.topologicalOrder = .ok order
  nodup : spec.ids.Nodup
  perm : order.Perm spec.ids
  topological : Topological spec.Depends order

theorem Constructed.sorted (h : spec.Constructed) : ∃ order, Sorted spec order := by
  have hspec := h.spec
  unfold postInit at hspec
  obtain ⟨_, -, hspec⟩ := bind_eq_ok.mp hspec
  obtain ⟨_, -, hspec⟩ := bind_eq_ok.mp hspec
  obtain ⟨_, -, hspec⟩ := bind_eq_ok.mp hspec
  obtain ⟨_, hnodup, hspec⟩ := bind_eq_ok.mp hspec
  obtain ⟨_, -, hspec⟩ := bind_eq_ok.mp hspec
  obtain ⟨order, horder, -⟩ := bind_eq_ok.mp hspec
  have hnodup : spec.ids.Nodup := by simpa using raiseIf_eq_ok.mp hnodup
  obtain ⟨hperm, htopological⟩ := topologicalOrder_spec hnodup horder
  exact ⟨order, horder, hnodup, hperm, htopological⟩

end DagSpec

/-! ## Sound tables -/

section Sound

variable (isInstance : υ → τ → Bool) (spec : DagSpec τ) (f : DagNode τ → Table υ → υ)

/-- An entry is what `f` makes of the entries of the node's dependencies. -/
def Computed (completed : Table υ) (id : String) (v : υ) : Prop :=
  ∃ node inputs, spec.node id = .ok node ∧ node.inputs completed = .ok inputs ∧
    node.checkInputs isInstance inputs = .ok () ∧ v = f node inputs ∧
    isInstance v node.outputType = true

/-- **The outputs of some nodes and of what these depend on.** -/
def Sound (completed : Table υ) : Prop :=
  ∀ id v, completed[id]? = some v → Computed isInstance spec f completed id v

/-- The completed nodes include their dependencies. -/
def DependencyClosed (completed : Table υ) : Prop :=
  ∀ id, id ∈ completed → id ∈ spec.ids ∧ ∀ d, spec.Depends id d → d ∈ completed

end Sound

section

variable {isInstance : υ → τ → Bool} {spec : DagSpec τ} {f : DagNode τ → Table υ → υ}
  {completed completed' : Table υ} {order : List String}

theorem sound_empty : Sound isInstance spec f ∅ := by
  intro id v h
  simp at h

theorem Sound.insert (h : Sound isInstance spec f completed) {id : String} {v : υ}
    (hnew : id ∉ completed) (hv : Computed isInstance spec f completed id v) :
    Sound isInstance spec f (completed.insert id v) := by
  have hmono : ∀ (a : String) w, completed[a]? = some w → (completed.insert id v)[a]? = some w := by
    intro a w hw
    rw [Table.get_insert_ne ?_, hw]
    rintro rfl
    exact hnew (Table.mem_iff_get.mpr ⟨w, hw⟩)
  have hgrow : ∀ a w, Computed isInstance spec f completed a w →
      Computed isInstance spec f (completed.insert id v) a w := by
    rintro a w ⟨node, inputs, hnode, hinputs, hrest⟩
    exact ⟨node, inputs, hnode, DagNode.inputs_mono hinputs hmono, hrest⟩
  intro a w hw
  rw [Table.get_insert] at hw
  split at hw
  · rename_i ha
    cases hw
    subst ha
    exact hgrow _ _ hv
  · exact hgrow a w (h a w hw)

theorem Sound.closed (h : Sound isInstance spec f completed) (hnodup : spec.ids.Nodup) :
    DependencyClosed spec completed := by
  intro id hid
  obtain ⟨v, hv⟩ := Table.mem_iff_get.mp hid
  obtain ⟨node, inputs, hnode, hinputs, -⟩ := h id v hv
  obtain ⟨hmem, rfl⟩ := DagSpec.node_eq_ok hnode
  refine ⟨List.mem_map_of_mem hmem, ?_⟩
  rintro d ⟨node', hmem', heq, hd⟩
  rw [List.inj_on_of_nodup_map hnodup hmem' hmem heq] at hd
  obtain ⟨w, hw, -⟩ := (DagNode.inputs_eq_ok hinputs d).1 hd
  exact Table.mem_iff_get.mpr ⟨w, hw⟩

variable {typeName : τ → String} {sha256 : Bytes → Vector UInt8 32}

/-- A checkpoint that a run of the graph may have published. -/
structure Good (typeName : τ → String) (isInstance : υ → τ → Bool)
    (sha256 : Bytes → Vector UInt8 32) (spec : DagSpec τ) (f : DagNode τ → Table υ → υ)
    (c : DagCheckpoint υ) : Prop where
  fingerprint : c.graphFingerprint = spec.fingerprint typeName sha256
  sound : Sound isInstance spec f c.completed

theorem sortedNames_nil {names : List String} (h : names = []) :
    (!(sortedNames names).isEmpty) = false := by
  subst h
  rfl

/-- **A good checkpoint is accepted.** -/
theorem restore_good {checkpoint : Option (DagCheckpoint υ)}
    (h : ∀ c, checkpoint = some c → Good typeName isInstance sha256 spec f c) :
    spec.restore typeName isInstance sha256 checkpoint = .ok (taken checkpoint) := by
  have hsound : Sound isInstance spec f (taken checkpoint) := by
    cases checkpoint with
    | none => exact sound_empty
    | some c => exact (h c rfl).sound
  have hfingerprint : (checkpoint.any fun c =>
      c.graphFingerprint != spec.fingerprint typeName sha256) = false := by
    cases checkpoint with
    | none => rfl
    | some c => simpa using (h c rfl).fingerprint
  have hknown : ((taken checkpoint).keys.filter fun id =>
      !spec.ids.contains id) = [] := by
    rw [List.filter_eq_nil_iff]
    intro id hid
    obtain ⟨v, hv⟩ := Table.mem_keys_iff_get.mp hid
    obtain ⟨node, inputs, hnode, -⟩ := hsound id v hv
    obtain ⟨hmem, rfl⟩ := DagSpec.node_eq_ok hnode
    simpa [DagSpec.ids] using ⟨node, hmem, rfl⟩
  have hentries : (taken checkpoint).toList.forM
      (spec.checkEntry isInstance (taken checkpoint)) = .ok () := by
    refine forM_eq_ok.mpr fun e he => ?_
    obtain ⟨node, inputs, hnode, hinputs, -, -, htype⟩ :=
      hsound e.1 e.2 (Table.mem_toList_iff_get.mp he)
    unfold DagSpec.checkEntry
    refine bind_eq_ok.mpr ⟨node, hnode, bind_eq_ok.mpr ⟨(), ?_, raiseIf_eq_ok.mpr ?_⟩⟩
    · exact raiseIf_eq_ok.mpr (by simpa using htype)
    · refine sortedNames_nil (List.filter_eq_nil_iff.mpr fun d hd => ?_)
      obtain ⟨w, hw, -⟩ := (DagNode.inputs_eq_ok hinputs d).1 hd
      have := Table.mem_iff_get.mpr ⟨w, hw⟩
      simpa using this
  unfold DagSpec.restore
  refine bind_eq_ok.mpr ⟨(), raiseIf_eq_ok.mpr hfingerprint, bind_eq_ok.mpr ⟨(), ?_, ?_⟩⟩
  · exact raiseIf_eq_ok.mpr (sortedNames_nil hknown)
  · exact bind_eq_ok.mpr ⟨(), hentries, rfl⟩

end

end LumaOS.TypedDag
