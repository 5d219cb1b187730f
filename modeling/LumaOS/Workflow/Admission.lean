import LumaOS.Workflow.Graph
import Mathlib.Algebra.Order.BigOperators.Group.List
import Mathlib.Algebra.Order.Group.Nat

/-!
# What workflow admission accepts

`validate` reads a graph through six loops. Each has its lemma: the two that declare nodes and bind
dependencies are validation loops (`foldlM_pairwise`), the topological sort and the search from the
sinks are measured loops (`loop_rule`) over the facts of `LumaOS.Base.Digraph`.

* `sort_spec`: peeling ends, with a topological order of all nodes or because there is a cycle.
* `connect_spec`: the search ends, with the nodes that the sinks are made from.

**`validate_iff`**: the graphs that pass are the closed typed DAGs, and the order that comes out lists
every node once, after its dependencies.
-/

namespace LumaOS.Workflow

open LumaOS.Base LumaOS.Text LumaOS.Json Relation

/-! ## Closed typed DAGs -/

/-- A node is declared under an id. -/
def Graph.Declares (g : Graph) (id : String) (n : Node) : Prop := n ∈ g.nodes ∧ n.id = id

/-- `a` lists `b` among its dependencies. -/
def Graph.DependsOn (g : Graph) (a b : String) : Prop :=
  ∃ n, g.Declares a n ∧ b ∈ n.dependencies

/-- The bounds on schema, ids and sizes. -/
structure Graph.InBounds (g : Graph) : Prop where
  schema : g.schemaVersion = 1
  profile : g.profile = "file-to-artifact-v1"
  graphId : identifier g.graphId = true
  nodes : 0 < g.nodes.length ∧ g.nodes.length ≤ maxNodes
  ids : ∀ n ∈ g.nodes, identifier n.id = true
  inputs : ∀ n ∈ g.nodes, n.dependencies.length ≤ maxInputs ∧
    n.inputTypes.length = n.dependencies.length

/-- The arity and type contract of a node's kind. -/
def Graph.Typed (g : Graph) (n : Node) : Prop :=
  match n.kind with
  | .fileRead => n.dependencies = [] ∧ n.outputType = .text
  | .deterministicCalculate =>
    (1 ≤ n.dependencies.length ∧ n.dependencies.length ≤ maxInputs) ∧
    (∀ input ∈ n.inputTypes, input = .text) ∧
    (∀ d ∈ n.dependencies, ∀ m, g.Declares d m → m.outputType = .text) ∧ n.outputType = .report
  | .artifactWrite =>
    n.dependencies.length = 1 ∧ (∀ input ∈ n.inputTypes, input = .report) ∧
    (∀ d ∈ n.dependencies, ∀ m, g.Declares d m → m.outputType = .report) ∧
    n.outputType = .artifact

/-- A closed typed DAG, all of which ends up in some artifact. -/
structure Graph.ClosedDag (g : Graph) : Prop where
  unique : (g.nodes.map Node.id).Nodup
  closed : ∀ n ∈ g.nodes, n.dependencies.Nodup ∧
    ∀ d ∈ n.dependencies, d ≠ n.id ∧ ∃ m, g.Declares d m
  acyclic : Acyclic g.DependsOn
  typed : ∀ n ∈ g.nodes, g.Typed n
  sink : ∃ n ∈ g.nodes, n.kind = .artifactWrite
  used : ∀ n ∈ g.nodes, ∃ s ∈ g.nodes, s.kind = .artifactWrite ∧
    ReflTransGen (fun a b => g.DependsOn b a) n.id s.id

/-! ## The table of nodes -/

/-- The table that the declaration loop builds. -/
def tableOf (nodes : List Node) : Table Node := nodes.foldl (fun t n => t.insert n.id n) ∅

theorem tableOf_append (nodes : List Node) (n : Node) :
    tableOf (nodes ++ [n]) = (tableOf nodes).insert n.id n := by
  simp only [tableOf, List.foldl_append, List.foldl_cons, List.foldl_nil]

theorem mem_of_get_tableOf {nodes : List Node} {id : String} {n : Node}
    (h : (tableOf nodes)[id]? = some n) : n ∈ nodes ∧ n.id = id := by
  induction nodes using List.reverseRecOn with
  | nil =>
    rw [tableOf, List.foldl_nil, Std.ExtTreeMap.getElem?_empty] at h
    cases h
  | append_singleton nodes m ih =>
    rw [tableOf_append, Table.get_insert] at h
    split at h
    · rename_i hid
      cases h
      exact ⟨List.mem_append_right _ List.mem_cons_self, hid⟩
    · obtain ⟨hmem, hid⟩ := ih h
      exact ⟨List.mem_append_left _ hmem, hid⟩

theorem get_tableOf {nodes : List Node} (hnd : nodes.Pairwise fun a b => a.id ≠ b.id) {n : Node}
    (h : n ∈ nodes) : (tableOf nodes)[n.id]? = some n := by
  induction nodes using List.reverseRecOn with
  | nil => exact absurd h List.not_mem_nil
  | append_singleton nodes m ih =>
    obtain ⟨hnd, -, hlast⟩ := List.pairwise_append.mp hnd
    rw [tableOf_append, Table.get_insert]
    rcases List.mem_append.mp h with h | h
    · rw [if_neg (hlast n h m List.mem_cons_self).symm]
      exact ih hnd h
    · obtain rfl := List.mem_singleton.mp h
      rw [if_pos rfl]

theorem contains_tableOf {nodes : List Node} {id : String} :
    (tableOf nodes).contains id = true ↔ ∃ n ∈ nodes, n.id = id := by
  rw [← Std.ExtTreeMap.mem_iff_contains]
  induction nodes using List.reverseRecOn with
  | nil => simp [tableOf]
  | append_singleton nodes m ih =>
    rw [tableOf_append, Std.ExtTreeMap.mem_insert, ih, Std.compare_eq_iff_eq]
    simp only [List.mem_append, List.mem_singleton, or_and_right, exists_or, exists_eq_left]
    exact or_comm

theorem declare_eq_ok {past : List Node} {n : Node} {t : Table Node} :
    declare (tableOf past) n = .ok t ↔
      ((identifier n.id = true ∧ n.dependencies.length ≤ maxInputs ∧
        n.inputTypes.length = n.dependencies.length) ∧ ∀ m ∈ past, m.id ≠ n.id) ∧
      t = tableOf (past ++ [n]) := by
  have hmem : (tableOf past).contains n.id = false ↔ ∀ m ∈ past, m.id ≠ n.id := by
    rw [← Bool.not_eq_true, contains_tableOf]
    simp only [not_exists, not_and, ne_eq]
  simp only [declare, bind_eq_ok, refuseIf_eq_ok, Bool.or_eq_false_iff, Bool.not_eq_false',
    decide_eq_false_iff_not, bne_eq_false_iff_eq, pure_eq_ok, tableOf_append, hmem, Nat.not_lt,
    gt_iff_lt]
  constructor
  · rintro ⟨_, ⟨⟨⟨hid, hlen⟩, htypes⟩, hfresh⟩, rfl⟩
    exact ⟨⟨⟨hid, hlen, htypes.symm⟩, hfresh⟩, rfl⟩
  · rintro ⟨⟨⟨hid, hlen, htypes⟩, hfresh⟩, rfl⟩
    exact ⟨(), ⟨⟨⟨hid, hlen⟩, htypes.symm⟩, hfresh⟩, rfl⟩

theorem declareAll_eq_ok {nodes : List Node} {t : Table Node} :
    nodes.foldlM declare ∅ = .ok t ↔
      (∀ n ∈ nodes, identifier n.id = true ∧ n.dependencies.length ≤ maxInputs ∧
        n.inputTypes.length = n.dependencies.length) ∧
      nodes.Pairwise (fun a b => a.id ≠ b.id) ∧ t = tableOf nodes :=
  foldlM_pairwise (S := tableOf) (fun _ _ _ _ _ => declare_eq_ok) nodes [] t
    (fun _ h => absurd h List.not_mem_nil) .nil

/-- The names a list of dependencies leaves in `unique`. -/
def namesOf (names : List String) : Names := names.foldl (fun s k => s.insert k) ∅

theorem mem_namesOf {names : List String} {a : String} : a ∈ namesOf names ↔ a ∈ names := by
  rw [namesOf, Names.mem_insertAll]
  simp

theorem bindDependency_eq_ok {nodes : Table Node} {n : Node} {past : List String} {d : String}
    {s : Names} : bindDependency nodes n (namesOf past) d = .ok s ↔
      ((identifier d = true ∧ d ≠ n.id ∧ nodes.contains d = true) ∧ ∀ x ∈ past, x ≠ d) ∧
      s = namesOf (past ++ [d]) := by
  have happend : namesOf (past ++ [d]) = (namesOf past).insert d := by
    simp only [namesOf, List.foldl_append, List.foldl_cons, List.foldl_nil]
  have hmem : (namesOf past).contains d = false ↔ ∀ x ∈ past, x ≠ d := by
    rw [← Bool.not_eq_true, ← Std.ExtTreeSet.mem_iff_contains, mem_namesOf]
    exact ⟨fun h x hx he => h (he ▸ hx), fun h hd => h d hd rfl⟩
  simp only [bindDependency, bind_eq_ok, refuseIf_eq_ok, Bool.or_eq_false_iff, Bool.not_eq_false',
    beq_eq_false_iff_ne, pure_eq_ok, happend, hmem]
  constructor
  · rintro ⟨_, ⟨⟨⟨hid, hne⟩, hfresh⟩, hdecl⟩, rfl⟩
    exact ⟨⟨⟨hid, hne, hdecl⟩, hfresh⟩, rfl⟩
  · rintro ⟨⟨⟨hid, hne, hdecl⟩, hfresh⟩, rfl⟩
    exact ⟨(), ⟨⟨⟨hid, hne⟩, hfresh⟩, hdecl⟩, rfl⟩

theorem bindDependencies_eq_ok {nodes : Table Node} {n : Node} {u : Unit} :
    bindDependencies nodes n = .ok u ↔ n.dependencies.Nodup ∧
      ∀ d ∈ n.dependencies, identifier d = true ∧ d ≠ n.id ∧ nodes.contains d = true := by
  have hloop : ∀ s, n.dependencies.foldlM (bindDependency nodes n) ∅ = .ok s ↔
      (∀ d ∈ n.dependencies, identifier d = true ∧ d ≠ n.id ∧ nodes.contains d = true) ∧
      n.dependencies.Pairwise (fun a b => a ≠ b) ∧ s = namesOf n.dependencies := fun s =>
    foldlM_pairwise (S := namesOf) (fun _ _ _ _ _ => bindDependency_eq_ok) n.dependencies [] s
      (fun _ h => absurd h List.not_mem_nil) .nil
  simp only [bindDependencies, bind_eq_ok, hloop, pure_eq_ok]
  constructor
  · rintro ⟨_, ⟨hall, hnd, -⟩, -⟩
    exact ⟨hnd, hall⟩
  · rintro ⟨hnd, hall⟩
    exact ⟨_, ⟨hall, hnd, rfl⟩, trivial⟩

/-! ## Sorting -/

section Sorting

variable {nodes : Table Node} {s : Table Names × List String}

/-- `a` lists `b` among its dependencies, in the table. -/
def Depends (nodes : Table Node) (a b : String) : Prop :=
  ∃ n, nodes[a]? = some n ∧ b ∈ n.dependencies

/-- Every dependency is in the table. -/
def Closed (nodes : Table Node) : Prop := ∀ a d, Depends nodes a d → ∃ n, nodes[d]? = some n

/-- What peeling keeps: the ids left are those not listed yet, with the dependencies not listed
yet, and what is listed is sorted. -/
structure Peeled (nodes : Table Node) (s : Table Names × List String) : Prop where
  left : ∀ id, (∃ deps, s.1[id]? = some deps) ↔ (∃ n, nodes[id]? = some n) ∧ id ∉ s.2
  deps : ∀ id deps, s.1[id]? = some deps → ∀ d, d ∈ deps ↔ Depends nodes id d ∧ d ∉ s.2
  sorted : Topological (Depends nodes) s.2
  nodup : s.2.Nodup
  listed : ∀ id ∈ s.2, ∃ n, nodes[id]? = some n

theorem mem_ready {remaining : Table Names} {id : String} :
    id ∈ ready remaining ↔ ∃ deps, remaining[id]? = some deps ∧ ∀ d, d ∉ deps := by
  simp only [ready, List.mem_filterMap, Prod.exists, Option.ite_none_right_eq_some,
    Option.some.injEq]
  constructor
  · rintro ⟨_, deps, hmem, hempty, rfl⟩
    exact ⟨deps, Table.mem_toList_iff_get.mp hmem, Names.isEmpty_iff_mem.mp hempty⟩
  · rintro ⟨deps, hget, hempty⟩
    exact ⟨id, deps, Table.mem_toList_iff_get.mpr hget, Names.isEmpty_iff_mem.mpr hempty, rfl⟩

theorem nodup_ready (remaining : Table Names) : (ready remaining).Nodup := by
  have hkeys := Table.nodup_fst_toList (t := remaining)
  rw [List.Nodup, List.pairwise_map] at hkeys
  unfold ready
  rw [List.Nodup, List.pairwise_filterMap]
  refine hkeys.imp fun {a b} hne x hx y hy => ?_
  obtain ⟨-, hx⟩ := Option.ite_none_right_eq_some.mp hx
  obtain ⟨-, hy⟩ := Option.ite_none_right_eq_some.mp hy
  exact fun he => hne ((Option.some.inj hx).trans (he.trans (Option.some.inj hy).symm))

theorem peeled_init : Peeled nodes (dependencySets nodes, []) := by
  refine ⟨fun id => ?_, fun id deps h d => ?_, topological_nil, List.nodup_nil,
    fun id h => absurd h List.not_mem_nil⟩
  · rw [dependencySets, Table.get_map]
    simp
  · rw [dependencySets, Table.get_map, Option.map_eq_some_iff] at h
    obtain ⟨n, hn, rfl⟩ := h
    rw [← namesOf, mem_namesOf]
    simp only [List.not_mem_nil, not_false_eq_true, and_true, Depends, hn, Option.some.injEq,
      exists_eq_left']

theorem peel_smaller (s s' : Table Names × List String) (h : peel s = .ok (.again s')) :
    s'.1.size < s.1.size := by
  obtain ⟨remaining, order⟩ := s
  unfold peel at h
  dsimp only at h
  split at h
  · cases h
  · simp only [bind_eq_ok, refuseIf_eq_ok, pure_eq_ok, Turn.again.injEq] at h
    obtain ⟨_, hready, rfl⟩ := h
    rw [Std.ExtTreeMap.size_map]
    cases hl : ready remaining with
    | nil => rw [hl] at hready; cases hready
    | cons id ids =>
      obtain ⟨deps, hget, -⟩ := mem_ready.mp (hl ▸ List.mem_cons_self : id ∈ ready remaining)
      exact Table.size_eraseAll_lt (Table.mem_iff_get.mpr ⟨deps, hget⟩)

/-- What a sort gives: an order of all nodes, or a cycle. -/
def Sorts (nodes : Table Node) : Result (List String) → Prop
  | .ok order => order.Perm nodes.keys ∧ Topological (Depends nodes) order
  | .error (.refused _) => ¬ Acyclic (Depends nodes)
  | .error (.panicked _) => False

/-- Where nothing is ready, the ids left have a cycle among them. -/
theorem Peeled.stuck (h : Peeled nodes s) (hclosed : Closed nodes) (hne : s.1.isEmpty = false)
    (hready : ready s.1 = []) : ¬ Acyclic (Depends nodes) := by
  intro hacyclic
  have hleft : {a | a ∈ s.1.keys}.Nonempty := by
    by_contra hnone
    rw [Set.not_nonempty_iff_eq_empty] at hnone
    have hempty : s.1.isEmpty = true := Table.isEmpty_iff_get.mpr fun a => by
      rw [← Table.not_mem_iff_get, ← Std.ExtTreeMap.mem_keys]
      exact fun ha => (Set.ext_iff.mp hnone a).mp ha
    rw [hempty] at hne
    cases hne
  obtain ⟨id, hid, hsource⟩ := exists_source hacyclic s.1.keys.finite_toSet hleft
  obtain ⟨deps, hdeps⟩ := Table.mem_keys_iff_get.mp hid
  have hmem : id ∈ ready s.1 := mem_ready.mpr ⟨deps, hdeps, fun d hd => by
    obtain ⟨hdep, hnot⟩ := (h.deps id deps hdeps d).mp hd
    exact hsource d hdep (Table.mem_keys_iff_get.mpr ((h.left d).mpr ⟨hclosed id d hdep, hnot⟩))⟩
  rw [hready] at hmem
  exact List.not_mem_nil hmem

/-- Where nothing is left, the order lists every node. -/
theorem Peeled.complete (h : Peeled nodes s) (hempty : s.1.isEmpty = true) :
    s.2.Perm nodes.keys := by
  have hnone := Table.isEmpty_iff_get.mp hempty
  refine (List.perm_ext_iff_of_nodup h.nodup
    (Table.sorted_keys.imp fun hlt => Table.ne_of_lt hlt)).mpr fun id => ?_
  rw [Table.mem_keys_iff_get]
  constructor
  · exact h.listed id
  · intro hn
    by_contra hnot
    obtain ⟨deps, hdeps⟩ := (h.left id).mpr ⟨hn, hnot⟩
    rw [hnone id] at hdeps
    cases hdeps

/-- Taking off the ready ids. -/
theorem Peeled.next (h : Peeled nodes s) :
    Peeled nodes (((ready s.1).foldl (fun remaining id => remaining.erase id) s.1).map
      fun _ deps => (ready s.1).foldl (fun deps id => deps.erase id) deps, s.2 ++ ready s.1) := by
  have hready : ∀ id ∈ ready s.1, ((∃ n, nodes[id]? = some n) ∧ id ∉ s.2) ∧
      ∀ d, Depends nodes id d → d ∈ s.2 := by
    intro id hid
    obtain ⟨deps, hdeps, hempty⟩ := mem_ready.mp hid
    refine ⟨(h.left id).mp ⟨deps, hdeps⟩, fun d hd => ?_⟩
    by_contra hnot
    exact hempty d ((h.deps id deps hdeps d).mpr ⟨hd, hnot⟩)
  refine ⟨fun id => ?_, fun id deps hdeps d => ?_, ?_, ?_, fun id hid => ?_⟩
  · rw [Table.get_map, Table.get_eraseAll, List.mem_append, not_or, ← and_assoc, ← h.left id]
    by_cases hid : id ∈ ready s.1
    · simp [hid]
    · simp [hid]
  · rw [Table.get_map, Table.get_eraseAll] at hdeps
    by_cases hid : id ∈ ready s.1
    · simp [hid] at hdeps
    · rw [if_neg hid, Option.map_eq_some_iff] at hdeps
      obtain ⟨old, hold, rfl⟩ := hdeps
      rw [Names.mem_eraseAll, h.deps id old hold, List.mem_append, not_or]
      tauto
  · exact h.sorted.append fun x hx => (hready x hx).2
  · refine List.nodup_append'.mpr ⟨h.nodup, nodup_ready _, fun id hid hr => ?_⟩
    exact (hready id hr).1.2 hid
  · rcases List.mem_append.mp hid with hid | hid
    · exact h.listed id hid
    · exact (hready id hid).1.1

theorem peel_turns (hclosed : Closed nodes) (s : Table Names × List String)
    (h : Peeled nodes s) : Turns peel (Peeled nodes) (Sorts nodes) s := by
  unfold Turns peel
  dsimp only
  cases hempty : s.1.isEmpty with
  | true => exact ⟨h.complete hempty, h.sorted⟩
  | false =>
    cases hready : (ready s.1).isEmpty with
    | true => exact h.stuck hclosed hempty (List.isEmpty_iff.mp hready)
    | false => exact h.next

/-- **Sorting ends with a topological order of all nodes, or because there is a cycle.** -/
theorem sort_spec (hclosed : Closed nodes) : Sorts nodes (sort nodes) := by
  refine loop_rule (fun s => s.1.size) peel_smaller (peel_turns hclosed) ?_ peeled_init
  dsimp only
  rw [dependencySets, Std.ExtTreeMap.size_map]
  exact Nat.lt_succ_self _

theorem sort_eq_ok (hclosed : Closed nodes) {order : List String} (h : sort nodes = .ok order) :
    order.Perm nodes.keys ∧ Topological (Depends nodes) order := by
  have hs := sort_spec hclosed
  rw [h] at hs
  exact hs

theorem sort_ok_iff (hclosed : Closed nodes) :
    (∃ order, sort nodes = .ok order) ↔ Acyclic (Depends nodes) := by
  have hs := sort_spec hclosed
  constructor
  · rintro ⟨order, horder⟩
    obtain ⟨hperm, hsorted⟩ := sort_eq_ok hclosed horder
    refine hsorted.acyclic fun a b hab => ?_
    obtain ⟨n, hn, -⟩ := hab
    exact hperm.mem_iff.mpr (Table.mem_keys_iff_get.mpr ⟨n, hn⟩)
  · intro hacyclic
    generalize sort nodes = result at hs
    match result with
    | .ok order => exact ⟨order, rfl⟩
    | .error (.refused _) => exact absurd hacyclic hs
    | .error (.panicked _) => exact hs.elim

theorem noPanic_sort (hclosed : Closed nodes) : NoPanic (sort nodes) := by
  have hs := sort_spec hclosed
  refine ⟨fun m hm => ?_⟩
  rw [hm] at hs
  exact hs

end Sorting

/-! ## Types -/

section Types

variable {nodes : Table Node}

theorem anyOutputDiffers_eq (expected : ValueType) {ids : List String}
    (h : ∀ id ∈ ids, ∃ n, nodes[id]? = some n) : ∃ b,
      anyOutputDiffers nodes expected ids = .ok b ∧
      (b = false ↔ ∀ id ∈ ids, ∀ n, nodes[id]? = some n → n.outputType = expected) := by
  induction ids with
  | nil => exact ⟨false, rfl, by simp⟩
  | cons id ids ih =>
    obtain ⟨⟨n, hn⟩, hrest⟩ := List.forall_mem_cons.mp h
    obtain ⟨b, hb, hiff⟩ := ih hrest
    have hone : outputDiffers nodes expected id = .ok (n.outputType != expected) := by
      rw [outputDiffers, hn]
      rfl
    rw [anyOutputDiffers, hone]
    by_cases he : n.outputType = expected
    · refine ⟨b, ?_, ?_⟩
      · rw [he, bne_self_eq_false]
        exact hb
      · rw [hiff, List.forall_mem_cons, hn]
        simp only [Option.some.injEq, forall_eq', he, true_and]
    · refine ⟨true, ?_, ?_⟩
      · rw [bne_iff_ne.mpr he]
        rfl
      · rw [List.forall_mem_cons, hn]
        simp only [Option.some.injEq, forall_eq', he, false_and]
        exact ⟨fun hf => (by cases hf), False.elim⟩

/-- A node passes its contract when its parts do. -/
theorem checkContract_eq_ok {n : Node} {u : Unit}
    (h : ∀ d ∈ n.dependencies, ∃ m, nodes[d]? = some m) :
    checkContract nodes n = .ok u ↔
      (n.kind.contract.1 ≤ n.dependencies.length ∧
        n.dependencies.length ≤ n.kind.contract.2.1) ∧
      n.outputType = n.kind.contract.2.2.2 ∧
      (∀ input ∈ n.inputTypes, some input = n.kind.contract.2.2.1) ∧
      ∀ d ∈ n.dependencies, ∀ m, nodes[d]? = some m →
        m.outputType = n.kind.contract.2.2.1.getD .text := by
  obtain ⟨b, hb, hiff⟩ := anyOutputDiffers_eq (n.kind.contract.2.2.1.getD .text) h
  rw [← hiff]
  unfold checkContract
  dsimp only
  rw [hb]
  simp only [bind_eq_ok, refuseIf_eq_ok, Bool.or_eq_false_iff, decide_eq_false_iff_not,
    bne_eq_false_iff_eq, List.any_eq_false, bne_iff_ne, ne_eq, not_not, Except.ok.injEq,
    exists_eq_left', Nat.not_lt, gt_iff_lt]
  constructor
  · rintro ⟨_, ⟨⟨⟨hmin, hmax⟩, hout⟩, hin⟩, hb⟩
    exact ⟨⟨hmin, hmax⟩, hout, hin, hb⟩
  · rintro ⟨⟨hmin, hmax⟩, hout, hin, hb⟩
    exact ⟨(), ⟨⟨⟨hmin, hmax⟩, hout⟩, hin⟩, hb⟩

theorem noPanic_checkContract {n : Node} (h : ∀ d ∈ n.dependencies, ∃ m, nodes[d]? = some m) :
    NoPanic (checkContract nodes n) := by
  obtain ⟨b, hb, -⟩ := anyOutputDiffers_eq (n.kind.contract.2.2.1.getD .text) h
  unfold checkContract
  dsimp only
  rw [hb]
  infer_instance

end Types

/-! ## Searching from the sinks -/

section Search

variable {nodes : Table Node} {sinks : List String}

/-- What the search keeps: the sinks and the dependencies of what is found are found or on the
stack, and both hold only what the sinks are made from. -/
structure Searched (nodes : Table Node) (sinks : List String) (s : List String × Names) :
    Prop where
  roots : ∀ a ∈ sinks, a ∈ s.2 ∨ a ∈ s.1
  closed : ∀ a ∈ s.2, ∀ d, Depends nodes a d → d ∈ s.2 ∨ d ∈ s.1
  sound : ∀ a, a ∈ s.2 ∨ a ∈ s.1 → ∃ root ∈ sinks, ReflTransGen (Depends nodes) root a

/-- What the search finds. -/
def Finds (nodes : Table Node) (sinks : List String) : Result Names → Prop
  | .ok connected =>
    ∀ a, a ∈ connected ↔ ∃ root ∈ sinks, ReflTransGen (Depends nodes) root a
  | .error _ => False

/-- What the sinks are made from is declared. -/
theorem declared_of_reach (hclosed : Closed nodes) (hsinks : ∀ a ∈ sinks, ∃ n, nodes[a]? = some n)
    {a : String} (h : ∃ root ∈ sinks, ReflTransGen (Depends nodes) root a) :
    ∃ n, nodes[a]? = some n := by
  obtain ⟨root, hroot, hreach⟩ := h
  cases hreach with
  | refl => exact hsinks a hroot
  | tail _ hdep => exact hclosed _ _ hdep

/-- A turn that keeps what is found or on the stack, and puts the dependencies of what it finds on
the stack. -/
theorem Searched.move {s s' : List String × Names} (h : Searched nodes sinks s)
    (hkeep : ∀ a, a ∈ s.2 ∨ a ∈ s.1 → a ∈ s'.2 ∨ a ∈ s'.1)
    (hfound : ∀ a ∈ s'.2, a ∈ s.2 ∨ ∀ d, Depends nodes a d → d ∈ s'.1)
    (hsound : ∀ a, a ∈ s'.2 ∨ a ∈ s'.1 → (a ∈ s.2 ∨ a ∈ s.1) ∨
      ∃ b, (b ∈ s.2 ∨ b ∈ s.1) ∧ Depends nodes b a) : Searched nodes sinks s' := by
  refine ⟨fun a ha => hkeep a (h.roots a ha), fun a ha d hd => ?_, fun a ha => ?_⟩
  · rcases hfound a ha with ha | ha
    · exact hkeep d (h.closed a ha d hd)
    · exact .inr (ha d hd)
  · rcases hsound a ha with ha | ⟨b, hb, hab⟩
    · exact h.sound a ha
    · obtain ⟨root, hroot, hreach⟩ := h.sound b hb
      exact ⟨root, hroot, hreach.tail hab⟩

theorem traverse_turns (hclosed : Closed nodes)
    (hsinks : ∀ a ∈ sinks, ∃ n, nodes[a]? = some n) (s : List String × Names)
    (h : Searched nodes sinks s) :
    Turns (traverse nodes) (Searched nodes sinks) (Finds nodes sinks) s := by
  obtain ⟨stack, connected⟩ := s
  cases stack with
  | nil =>
    refine reached_iff (· ∈ sinks) (· ∈ connected) (fun a ha => ?_)
      (fun a d ha hd => ?_) fun a ha => h.sound a (.inl ha)
    · exact (h.roots a ha).resolve_right List.not_mem_nil
    · exact (h.closed a ha d hd).resolve_right List.not_mem_nil
  | cons id stack =>
    unfold Turns traverse
    dsimp only
    by_cases hid : id ∈ connected
    · rw [if_pos (Std.ExtTreeSet.mem_iff_contains.mp hid)]
      refine h.move (fun a ha => ?_) (fun a ha => .inl ha) fun a ha => .inl ?_
      · rcases ha with ha | ha
        · exact .inl ha
        · rcases List.mem_cons.mp ha with rfl | ha
          · exact .inl hid
          · exact .inr ha
      · exact ha.imp_right (List.mem_cons_of_mem _)
    · rw [if_neg (fun hc => hid (Std.ExtTreeSet.mem_iff_contains.mpr hc))]
      have hreach := h.sound id (.inr List.mem_cons_self)
      obtain ⟨n, hn⟩ := declared_of_reach hclosed hsinks hreach
      rw [hn]
      refine h.move (fun a ha => ?_) (fun a ha => ?_) fun a ha => ?_
      · simp only [Names.mem_insert, List.mem_append, List.mem_reverse]
        rcases ha with ha | ha
        · exact .inl (.inr ha)
        · rcases List.mem_cons.mp ha with rfl | ha
          · exact .inl (.inl rfl)
          · exact .inr (.inr ha)
      · rcases Names.mem_insert.mp ha with rfl | ha
        · right
          rintro d ⟨m, hm, hd⟩
          obtain rfl := Option.some.inj (hn.symm.trans hm)
          exact List.mem_append_left _ (List.mem_reverse.mpr hd)
        · exact .inl ha
      · simp only [Names.mem_insert, List.mem_append, List.mem_reverse] at ha
        rcases ha with (rfl | ha) | ha | ha
        · exact .inl (.inr List.mem_cons_self)
        · exact .inl (.inl ha)
        · exact .inr ⟨id, .inr List.mem_cons_self, n, hn, ha⟩
        · exact .inl (.inr (List.mem_cons_of_mem _ ha))

/-- Where one summand of a sum falls by `c` and none grows, the sum falls by `c`. -/
theorem sum_map_add_le {α : Type} {f g : α → Nat} {c : Nat} {x : α} :
    ∀ {l : List α}, (∀ y, f y ≤ g y) → f x + c ≤ g x → x ∈ l →
      (l.map f).sum + c ≤ (l.map g).sum
  | [], _, _, hmem => absurd hmem List.not_mem_nil
  | y :: l, hle, hx, hmem => by
    have hrest : (l.map f).sum ≤ (l.map g).sum := List.sum_le_sum fun z _ => hle z
    rw [List.map_cons, List.map_cons, List.sum_cons, List.sum_cons]
    rcases List.mem_cons.mp hmem with rfl | hmem
    · omega
    · have := sum_map_add_le hle hx hmem
      have := hle y
      omega

theorem traverse_smaller (s s' : List String × Names)
    (h : traverse nodes s = .ok (.again s')) :
    s'.1.length + unvisited nodes s'.2 < s.1.length + unvisited nodes s.2 := by
  obtain ⟨stack, connected⟩ := s
  cases stack with
  | nil => cases h
  | cons id stack =>
    unfold traverse at h
    dsimp only at h
    split at h
    · cases h
      simp only [List.length_cons]
      omega
    · rename_i hid
      simp only [bind_eq_ok, expect_eq_ok, pure_eq_ok, Turn.again.injEq] at h
      obtain ⟨n, hn, rfl⟩ := h
      have hsum : unvisited nodes (connected.insert id) + n.dependencies.length ≤
          unvisited nodes connected := by
        refine sum_map_add_le (x := (id, n)) (fun e => ?_) ?_ (Table.mem_toList_iff_get.mpr hn)
        · by_cases he : connected.contains e.1 = true
          · have : (connected.insert id).contains e.1 = true := by
              rw [← Std.ExtTreeSet.mem_iff_contains] at he ⊢
              exact Names.mem_insert.mpr (.inr he)
            simp [he, this]
          · simp only [he]
            split
            · exact Nat.zero_le _
            · exact Nat.le_refl _
        · have : (connected.insert id).contains id = true :=
            Std.ExtTreeSet.mem_iff_contains.mp (Names.mem_insert.mpr (.inl rfl))
          simp [this, hid]
      simp only [List.length_append, List.length_reverse, List.length_cons]
      omega

/-- **The search ends, with what the sinks are made from.** -/
theorem connect_spec (hclosed : Closed nodes) (hsinks : ∀ a ∈ sinks, ∃ n, nodes[a]? = some n) :
    Finds nodes sinks (connect nodes sinks) := by
  refine loop_rule (fun s => s.1.length + unvisited nodes s.2) traverse_smaller
    (traverse_turns hclosed hsinks) ?_ ⟨fun a ha => .inr (List.mem_reverse.mpr ha), fun a ha => ?_,
      fun a ha => ⟨a, ?_, .refl⟩⟩
  · simp only [List.length_reverse]
    omega
  · exact absurd ha Std.ExtTreeSet.not_mem_empty
  · exact List.mem_reverse.mp (ha.resolve_left Std.ExtTreeSet.not_mem_empty)

theorem connect_eq_ok (hclosed : Closed nodes) (hsinks : ∀ a ∈ sinks, ∃ n, nodes[a]? = some n) :
    ∃ connected, connect nodes sinks = .ok connected ∧
      ∀ a, a ∈ connected ↔ ∃ root ∈ sinks, ReflTransGen (Depends nodes) root a := by
  have hs := connect_spec hclosed hsinks
  generalize connect nodes sinks = result at hs
  cases result with
  | ok connected => exact ⟨connected, rfl, hs⟩
  | error e => exact hs.elim

/-- A set of declared names of the table's size is all of them. -/
theorem size_eq_iff {connected : Names} (hsub : ∀ a ∈ connected, ∃ n, nodes[a]? = some n) :
    connected.size = nodes.size ↔ ∀ a n, nodes[a]? = some n → a ∈ connected := by
  have hsubset : connected.toList ⊆ nodes.keys := fun a ha =>
    Table.mem_keys_iff_get.mpr (hsub a (Names.mem_toList.mp ha))
  have hsubperm := Names.nodup_toList.subperm hsubset
  rw [← Std.ExtTreeSet.length_toList, ← Std.ExtTreeMap.length_keys]
  constructor
  · intro hlen a n hn
    have hperm := hsubperm.perm_of_length_le hlen.ge
    exact Names.mem_toList.mp (hperm.mem_iff.mpr (Table.mem_keys_iff_get.mpr ⟨n, hn⟩))
  · intro hall
    refine Nat.le_antisymm hsubperm.length_le (List.Subperm.length_le ?_)
    refine List.Nodup.subperm (Table.sorted_keys.imp fun hlt => Table.ne_of_lt hlt) fun a ha => ?_
    obtain ⟨n, hn⟩ := Table.mem_keys_iff_get.mp ha
    exact Names.mem_toList.mpr (hall a n hn)

end Search

/-! ## Admission -/

section Admission

variable {g : Graph}

theorem unique_iff :
    (g.nodes.Pairwise fun a b => a.id ≠ b.id) ↔ (g.nodes.map Node.id).Nodup := by
  rw [List.Nodup, List.pairwise_map]

theorem get_iff_declares (h : (g.nodes.map Node.id).Nodup) {id : String} {n : Node} :
    (tableOf g.nodes)[id]? = some n ↔ g.Declares id n := by
  refine ⟨mem_of_get_tableOf, ?_⟩
  rintro ⟨hmem, rfl⟩
  exact get_tableOf (unique_iff.mpr h) hmem

theorem depends_iff (h : (g.nodes.map Node.id).Nodup) (a b : String) :
    Depends (tableOf g.nodes) a b ↔ g.DependsOn a b := by
  simp only [Depends, Graph.DependsOn, get_iff_declares h]

theorem depends_eq (h : (g.nodes.map Node.id).Nodup) :
    Depends (tableOf g.nodes) = g.DependsOn :=
  funext fun a => funext fun b => propext (depends_iff h a b)

/-- The checks up to the sort, which make the table the graph's. -/
def Graph.Declared (g : Graph) : Prop :=
  (g.nodes.map Node.id).Nodup ∧ ∀ n ∈ g.nodes, n.dependencies.Nodup ∧
    ∀ d ∈ n.dependencies, d ≠ n.id ∧ ∃ m, g.Declares d m

theorem declared_of_bind (hunique : (g.nodes.map Node.id).Nodup)
    (hbind : ∀ n ∈ g.nodes, n.dependencies.Nodup ∧ ∀ d ∈ n.dependencies,
      identifier d = true ∧ d ≠ n.id ∧ (tableOf g.nodes).contains d = true) : g.Declared := by
  refine ⟨hunique, fun n hn => ⟨(hbind n hn).1, fun d hd => ?_⟩⟩
  obtain ⟨-, hne, hcontains⟩ := (hbind n hn).2 d hd
  obtain ⟨m, hm, rfl⟩ := contains_tableOf.mp hcontains
  exact ⟨hne, m, hm, rfl⟩

theorem Graph.Declared.dependencies (h : g.Declared) {n : Node} (hn : n ∈ g.nodes) :
    ∀ d ∈ n.dependencies, ∃ m, (tableOf g.nodes)[d]? = some m := fun d hd => by
  obtain ⟨-, m, hm⟩ := (h.2 n hn).2 d hd
  exact ⟨m, (get_iff_declares h.1).mpr hm⟩

theorem Graph.Declared.closed (h : g.Declared) : Closed (tableOf g.nodes) := by
  rintro a d ⟨n, hn, hd⟩
  exact h.dependencies (mem_of_get_tableOf hn).1 d hd

/-- The ids of the nodes that write artifacts. -/
def Graph.sinks (g : Graph) : List String :=
  (g.nodes.filter fun node => node.kind == .artifactWrite).map Node.id

theorem mem_sinks {id : String} :
    id ∈ g.sinks ↔ ∃ n ∈ g.nodes, n.kind = .artifactWrite ∧ n.id = id := by
  simp only [Graph.sinks, List.mem_map, List.mem_filter, beq_iff_eq, and_assoc]

theorem Graph.Declared.sinks (h : g.Declared) :
    ∀ a ∈ g.sinks, ∃ n, (tableOf g.nodes)[a]? = some n := by
  intro a ha
  obtain ⟨n, hn, -, rfl⟩ := mem_sinks.mp ha
  exact ⟨n, get_tableOf (unique_iff.mpr h.1) hn⟩

theorem typed_iff (h : g.Declared) {n : Node} (hn : n ∈ g.nodes)
    (hlen : n.inputTypes.length = n.dependencies.length) :
    checkContract (tableOf g.nodes) n = .ok () ↔ g.Typed n := by
  rw [checkContract_eq_ok (h.dependencies hn)]
  simp only [get_iff_declares h.1, Graph.Typed]
  cases n.kind with
  | fileRead =>
    simp only [Kind.contract, Nat.zero_le, true_and, Nat.le_zero_eq, List.length_eq_zero_iff]
    constructor
    · rintro ⟨hdeps, hout, -⟩
      exact ⟨hdeps, hout⟩
    · rintro ⟨hdeps, hout⟩
      rw [hdeps, List.length_nil, List.length_eq_zero_iff] at hlen
      rw [hdeps, hlen]
      simp [hout]
  | deterministicCalculate =>
    simp only [Kind.contract, Option.some.injEq, Option.getD_some]
    tauto
  | artifactWrite =>
    have hone : (1 ≤ n.dependencies.length ∧ n.dependencies.length ≤ 1) ↔
        n.dependencies.length = 1 := by omega
    simp only [Kind.contract, Option.some.injEq, Option.getD_some, hone]
    tauto

/-- The search from the sinks finds every node exactly when every node leads to a sink. -/
theorem used_iff (h : g.Declared) {connected : Names}
    (hc : ∀ a, a ∈ connected ↔ ∃ root ∈ g.sinks, ReflTransGen (Depends (tableOf g.nodes)) root a) :
    connected.size = (tableOf g.nodes).size ↔ ∀ n ∈ g.nodes, ∃ s ∈ g.nodes,
      s.kind = .artifactWrite ∧ ReflTransGen (fun a b => g.DependsOn b a) n.id s.id := by
  have hreach : ∀ a, a ∈ connected ↔ ∃ s ∈ g.nodes, s.kind = .artifactWrite ∧
      ReflTransGen (fun a b => g.DependsOn b a) a s.id := by
    intro a
    rw [hc a, depends_eq h.1]
    constructor
    · rintro ⟨_, hroot, hreach⟩
      obtain ⟨s, hs, hkind, rfl⟩ := mem_sinks.mp hroot
      exact ⟨s, hs, hkind, reflTransGen_swap.mpr hreach⟩
    · rintro ⟨s, hs, hkind, hreach⟩
      exact ⟨s.id, mem_sinks.mpr ⟨s, hs, hkind, rfl⟩, reflTransGen_swap.mp hreach⟩
  rw [size_eq_iff fun a ha => declared_of_reach h.closed h.sinks ((hc a).mp ha)]
  simp only [get_iff_declares h.1, hreach]
  constructor
  · exact fun hall n hn => hall n.id n ⟨hn, rfl⟩
  · rintro hall a n ⟨hn, rfl⟩
    exact hall n hn

theorem nodes_eq_keys (h : g.Declared) : (tableOf g.nodes).keys.Perm (g.nodes.map Node.id) := by
  refine (List.perm_ext_iff_of_nodup (Table.sorted_keys.imp fun hlt => Table.ne_of_lt hlt)
    h.1).mpr fun id => ?_
  simp only [Table.mem_keys_iff_get, get_iff_declares h.1, List.mem_map, Graph.Declares]

/-- **A graph that passes is a closed typed DAG in bounds, and comes out sorted.** -/
theorem admitted_of_ok {sha256 : Bytes → Bytes} {v : Validation}
    (h : validate sha256 g = .ok v) : (g.InBounds ∧ g.ClosedDag) ∧
      v.order.Perm (g.nodes.map Node.id) ∧ Topological g.DependsOn v.order := by
  simp only [validate, bind_eq_ok, refuseIf_eq_ok, Bool.or_eq_false_iff, bne_eq_false_iff_eq,
    Bool.not_eq_false', decide_eq_false_iff_not, declareAll_eq_ok, forM_eq_ok,
    bindDependencies_eq_ok, pure_eq_ok, unique_iff] at h
  obtain ⟨_, ⟨⟨⟨⟨hschema, hprofile⟩, hgraphId⟩, hnodes⟩, hmax⟩, _, ⟨hbounds, hunique, rfl⟩, _, hbind,
    order, horder, _, htyped, _, hsinks, connected, hconnected, _, hsize, rfl⟩ := h
  have hdeclared := declared_of_bind hunique hbind
  obtain ⟨hperm, hsorted⟩ := sort_eq_ok hdeclared.closed horder
  obtain ⟨_, hc, hreach⟩ := connect_eq_ok hdeclared.closed hdeclared.sinks
  obtain rfl : connected = _ := Except.ok.inj (hconnected.symm.trans hc)
  have hpos : 0 < g.nodes.length := List.length_pos_of_ne_nil fun he => by simp [he] at hnodes
  rw [depends_eq hunique] at hsorted
  refine ⟨⟨⟨hschema, hprofile, hgraphId, ⟨hpos, by omega⟩, fun n hn => (hbounds n hn).1,
    fun n hn => (hbounds n hn).2⟩, ⟨hunique, hdeclared.2, ?_, fun n hn => ?_, ?_, ?_⟩⟩,
    hperm.trans (nodes_eq_keys hdeclared), hsorted⟩
  · rw [← depends_eq hunique]
    exact (sort_ok_iff hdeclared.closed).mp ⟨order, horder⟩
  · exact (typed_iff hdeclared hn (hbounds n hn).2.2).mp (htyped n hn)
  · obtain ⟨id, hid⟩ := List.exists_mem_of_ne_nil g.sinks fun he => by
      rw [Graph.sinks] at he
      simp [he] at hsinks
    obtain ⟨n, hn, hkind, -⟩ := mem_sinks.mp hid
    exact ⟨n, hn, hkind⟩
  · exact (used_iff hdeclared hreach).mp hsize

/-- **A closed typed DAG in bounds passes.** -/
theorem ok_of_admitted (sha256 : Bytes → Bytes) (hb : g.InBounds) (h : g.ClosedDag) :
    ∃ v, validate sha256 g = .ok v := by
  have hdeclared : g.Declared := ⟨h.unique, h.closed⟩
  have hacyclic := h.acyclic
  rw [← depends_eq h.unique] at hacyclic
  obtain ⟨order, horder⟩ := (sort_ok_iff hdeclared.closed).mpr hacyclic
  obtain ⟨connected, hconnected, hreach⟩ := connect_eq_ok hdeclared.closed hdeclared.sinks
  simp only [validate, bind_eq_ok, refuseIf_eq_ok, Bool.or_eq_false_iff, bne_eq_false_iff_eq,
    Bool.not_eq_false', decide_eq_false_iff_not, declareAll_eq_ok, forM_eq_ok,
    bindDependencies_eq_ok, pure_eq_ok, unique_iff]
  refine ⟨_, (), ⟨⟨⟨⟨hb.schema, hb.profile⟩, hb.graphId⟩, ?_⟩, ?_⟩, tableOf g.nodes,
    ⟨fun n hn => ⟨hb.ids n hn, hb.inputs n hn⟩, h.unique, rfl⟩, (), fun n hn => ⟨(h.closed n hn).1,
      fun d hd => ?_⟩, order, horder, (), fun n hn => ?_, (), ?_, connected, hconnected, (), ?_, rfl⟩
  · exact List.isEmpty_eq_false_iff.mpr (List.ne_nil_of_length_pos hb.nodes.1)
  · have := hb.nodes.2
    omega
  · obtain ⟨hne, m, hm, rfl⟩ := (h.closed n hn).2 d hd
    exact ⟨hb.ids m hm, hne, contains_tableOf.mpr ⟨m, hm, rfl⟩⟩
  · exact (typed_iff hdeclared hn (hb.inputs n hn).2).mpr (h.typed n hn)
  · obtain ⟨n, hn, hkind⟩ := h.sink
    refine List.isEmpty_eq_false_iff.mpr (List.ne_nil_of_mem (a := n.id) ?_)
    exact mem_sinks.mpr ⟨n, hn, hkind, rfl⟩
  · exact (used_iff hdeclared hreach).mpr h.used

/-- By the time a table is indexed, its keys have been checked. -/
theorem noPanic_validate (sha256 : Bytes → Bytes) (g : Graph) : NoPanic (validate sha256 g) := by
  unfold validate
  refine noPanic_bind inferInstance fun _ _ => noPanic_bind ?_ fun nodes hnodes => ?_
  · exact noPanic_foldlM (fun t n => by unfold declare; infer_instance) _ _
  obtain ⟨-, hunique, rfl⟩ := declareAll_eq_ok.mp hnodes
  refine noPanic_bind (noPanic_forM fun n _ => ?_) fun _ hbind => ?_
  · unfold bindDependencies
    have := noPanic_foldlM (fun s d => by unfold bindDependency; infer_instance)
      n.dependencies (∅ : Names) (f := bindDependency (tableOf g.nodes) n)
    infer_instance
  simp only [forM_eq_ok, bindDependencies_eq_ok] at hbind
  have hdeclared := declared_of_bind (unique_iff.mp hunique) hbind
  refine noPanic_bind (noPanic_sort hdeclared.closed) fun _ _ => ?_
  refine noPanic_bind (noPanic_forM fun n hn => noPanic_checkContract
    (hdeclared.dependencies hn)) fun _ _ => ?_
  refine noPanic_bind inferInstance fun _ _ => ?_
  obtain ⟨connected, hconnected, -⟩ := connect_eq_ok hdeclared.closed hdeclared.sinks
  rw [Graph.sinks] at hconnected
  rw [hconnected]
  exact noPanic_bind inferInstance fun _ _ => inferInstance

/-- **Workflow admission accepts exactly the closed typed DAGs in bounds**, lists every node once
and after its dependencies, and comes to an end: neither loop needs more turns than it is given,
whatever the table, cycles included. -/
theorem validate_iff (sha256 : Bytes → Bytes) (g : Graph) :
    ((∃ v, validate sha256 g = .ok v) ↔ g.InBounds ∧ g.ClosedDag) ∧
    (∀ v, validate sha256 g = .ok v →
      v.order.Perm (g.nodes.map Node.id) ∧ Topological g.DependsOn v.order) ∧
    (∀ m, validate sha256 g ≠ .error (.panicked m)) ∧
    (∀ nodes : Table Node,
      (turns peel (nodes.size + 1) (dependencySets nodes, [])).isSome = true) ∧
    ∀ (nodes : Table Node) (sinks : List String), (turns (traverse nodes)
      (sinks.length + unvisited nodes ∅ + 1) (sinks.reverse, ∅)).isSome = true := by
  refine ⟨⟨fun ⟨v, hv⟩ => (admitted_of_ok hv).1, fun ⟨hb, h⟩ => ok_of_admitted sha256 hb h⟩,
    fun v hv => (admitted_of_ok hv).2, (noPanic_validate sha256 g).out, fun nodes => ?_,
    fun nodes sinks => ?_⟩
  · refine turns_isSome (fun s => s.1.size) peel_smaller _ _ ?_
    dsimp only
    rw [dependencySets, Std.ExtTreeMap.size_map]
    exact Nat.lt_succ_self _
  · refine turns_isSome (fun s => s.1.length + unvisited nodes s.2) traverse_smaller
      _ _ ?_
    simp only [List.length_reverse]
    omega

end Admission

end LumaOS.Workflow
