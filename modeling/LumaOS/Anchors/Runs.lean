import LumaOS.Anchors.Calls

/-!
# Every interleaving of the calls on one anchor

Any number of calls on an anchor that begins empty, one read or swap at a time, with any of them
failing and any call cut off anywhere. Under a namespace the anchor only moves ahead (`Ahead`): what
it held and holds no more, it never holds again. `Holds` is the invariant.

* **`anchors_never_fork`**: only commits change the anchor, each as its own plan says; trust
  checkpoints have equal generation and sequence; of the swaps from one checkpoint one takes place;
  an authority is returned only by a call that saw the anchor hold its checkpoint; and
  `ensure_current` raises for a checkpoint that the anchor has left.
-/

namespace LumaOS.Anchors

open LumaOS.Base LumaOS.Text

/-! ## Moving ahead -/

/-- How far a namespace is. -/
def level (current : Option DigestCheckpoint) : Nat := (current.map (·.generation)).getD 0

/-- The same checkpoint, or one of a later generation. -/
def Ahead (current later : Option DigestCheckpoint) : Prop :=
  current = later ∨ level current < level later

section Ahead

variable {a b c : Option DigestCheckpoint}

theorem Ahead.refl (a : Option DigestCheckpoint) : Ahead a a := .inl rfl

theorem Ahead.level_le (h : Ahead a b) : level a ≤ level b := by
  rcases h with rfl | h
  · exact Nat.le_refl _
  · exact Nat.le_of_lt h

theorem Ahead.trans (h : Ahead a b) (h' : Ahead b c) : Ahead a c := by
  rcases h with rfl | h
  · exact h'
  · exact .inr (Nat.lt_of_lt_of_le h h'.level_le)

theorem Ahead.lt_of_ne (h : Ahead a b) (hne : a ≠ b) : level a < level b := h.resolve_left hne

/-- What was left is not reached again. -/
theorem Ahead.ne (h : Ahead a b) (hne : a ≠ b) (h' : Ahead b c) : a ≠ c := by
  rintro rfl
  exact absurd (h.lt_of_ne hne) (Nat.not_lt.mpr h'.level_le)

end Ahead

section Steps

variable {request : Request} {anchor anchor' : Anchor} {expected : Option DigestCheckpoint}
  {next : DigestCheckpoint}

theorem Swapped.ahead (h : Swapped expected next anchor anchor') (n : String) :
    Ahead anchor[n]? anchor'[n]? := by
  rw [h.after, Table.get_insert]
  split
  · rename_i hn
    subst hn
    refine .inr ?_
    rw [h.before]
    show level expected < next.generation
    rw [h.replaces.generation]
    exact Nat.lt_succ_self _
  · exact Ahead.refl _

/-- The one plan and the one checkpoint of a swap. -/
theorem Advance.swapped (h : Advance request anchor anchor') :
    ∃ expected next, Swapped expected next anchor anchor' := by
  cases h with
  | trust _ _ _ h | catalog _ _ _ h => exact ⟨_, _, h⟩

theorem Advance.ahead (h : Advance request anchor anchor') (n : String) :
    Ahead anchor[n]? anchor'[n]? := by
  obtain ⟨expected, next, hswapped⟩ := h.swapped
  exact hswapped.ahead n

theorem Allowed.ahead {phase phase' : Phase} {action : Action}
    (h : Allowed request phase action anchor anchor' phase') (n : String) :
    Ahead anchor[n]? anchor'[n]? := by
  cases h with
  | keep | see _ => exact Ahead.refl _
  | swap h => exact h.ahead n

end Steps

/-! ## The invariant -/

/-- The action changes what the anchor holds under `n`. -/
def Changes (n : String) (t : Taken Action Anchor) : Prop := t.before[n]? ≠ t.after[n]?

/-- The action is one of a `commit_trust_bundle` of `plan`. -/
def CommitsTrust (requests : List Request) (t : Taken Action Anchor)
    (plan : TrustBundleAdmissionPlan) : Prop :=
  ∃ atCommit atEnd, requests[t.call]? = some (.commitTrust plan atCommit atEnd)

/-- Only trust commits have changed what is under `n`: its checkpoints are trust checkpoints. -/
def TrustOnly (requests : List Request) (history : List (Taken Action Anchor)) (n : String) : Prop :=
  ∀ t ∈ history, Changes n t → ∃ plan, CommitsTrust requests t plan

/-- A checkpoint of a chain of bundles: generation and sequence agree, and the digest is the one of
a bundle that was committed. -/
structure Chained (requests : List Request) (history : List (Taken Action Anchor)) (n : String)
    (c : DigestCheckpoint) : Prop where
  generation : c.generation = c.sequence
  committed : ∃ t ∈ history, t.after[n]? = some c ∧
    ∃ plan, CommitsTrust requests t plan ∧ plan.bundle.digest = c.artifactSha256

/-- **The invariant of a run.** -/
structure Holds (requests : List Request) (history : List (Taken Action Anchor)) (anchor : Anchor)
    (phases : Nat → Phase) : Prop where
  advanced : ∀ t ∈ history, t.before = t.after ∨ t.label = .swap ∧ ∃ request,
    requests[t.call]? = some request ∧ Advance request t.before t.after
  seen : ∀ i n c, phases i = .saw n c → ∃ t ∈ history, t.call = i ∧ t.before[n]? = some c
  ahead : ∀ t ∈ history, ∀ n : String, Ahead t.after[n]? anchor[n]?
  ordered : history.Pairwise fun t u => ∀ n : String, Ahead t.after[n]? u.before[n]?
  chained : ∀ n, TrustOnly requests history n → ∀ c, anchor[n]? = some c →
    Chained requests history n c

/-- The abstract call of request `i`. -/
def AllowedAt (requests : List Request) (i : Nat) (phase : Phase) (action : Action)
    (anchor anchor' : Anchor) (phase' : Phase) : Prop :=
  ∃ request, requests[i]? = some request ∧ Allowed request phase action anchor anchor' phase'

def ReturnedAt (requests : List Request) (i : Nat) (phase : Phase) (r : Except Failure Outcome) :
    Prop :=
  ∀ request outcome, requests[i]? = some request → r = .ok outcome →
    Returned request phase outcome

variable {lib : CatalogLibrary} {requests : List Request} {request : Request}
  {history : List (Taken Action Anchor)} {anchor anchor' : Anchor} {phases : Nat → Phase}
  {phase phase' : Phase} {action : Action} {i : Nat}

theorem Chained.append {n : String} {c : DigestCheckpoint} (h : Chained requests history n c)
    (more : List (Taken Action Anchor)) : Chained requests (history ++ more) n c := by
  obtain ⟨t, ht, hcommitted⟩ := h.committed
  exact ⟨h.generation, t, List.mem_append_left _ ht, hcommitted⟩

/-- A chain of bundles goes on by a commit of its next bundle. -/
theorem Holds.chain (h : Holds requests history anchor phases)
    (hrequest : requests[i]? = some request)
    (hallowed : Allowed request phase action anchor anchor' phase') (n : String)
    (honly : TrustOnly requests (history ++ [⟨i, action, anchor, anchor'⟩]) n)
    {c : DigestCheckpoint} (hc : anchor'[n]? = some c) :
    Chained requests (history ++ [⟨i, action, anchor, anchor'⟩]) n c := by
  have hbefore := h.chained n fun t ht => honly t (List.mem_append_left _ ht)
  by_cases hchanges : anchor[n]? = anchor'[n]?
  · exact (hbefore c (hchanges.trans hc)).append _
  · have hlast : (⟨i, action, anchor, anchor'⟩ : Taken Action Anchor) ∈
        history ++ [⟨i, action, anchor, anchor'⟩] :=
      List.mem_append_right _ (List.mem_singleton.mpr rfl)
    obtain ⟨plan, atCommit, atEnd, hplan⟩ := honly _ hlast hchanges
    obtain rfl : request = .commitTrust plan atCommit atEnd :=
      Option.some.inj (hrequest.symm.trans hplan)
    cases hallowed with
    | keep | see _ => exact absurd rfl hchanges
    | swap hadvance =>
      cases hadvance with
      | @trust _ _ _ _ _ next _ _ hcontinues hswapped =>
        rw [hswapped.after, Table.get_insert] at hc hchanges
        split at hc
        · rename_i hn
          cases hc
          subst hn
          refine ⟨?_, _, hlast, ?_, plan, ⟨atCommit, atEnd, hplan⟩, hcontinues.artifact.symm⟩
          · rw [hcontinues.generation, hcontinues.sequence]
            cases hexpected : plan.expectedCheckpoint with
            | none => rfl
            | some current =>
              have := (hbefore current (hswapped.before.trans hexpected)).generation
              simp [nextGeneration, this]
          · rw [hswapped.after]
            exact Table.get_insert_self
        · rename_i hn
          rw [if_neg hn] at hchanges
          exact absurd rfl hchanges

theorem keeps_holds : Pool.Keeps (AllowedAt requests) (fun _ _ _ => True) (fun _ => True)
    (Holds requests) where
  known _ _ := trivial
  step := by
    rintro history anchor phases h i action anchor' phase' - ⟨request, hrequest, hallowed⟩
    refine ⟨fun t ht => ?_, fun j n c hj => ?_, fun t ht n => ?_, ?_, fun n honly c hc => ?_⟩
    · rcases List.mem_append.mp ht with ht | ht
      · exact h.advanced t ht
      · rw [List.mem_singleton.mp ht]
        cases hallowed with
        | keep | see _ => exact .inl rfl
        | swap hadvance => exact .inr ⟨rfl, request, hrequest, hadvance⟩
    · by_cases hij : j = i
      · subst hij
        rw [Function.update_self] at hj
        have hlast : (⟨j, action, anchor, anchor'⟩ : Taken Action Anchor) ∈
            history ++ [⟨j, action, anchor, anchor'⟩] :=
          List.mem_append_right _ (List.mem_singleton.mpr rfl)
        cases hallowed with
        | keep =>
          obtain ⟨t, ht, hseen⟩ := h.seen j n c hj
          exact ⟨t, List.mem_append_left _ ht, hseen⟩
        | see hsees =>
          subst hj
          exact ⟨_, hlast, rfl, hsees⟩
        | swap _ =>
          obtain ⟨t, ht, hseen⟩ := h.seen j n c hj
          exact ⟨t, List.mem_append_left _ ht, hseen⟩
      · rw [Function.update_of_ne hij] at hj
        obtain ⟨t, ht, hseen⟩ := h.seen j n c hj
        exact ⟨t, List.mem_append_left _ ht, hseen⟩
    · rcases List.mem_append.mp ht with ht | ht
      · exact (h.ahead t ht n).trans (hallowed.ahead n)
      · rw [List.mem_singleton.mp ht]
        exact Ahead.refl _
    · rw [List.pairwise_append]
      refine ⟨h.ordered, List.pairwise_singleton .., fun t ht u hu n => ?_⟩
      rw [List.mem_singleton.mp hu]
      exact h.ahead t ht n
    · exact h.chain hrequest hallowed n honly hc

/-! ## Runs -/

/-- The calls of the requests on an empty anchor. -/
def pool (lib : CatalogLibrary) (requests : List Request) : Pool Action Anchor Failure Outcome :=
  .start ∅ (requests.map (Request.call lib))

/-- Calls of the requests, in some phases, on an anchor where the invariant holds. -/
abbrev TracksRequests (requests : List Request) :=
  Pool.Tracks (AllowedAt requests) (fun _ _ _ => True) (ReturnedAt requests)

theorem tracks_pool :
    TracksRequests requests (Holds requests) (pool lib requests) fun _ => .idle where
  calls i call hcall := by
    unfold pool Pool.start at hcall
    rw [List.getElem?_map] at hcall
    obtain ⟨request, hrequest, rfl⟩ := Option.map_eq_some_iff.mp hcall
    refine Prog.Follows.mono ((leads_request lib request).allow fun _ _ _ _ _ h =>
      ⟨request, hrequest, h⟩) fun phase result h request' outcome hrequest' houtcome => ?_
    rw [hrequest] at hrequest'
    cases hrequest'
    exact h outcome houtcome
  holds := by
    refine ⟨fun _ ht => absurd ht List.not_mem_nil, fun i n c hi => ?_,
      fun _ ht => absurd ht List.not_mem_nil, .nil, fun n _ c hc => ?_⟩
    · cases hi
    · rw [show (pool lib requests).shared = ∅ from rfl] at hc
      simp at hc

theorem run_tracks (lib : CatalogLibrary) (requests : List Request) (ts : List (Pool.Turn Failure)) :
    ∃ phases, TracksRequests requests (Holds requests) ((pool lib requests).run ts) phases :=
  Pool.rule keeps_holds tracks_pool ts fun _ _ => trivial

/-- What a longer run does comes after what the shorter one left. -/
theorem run_ahead (lib : CatalogLibrary) (requests : List Request)
    (ts us : List (Pool.Turn Failure)) :
    ∃ phases, TracksRequests requests (fun history anchor phases =>
      Holds requests history anchor phases ∧
      (∀ n : String, Ahead ((pool lib requests).run ts).shared[n]? anchor[n]?) ∧
      ∀ t ∈ history, t ∈ ((pool lib requests).run ts).history ∨
        ∀ n : String, Ahead ((pool lib requests).run ts).shared[n]? t.before[n]?)
      ((pool lib requests).run (ts ++ us)) phases := by
  obtain ⟨phases, h⟩ := run_tracks lib requests ts
  set base := (pool lib requests).run ts
  have hkeeps : Pool.Keeps (AllowedAt requests) (fun _ _ _ => True) (fun _ => True)
      fun history anchor phases => Holds requests history anchor phases ∧
        (∀ n : String, Ahead base.shared[n]? anchor[n]?) ∧
        ∀ t ∈ history, t ∈ base.history ∨ ∀ n : String, Ahead base.shared[n]? t.before[n]? := by
    refine ⟨fun _ _ => trivial, ?_⟩
    rintro history anchor phases ⟨h, hahead, hlater⟩ i action anchor' phase' - hallowed
    refine ⟨keeps_holds.step h trivial hallowed, fun n => ?_, fun t ht => ?_⟩
    · obtain ⟨request, -, hallowed⟩ := hallowed
      exact (hahead n).trans (hallowed.ahead n)
    · rcases List.mem_append.mp ht with ht | ht
      · exact hlater t ht
      · rw [List.mem_singleton.mp ht]
        exact .inr hahead
  rw [Pool.run_append]
  exact Pool.rule hkeeps
    ⟨h.calls, h.holds, fun n => Ahead.refl _, fun t ht => .inl ht⟩ us fun _ _ => trivial

/-- A change leaves what it changes, for good. -/
theorem Holds.once (h : Holds requests history anchor phases) :
    history.Pairwise fun t u => ∀ n, Changes n t → Changes n u → t.before[n]? ≠ u.before[n]? := by
  refine List.Pairwise.imp_of_mem ?_ h.ordered
  intro t u ht _ hahead n hchanges _
  refine Ahead.ne ?_ hchanges (hahead n)
  rcases h.advanced t ht with heq | ⟨-, request, -, hadvance⟩
  · exact absurd (by rw [heq]) hchanges
  · exact hadvance.ahead n

/-- The anchor does not come back to a checkpoint it has left. -/
theorem Holds.left_behind (h : Holds requests history anchor phases) {t : Taken Action Anchor}
    (ht : t ∈ history) {n : String} : Ahead t.before[n]? anchor[n]? := by
  refine Ahead.trans ?_ (h.ahead t ht n)
  rcases h.advanced t ht with heq | ⟨-, request, -, hadvance⟩
  · rw [heq]
    exact Ahead.refl _
  · exact hadvance.ahead n

theorem vouched_was_held {p : Pool Action Anchor Failure Outcome}
    {I : List (Taken Action Anchor) → Anchor → (Nat → Phase) → Prop}
    (h : TracksRequests requests I p phases) (hholds : Holds requests p.history p.shared phases)
    {outcome : Outcome} {c : DigestCheckpoint} (hrequest : requests[i]? = some request)
    (hdone : p.calls[i]? = some (.done (.ok outcome))) (hc : request.vouches outcome = some c) :
    ∃ t ∈ p.history, t.call = i ∧ t.before[c.nameSpace]? = some c := by
  have hreturned := h.calls i _ hdone request outcome hrequest rfl
  exact hholds.seen i _ _ (hreturned.saw c hc)

/-- **Anchored trust bundles and catalogs never roll back or fork.** For every run of any calls, in
any order and with any failures:

1. an action changes the anchor only if it is the swap of a commit, and then as its plan says;
2. under a namespace that only trust commits have changed, generation and sequence agree and the
   digest is that of a committed bundle;
3. no two changes of a namespace start from the same checkpoint, the absent one included;
4. a call that returns an authority, or for which `ensure_current` returns, saw the anchor hold
   exactly its checkpoint;
5. once the anchor has left a checkpoint, every `ensure_current` for it that has not begun raises,
   whatever happens next. -/
theorem anchors_never_fork (lib : CatalogLibrary) (requests : List Request)
    (ts : List (Pool.Turn Failure)) :
    let p := (pool lib requests).run ts
    (∀ t ∈ p.history, t.before ≠ t.after → t.label = .swap ∧ ∃ request,
      requests[t.call]? = some request ∧ Advance request t.before t.after) ∧
    (∀ n, TrustOnly requests p.history n → ∀ c, p.shared[n]? = some c →
      Chained requests p.history n c) ∧
    (p.history.Pairwise fun t u => ∀ n, Changes n t → Changes n u → t.before[n]? ≠ u.before[n]?) ∧
    (∀ i request outcome c, requests[i]? = some request →
      p.calls[i]? = some (.done (.ok outcome)) → request.vouches outcome = some c →
      ∃ t ∈ p.history, t.call = i ∧ t.before[c.nameSpace]? = some c) ∧
    ∀ i request c us result, requests[i]? = some request → request.ensures = some c →
      (∃ t ∈ p.history, t.before[c.nameSpace]? = some c) → p.shared[c.nameSpace]? ≠ some c →
      (∀ t ∈ p.history, t.call ≠ i) →
      ((pool lib requests).run (ts ++ us)).calls[i]? = some (.done result) →
      ∃ e, result = .error e := by
  intro p
  obtain ⟨phases, h⟩ := run_tracks lib requests ts
  refine ⟨fun t ht hne => (h.holds.advanced t ht).resolve_left hne, h.holds.chained, h.holds.once,
    fun i request outcome c hrequest hdone hc => vouched_was_held h h.holds hrequest hdone hc, ?_⟩
  intro i request c us result hrequest hensures hheld hleft hnew hdone
  obtain ⟨phases', h'⟩ := run_ahead lib requests ts us
  obtain ⟨hholds, -, hlater⟩ := h'.holds
  cases result with
  | error e => exact ⟨e, rfl⟩
  | ok outcome =>
    have hc := (h'.calls i _ hdone request outcome hrequest rfl).ensures c hensures
    obtain ⟨t, ht, hcall, hsaw⟩ := vouched_was_held h' hholds hrequest hdone hc
    obtain ⟨u, hu, hearlier⟩ := hheld
    have hbehind := h.holds.left_behind hu (n := c.nameSpace)
    rcases hlater t ht with ht | hafter
    · exact absurd hcall (hnew t ht)
    · rw [hearlier] at hbehind
      exact absurd hsaw.symm (hbehind.ne (Ne.symm hleft) (hafter _))

end LumaOS.Anchors
