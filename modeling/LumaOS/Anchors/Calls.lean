import LumaOS.Anchors.Catalog

/-!
# What the calls do to the anchor

A call remembers the last checkpoint it saw. It reads, or it swaps as its plan says: a trust plan
continues the chain of bundles (`Continues`), a catalog plan moves one of the two catalog namespaces
on. Every call follows this (`leads_request`); an authority is returned, and `ensure_current`
returns, only in a call that has just seen the anchor hold its checkpoint.
-/

namespace LumaOS.Anchors

open LumaOS.Base LumaOS.Text

open Prog Proc

/-- The calls on one anchor. -/
inductive Request where
  | prepareTrust (context : TrustContext) (env : TrustEnv)
  | commitTrust (plan : TrustBundleAdmissionPlan) (atCommit atEnd : TrustEnv)
  | ensureTrust (a : AnchoredTrustBundle) (env : TrustEnv)
  | prepareCatalog (request : CatalogRequest) (env : CatalogEnv)
  | commitCatalog (plan : CatalogAdmissionPlan) (atCommit atEnd : CatalogEnv)
  | ensureCatalog (a : AnchoredCatalogAdmission) (env : CatalogEnv)

/-- What the calls return. -/
inductive Outcome where
  | trustPlan (plan : TrustBundleAdmissionPlan)
  | trust (a : AnchoredTrustBundle)
  | catalogPlan (plan : CatalogAdmissionPlan)
  | catalog (a : AnchoredCatalogAdmission)
  | current

def Request.call (lib : CatalogLibrary) : Request → Call Outcome
  | prepareTrust context env => do
    let plan ← context.prepare lib.parseBundle env
    pure (.trustPlan plan)
  | commitTrust plan atCommit atEnd => do
    let a ← plan.commit lib.parseBundle atCommit atEnd
    pure (.trust a)
  | ensureTrust a env => do
    a.ensureCurrent lib.parseBundle env
    pure .current
  | prepareCatalog request env => do
    let plan ← request.prepare lib env
    pure (.catalogPlan plan)
  | commitCatalog plan atCommit atEnd => do
    let a ← plan.commit lib atCommit atEnd
    pure (.catalog a)
  | ensureCatalog a env => do
    a.ensureCurrent lib env
    pure .current

/-- The checkpoint that an `ensure_current` is about. -/
def Request.ensures : Request → Option DigestCheckpoint
  | ensureTrust a _ => some a.checkpoint
  | ensureCatalog a _ => some a.anchorCheckpoint
  | _ => none

/-- The checkpoint that a call vouches for when it returns. -/
def Request.vouches (request : Request) (outcome : Outcome) : Option DigestCheckpoint :=
  match outcome with
  | .trust a => some a.checkpoint
  | .catalog a => some a.anchorCheckpoint
  | _ => request.ensures

/-- The last checkpoint that a call saw. -/
inductive Phase where
  | idle
  | saw (nameSpace : String) (checkpoint : DigestCheckpoint)

def Phase.Sees (anchor : Anchor) : Phase → Prop
  | idle => True
  | saw nameSpace checkpoint => anchor[nameSpace]? = some checkpoint

/-- **The next checkpoint of a chain of bundles.** -/
structure Continues (bundle : SignedTrustBundle) (current : Option DigestCheckpoint)
    (next : DigestCheckpoint) : Prop where
  artifact : next.artifactSha256 = bundle.digest
  sequence : next.sequence = (current.map (·.sequence)).getD 0 + 1
  generation : next.generation = nextGeneration current
  previous : bundle.previousBundleSha256 = current.map (·.artifactSha256)

/-- **A swap that a request may do.** -/
inductive Advance : Request → Anchor → Anchor → Prop where
  | trust {plan : TrustBundleAdmissionPlan} {atCommit atEnd : TrustEnv} {anchor anchor' : Anchor}
      {next : DigestCheckpoint} (hreplacement : plan.replacementCheckpoint = some next)
      (hnamespace : next.nameSpace = plan.context.policy.anchorNamespace)
      (hcontinues : Continues plan.bundle plan.expectedCheckpoint next)
      (h : Swapped plan.expectedCheckpoint next anchor anchor') :
      Advance (.commitTrust plan atCommit atEnd) anchor anchor'
  | catalog {plan : CatalogAdmissionPlan} {atCommit atEnd : CatalogEnv} {anchor anchor' : Anchor}
      (hnamespace : catalogNamespace plan.environment = some plan.replacementCheckpoint.nameSpace)
      (hsequence : plan.replacementCheckpoint.sequence = plan.catalogSequence)
      (hartifact : plan.replacementCheckpoint.artifactSha256 = plan.catalogSha256)
      (h : Swapped plan.expectedCheckpoint plan.replacementCheckpoint anchor anchor') :
      Advance (.commitCatalog plan atCommit atEnd) anchor anchor'

/-- The abstract call. -/
inductive Allowed (request : Request) : Phase → Action → Anchor → Anchor → Phase → Prop where
  | keep {phase : Phase} {action : Action} {anchor : Anchor} :
      Allowed request phase action anchor anchor phase
  | see {phase phase' : Phase} {anchor : Anchor} (h : phase'.Sees anchor) :
      Allowed request phase .read anchor anchor phase'
  | swap {phase : Phase} {anchor anchor' : Anchor} (h : Advance request anchor anchor') :
      Allowed request phase .swap anchor anchor' phase

abbrev LeadsFor (request : Request) {α : Type} (p : Call α) (phase : Phase)
    (Q : Phase → α → Prop) : Prop :=
  p.Leads (Allowed request) (fun _ _ => True) phase Q

variable {request : Request} {phase : Phase}

/-! ## Reads -/

/-- What a call knows of a checkpoint it has read. -/
def Seen (nameSpace : String) (phase : Phase) (current : Option DigestCheckpoint) : Prop :=
  ∀ c, current = some c → phase = .saw nameSpace c ∧ c.nameSpace = nameSpace

theorem leads_read (nameSpace : String) :
    LeadsFor request (read nameSpace) phase fun phase' current =>
      ∀ c, current = some c → phase' = .saw nameSpace c := by
  refine leads_transaction (fun anchor _ => ?_) fun _ _ => .keep
  refine returns_bind_raiseIf fun _ => returns_bind_get (returns_pure ?_)
  cases hread : anchor[nameSpace]? with
  | none => exact ⟨phase, .keep, fun _ hc => by cases hc⟩
  | some c =>
    refine ⟨.saw nameSpace c, .see hread, fun _ hc => ?_⟩
    cases hc
    rfl

theorem seen_of_check {nameSpace : String} {current : Option DigestCheckpoint}
    (h : ∀ c, current = some c → phase = .saw nameSpace c)
    (hcheck : (current.any fun c => c.nameSpace != nameSpace) = false) :
    Seen nameSpace phase current := by
  rintro c rfl
  exact ⟨h c rfl, by simpa using hcheck⟩

theorem leads_readTrustCheckpoint (nameSpace : String) :
    LeadsFor request (readTrustCheckpoint nameSpace) phase (Seen nameSpace) := by
  refine leads_bind (leads_tryCatch (leads_read nameSpace) fun _ _ => leads_raise) ?_
  intro phase' current hcurrent
  exact leads_bind_raiseIf fun hcheck => leads_pure (seen_of_check hcurrent hcheck)

theorem leads_readCatalogCheckpoint (nameSpace : String) :
    LeadsFor request (readCatalogCheckpoint nameSpace) phase (Seen nameSpace) := by
  refine leads_bind (leads_tryCatch (leads_read nameSpace) fun _ _ => leads_raise) ?_
  intro phase' current hcurrent
  exact leads_bind_raiseIf fun hcheck => leads_pure (seen_of_check hcurrent hcheck)

/-! ## Swaps -/

theorem leads_compareAndSwap {expected : Option DigestCheckpoint} {replacement : DigestCheckpoint}
    (h : ∀ anchor anchor', Swapped expected replacement anchor anchor' →
      Advance request anchor anchor') :
    LeadsFor request (compareAndSwap expected replacement) phase fun _ _ => True := by
  refine leads_transaction (fun anchor _ => (returns_swapBody _ _ anchor).mono ?_) fun _ _ => .keep
  intro changed anchor' hchanged
  cases changed with
  | true => exact ⟨phase, .swap (h anchor anchor' hchanged), trivial⟩
  | false =>
    obtain rfl : anchor' = anchor := hchanged
    exact ⟨phase, .keep, trivial⟩

theorem make_eq_ok {nameSpace artifactSha256 : String} {generation sequence : Nat}
    {c : DigestCheckpoint} (h : DigestCheckpoint.make nameSpace generation sequence artifactSha256
      = .ok c) : c = ⟨nameSpace, generation, sequence, artifactSha256⟩ := by
  unfold DigestCheckpoint.make at h
  obtain ⟨_, -, h⟩ := bind_eq_ok.mp h
  obtain ⟨_, -, h⟩ := bind_eq_ok.mp h
  obtain ⟨_, -, h⟩ := bind_eq_ok.mp h
  obtain ⟨_, -, h⟩ := bind_eq_ok.mp h
  exact (pure_eq_ok.mp h).symm

/-! ## Trust bundles -/

section Trust

variable {parse : Bytes → Except Failure SignedTrustBundle} {env : TrustEnv}

theorem some_eq_ok {r : Except Failure DigestCheckpoint} {c : DigestCheckpoint}
    (h : some <$> r = .ok (some c)) : r = .ok c := by
  cases r with
  | error e => cases h
  | ok d =>
    cases h
    rfl

/-- A replacement of a bundle continues the chain. -/
theorem continues_of_replacement {bundle : SignedTrustBundle} {nameSpace : String}
    {current : Option DigestCheckpoint} {next : DigestCheckpoint}
    (h : bundle.replacement nameSpace current = .ok (some next)) :
    Continues bundle current next ∧ next.nameSpace = nameSpace := by
  cases current with
  | none =>
    obtain ⟨_, hgenesis, h⟩ := bind_eq_ok.mp h
    obtain ⟨hsequence, hprevious⟩ := Bool.or_eq_false_iff.mp (raiseIf_eq_ok.mp hgenesis)
    rw [make_eq_ok (some_eq_ok h)]
    exact ⟨⟨rfl, rfl, rfl, by simpa using hprevious⟩, rfl⟩
  | some c =>
    simp only [SignedTrustBundle.replacement] at h
    split at h
    · cases h
    · split at h
      · obtain ⟨_, -, h⟩ := bind_eq_ok.mp h
        cases h
      · obtain ⟨_, hsequence, h⟩ := bind_eq_ok.mp h
        obtain ⟨_, hprevious, h⟩ := bind_eq_ok.mp h
        rw [make_eq_ok (some_eq_ok h)]
        exact ⟨⟨rfl, by simpa using raiseIf_eq_ok.mp hsequence, rfl,
          by simpa using raiseIf_eq_ok.mp hprevious⟩, rfl⟩

/-- What a call knows of a plan it has prepared. -/
structure Prepared (context : TrustContext) (phase : Phase) (plan : TrustBundleAdmissionPlan) :
    Prop where
  seen : Seen context.policy.anchorNamespace phase plan.expectedCheckpoint
  replacement : plan.bundle.replacement context.policy.anchorNamespace plan.expectedCheckpoint
    = .ok plan.replacementCheckpoint

theorem leads_prepareTrust (context : TrustContext) :
    LeadsFor request (context.prepare parse env) phase (Prepared context) := by
  refine leads_bind_lift fun verified _ => ?_
  refine leads_bind (leads_readTrustCheckpoint _) fun phase' current hcurrent => ?_
  exact leads_bind_lift fun replacement hreplacement => leads_pure ⟨hcurrent, hreplacement⟩

theorem leads_ensureTrust (a : AnchoredTrustBundle) :
    LeadsFor request (a.ensureCurrent parse env) phase fun phase' _ =>
      phase' = .saw a.checkpoint.nameSpace a.checkpoint := by
  refine leads_bind_lift fun _ _ => ?_
  refine leads_bind (leads_tryCatch (leads_prepareTrust a.context) fun _ _ => leads_raise) ?_
  intro phase' plan hplan
  refine leads_raiseIf fun hcurrent => ?_
  simp only [Bool.or_eq_false_iff, bne_eq_false_iff_eq] at hcurrent
  obtain ⟨hphase, hnamespace⟩ := hplan.seen _ hcurrent.1.2
  rw [hphase, hnamespace]

theorem leads_revalidate (plan : TrustBundleAdmissionPlan) :
    LeadsFor request (plan.revalidate parse env) phase (Prepared plan.context) := by
  refine leads_tryCatch (leads_prepareTrust plan.context) fun phase' _ => ?_
  refine leads_bind (Q := fun _ _ => True) (leads_tryCatch ?_ ?_) ?_
  · exact (leads_readTrustCheckpoint _).mono fun _ _ _ => trivial
  · exact fun _ _ => leads_pure trivial
  · exact fun _ _ _ => leads_bind_raiseIf fun _ => leads_raise

theorem leads_settleTrust (plan : TrustBundleAdmissionPlan)
    (h : ∀ next, plan.replacementCheckpoint = some next → ∀ anchor anchor',
      Swapped plan.expectedCheckpoint next anchor anchor' → Advance request anchor anchor') :
    LeadsFor request plan.settle phase fun _ _ => True := by
  unfold TrustBundleAdmissionPlan.settle
  split
  · refine leads_bind_lift fun expected _ => ?_
    refine leads_bind (leads_readTrustCheckpoint _) fun _ _ _ => ?_
    exact leads_bind_raiseIf fun _ => leads_pure trivial
  · rename_i next hnext
    refine leads_bind (leads_tryCatch (leads_compareAndSwap (h next hnext)) ?_) ?_
    · exact fun _ _ => leads_raise
    · intro _ _ _
      refine leads_bind_raiseIf fun _ => ?_
      refine leads_bind (leads_readTrustCheckpoint _) fun _ _ _ => ?_
      exact leads_bind_raiseIf fun _ => leads_pure trivial

theorem leads_commitTrust (plan : TrustBundleAdmissionPlan) (atCommit atEnd : TrustEnv) :
    LeadsFor (.commitTrust plan atCommit atEnd) (plan.commit parse atCommit atEnd) phase
      fun phase' a => phase' = .saw a.checkpoint.nameSpace a.checkpoint := by
  refine leads_bind (leads_readTrustCheckpoint _) fun _ _ _ => ?_
  refine leads_bind_raiseIf fun _ => leads_bind_lift fun _ _ => ?_
  refine leads_bind (leads_revalidate plan) fun _ revalidated hrevalidated => ?_
  refine leads_bind (leads_readTrustCheckpoint _) fun _ _ _ => ?_
  refine leads_bind_raiseIf fun _ => leads_bind_raiseIf fun hsame => ?_
  simp only [Bool.or_eq_false_iff, bne_eq_false_iff_eq] at hsame
  obtain ⟨⟨⟨hbundle, -⟩, hexpected⟩, hreplacement⟩ := hsame
  have hplan := hrevalidated.replacement
  rw [hbundle, hexpected, hreplacement] at hplan
  refine leads_bind (leads_settleTrust plan ?_) fun _ committed _ => ?_
  · -- the plan was compared with a preparation made in this call
    intro next hnext anchor anchor' hswapped
    rw [hnext] at hplan
    obtain ⟨hcontinues, hnamespace⟩ := continues_of_replacement hplan
    exact .trust hnext hnamespace hcontinues hswapped
  · cases committed with
    | none => exact leads_raise
    | some committed =>
      refine leads_bind_raiseIf fun _ => ?_
      refine leads_bind (leads_ensureTrust _) fun _ _ hphase => leads_pure hphase

end Trust

/-! ## Catalogs -/

section Catalog

variable {lib : CatalogLibrary}

/-- A verification only reads. -/
theorem leads_verifyAt (trustBundle : AnchoredTrustBundle) (env : TrustEnv) (accepts : Bool) :
    LeadsFor request (verifyAt lib trustBundle env accepts) phase fun _ _ => True := by
  refine leads_tryCatch ?_ fun phase' e => ?_
  · exact leads_bind (leads_ensureTrust trustBundle) fun _ _ _ => leads_pure trivial
  · split
    · exact leads_pure trivial
    · exact leads_pure trivial
    · exact leads_raise

theorem leads_verifyWithCurrentPolicy (context : CatalogContext) (trustBundle : AnchoredTrustBundle)
    (environment releaseId : String) (checkpoint : Option DigestCheckpoint) (env : CatalogEnv) :
    LeadsFor request (verifyWithCurrentPolicy lib context trustBundle environment releaseId
      checkpoint env) phase fun _ _ => True := by
  refine leads_bind_lift fun observedAt _ => leads_bind_raiseIf fun _ => ?_
  refine leads_bind (leads_ensureTrust trustBundle) fun _ _ _ => ?_
  refine leads_bind (Q := fun _ _ => True) ?_ fun _ verified _ => ?_
  · refine leads_bind_lift fun catalog _ => leads_bind_lift fun envelope _ => ?_
    refine leads_bind_lift fun _ _ => ?_
    refine leads_bind (leads_verifyAt ..) fun _ _ _ => leads_bind_raiseIf fun _ => ?_
    refine leads_bind (leads_verifyAt ..) fun _ _ _ => leads_bind_raiseIf fun _ => ?_
    exact leads_bind_lift fun _ _ => leads_pure trivial
  · exact leads_bind_raiseIf fun _ => leads_pure trivial

theorem leads_prepareCatalog (r : CatalogRequest) (env : CatalogEnv) :
    LeadsFor request (r.prepare lib env) phase fun _ _ => True := by
  refine leads_bind_lift fun nameSpace _ => ?_
  refine leads_bind (leads_readCatalogCheckpoint _) fun _ checkpoint _ => ?_
  refine leads_bind (leads_verifyWithCurrentPolicy ..) fun _ verified _ => ?_
  exact leads_bind_lift fun _ _ => leads_pure trivial

theorem leads_ensureCatalog (a : AnchoredCatalogAdmission) (env : CatalogEnv) :
    LeadsFor request (a.ensureCurrent lib env) phase fun phase' _ =>
      phase' = .saw a.anchorCheckpoint.nameSpace a.anchorCheckpoint := by
  refine leads_bind (leads_readCatalogCheckpoint _) fun _ _ _ => leads_bind_raiseIf fun _ => ?_
  refine leads_bind (leads_tryCatch (leads_verifyWithCurrentPolicy ..) fun _ _ => leads_raise) ?_
  intro _ verifiedNow _
  refine leads_bind (leads_readCatalogCheckpoint _) fun phase' retained hretained => ?_
  refine leads_bind_raiseIf fun hsame => leads_raiseIf fun _ => ?_
  exact (hretained _ (bne_eq_false_iff_eq.mp hsame)).1

theorem leads_settleCatalog (plan : CatalogAdmissionPlan) (current : Option DigestCheckpoint)
    (h : ∀ anchor anchor', Swapped plan.expectedCheckpoint plan.replacementCheckpoint anchor
      anchor' → Advance request anchor anchor') :
    LeadsFor request (plan.settle current) phase fun _ _ => True := by
  unfold CatalogAdmissionPlan.settle
  split
  · exact leads_raiseIf fun _ => trivial
  · refine leads_bind (leads_tryCatch (leads_compareAndSwap h) fun _ _ => leads_raise) ?_
    intro _ _ _
    refine leads_bind_raiseIf fun _ => ?_
    refine leads_bind (leads_readCatalogCheckpoint _) fun _ _ _ => ?_
    exact leads_raiseIf fun _ => trivial

/-- What `_validate_plan` makes sure of and the anchor depends on. -/
theorem validate_eq_ok {plan : CatalogAdmissionPlan} {u : Unit} (h : plan.validate lib = .ok u) :
    catalogNamespace plan.environment = some plan.replacementCheckpoint.nameSpace ∧
      plan.replacementCheckpoint.sequence = plan.catalogSequence ∧
      plan.replacementCheckpoint.artifactSha256 = plan.catalogSha256 := by
  unfold CatalogAdmissionPlan.validate at h
  obtain ⟨_, hnamespace, h⟩ := bind_eq_ok.mp h
  obtain ⟨_, hreplacement, h⟩ := bind_eq_ok.mp h
  obtain ⟨_, -, h⟩ := bind_eq_ok.mp h
  obtain ⟨_, -, h⟩ := bind_eq_ok.mp h
  obtain ⟨_, -, hbound⟩ := bind_eq_ok.mp h
  have hnamespace := bne_eq_false_iff_eq.mp (raiseIf_eq_ok.mp hnamespace)
  have hreplacement := bne_eq_false_iff_eq.mp (raiseIf_eq_ok.mp hreplacement)
  have hbound := raiseIf_eq_ok.mp hbound
  simp only [Bool.or_eq_false_iff, bne_eq_false_iff_eq] at hbound
  exact ⟨hreplacement ▸ hnamespace, hbound.1.1.1.2, hbound.1.1.2⟩

theorem leads_commitCatalog (plan : CatalogAdmissionPlan) (atCommit atEnd : CatalogEnv) :
    LeadsFor (.commitCatalog plan atCommit atEnd) (plan.commit lib atCommit atEnd) phase
      fun phase' a => phase' = .saw a.anchorCheckpoint.nameSpace a.anchorCheckpoint := by
  refine leads_bind_lift fun _ hvalid => ?_
  obtain ⟨hnamespace, hsequence, hartifact⟩ := validate_eq_ok hvalid
  refine leads_bind (leads_readCatalogCheckpoint _) fun _ current _ => ?_
  refine leads_bind_raiseIf fun _ => ?_
  refine leads_bind (leads_tryCatch (leads_verifyWithCurrentPolicy ..) fun _ _ => leads_raise) ?_
  intro _ verifiedNow _
  refine leads_bind_raiseIf fun _ => ?_
  refine leads_bind (leads_settleCatalog plan current ?_) fun _ _ _ => ?_
  · exact fun _ _ hswapped => .catalog hnamespace hsequence hartifact hswapped
  · exact leads_bind (leads_ensureCatalog _ atEnd) fun _ _ hphase => leads_pure hphase

end Catalog

/-- Where a call may return: it saw the checkpoint it vouches for, and an `ensure_current` vouches
for its own. -/
structure Returned (request : Request) (phase : Phase) (outcome : Outcome) : Prop where
  saw : ∀ c, request.vouches outcome = some c → phase = .saw c.nameSpace c
  ensures : ∀ c, request.ensures = some c → request.vouches outcome = some c

/-- **Every call follows the abstract one.** -/
theorem leads_request (lib : CatalogLibrary) (request : Request) :
    LeadsFor request (request.call lib) phase (Returned request) := by
  have hvouched : ∀ {request : Request} {phase : Phase} {outcome : Outcome} {c : DigestCheckpoint},
      request.vouches outcome = some c → (∀ d, request.ensures = some d → d = c) →
      phase = .saw c.nameSpace c → Returned request phase outcome := by
    intro request phase outcome c hc hensures hphase
    refine ⟨fun d hd => ?_, fun d hd => ?_⟩
    · rw [hc] at hd
      cases hd
      exact hphase
    · rw [hensures d hd]
      exact hc
  have hplain : ∀ {request : Request} {phase : Phase} {outcome : Outcome},
      request.vouches outcome = none → request.ensures = none → Returned request phase outcome := by
    intro request phase outcome hc hensures
    refine ⟨fun d hd => ?_, fun d hd => ?_⟩
    · rw [hc] at hd
      cases hd
    · rw [hensures] at hd
      cases hd
  cases request with
  | prepareTrust context env =>
    exact leads_bind (leads_prepareTrust context) fun _ _ _ => leads_pure (hplain rfl rfl)
  | commitTrust plan atCommit atEnd =>
    exact leads_bind (leads_commitTrust plan atCommit atEnd) fun _ a hphase =>
      leads_pure (hvouched rfl (fun d hd => by cases hd) hphase)
  | ensureTrust a env =>
    exact leads_bind (leads_ensureTrust a) fun _ _ hphase =>
      leads_pure (hvouched rfl (fun d hd => (Option.some.inj hd).symm) hphase)
  | prepareCatalog r env =>
    exact leads_bind (leads_prepareCatalog r env) fun _ _ _ => leads_pure (hplain rfl rfl)
  | commitCatalog plan atCommit atEnd =>
    exact leads_bind (leads_commitCatalog plan atCommit atEnd) fun _ a hphase =>
      leads_pure (hvouched rfl (fun d hd => by cases hd) hphase)
  | ensureCatalog a env =>
    exact leads_bind (leads_ensureCatalog a env) fun _ _ hphase =>
      leads_pure (hvouched rfl (fun d hd => (Option.some.inj hd).symm) hphase)

end LumaOS.Anchors
