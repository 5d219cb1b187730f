import LumaOS.Governance.Fences

/-!
# Loss of authorization is permanent

A grant as issued is `Live` in a catalog when everything `Grant::authorize` reads from the catalog
is still as it was: the grant and assignment records, the role at the assigned version, and the
subject at the granted generation. It is `Dead` when one of them has moved on. One effect keeps a
live grant alive or kills it (`Effect.live_or_dead`), and nothing revives a dead one
(`Grows.dead`): records are only ever revoked, role versions and generations only grow, and an
enabled subject is disabled, deleted or put back into activation only together with a new
generation.

**`lost_authorization_is_permanent`**: of a live grant, authorization depends on the request alone;
of a dead one it is always refused. So what fails once fails in every later catalog.
-/

namespace LumaOS.Governance

open LumaOS.Base LumaOS.Text LumaOS.Json

/-- The part of `Grant::authorize` that does not look at the catalog. -/
structure Grant.Permits (g : Grant) (identity : Value) (interval : Interval) (usage : Use) :
    Prop where
  wellFormed : usage.validate = .ok ()
  live : g.revoked = false
  principal : (identity.get "principal").asStr = some g.subject
  generation : (identity.get "generation").asU64 = some g.subjectGeneration
  action : g.action = usage.action
  selector : g.selector = usage.selector
  input : ¬ usage.inputBytes > g.constraints.maxInputBytes
  output : ¬ usage.outputBytes > g.constraints.maxOutputBytes
  units : ¬ usage.units > g.constraints.maxUnits
  time : interval.within g.notBeforeMs g.expiresMs = .ok true

/-- A grant and the assignment it was issued under. -/
structure Grant.Under (g : Grant) (a : Assignment) : Prop where
  live : g.revoked = false
  unrevoked : a.revoked = false
  id : a.id = g.assignment
  version : a.version = g.assignmentVersion
  subject : a.subject = g.subject
  generation : a.subjectGeneration = g.subjectGeneration

namespace Catalog

/-- Everything `authorize` reads of the catalog is as it was at the issue. -/
structure Live (c : Catalog) (g : Grant) (a : Assignment) : Prop where
  grant : c.grants[g.id]? = some g
  assignment : c.assignments[g.assignment]? = some a
  role : ∃ role : Role, c.roles[a.role]? = some role ∧ role.version = a.roleVersion ∧
    role.activities.contains g.action.activity = true
  subject : c.subject g.subject g.subjectGeneration = .ok ()

/-- One of the records has moved on. -/
inductive Dead (c : Catalog) (g : Grant) (a : Assignment) : Prop
  | grant {r : Grant} : c.grants[g.id]? = some r → r.revoked = true → Dead c g a
  | assignment {b : Assignment} : c.assignments[g.assignment]? = some b → b.revoked = true →
      Dead c g a
  | role {r : Role} : c.assignments[g.assignment]? = some a → c.roles[a.role]? = some r →
      a.roleVersion < r.version → Dead c g a
  | subject {n : UInt64} : c.governed g.subject = some n → g.subjectGeneration < n → Dead c g a

variable {c c' : Catalog} {g : Grant} {a : Assignment} {p : String} {n : UInt64}

/-! ## Authorization, read back -/

theorem subject_eq_ok : c.subject p n = .ok () ↔
    ∃ r, c.record p = some r ∧ c.subjectCurrent r p n = true := by
  simp only [subject, registry, bind_eq_ok, okOr_eq_ok, refuseIf_eq_ok, Bool.not_eq_false', record,
    Option.bind_eq_some_iff]
  constructor
  · rintro ⟨reg, hreg, r, hr, hcur⟩
    exact ⟨r, ⟨reg, hreg, hr⟩, hcur⟩
  · rintro ⟨r, ⟨reg, hreg, hr⟩, hcur⟩
    exact ⟨reg, hreg, r, hr, hcur⟩

/-- A current subject has exactly the granted generation. -/
theorem governed_of_subject (h : c.subject p n = .ok ()) : c.governed p = some n := by
  obtain ⟨r, hr, hcur⟩ := subject_eq_ok.mp h
  simp only [subjectCurrent, Bool.and_eq_true, beq_iff_eq] at hcur
  rw [governed_eq hr, hcur.1.1.1.2]

theorem authorize_eq_ok {identity : Value} {interval : Interval} {usage : Use} :
    g.authorize c identity interval usage = .ok () ↔
      g.Permits identity interval usage ∧ c.grants[g.id]? = some g ∧
      ∃ a, c.assignments[g.assignment]? = some a ∧ a.current c interval = .ok () ∧
        a.version = g.assignmentVersion ∧ a.subject = g.subject ∧
        a.subjectGeneration = g.subjectGeneration ∧ ∃ role : Role, c.roles[a.role]? = some role ∧
        role.activities.contains g.action.activity = true := by
  simp only [Grant.authorize, bind_eq_ok, refuseIf_eq_ok, okOr_eq_ok, Bool.or_eq_false_iff,
    bne_eq_false_iff_eq, decide_eq_false_iff_not, Bool.not_eq_false']
  constructor
  · rintro ⟨_, husage, _, ⟨⟨⟨⟨⟨⟨⟨⟨hg, hlive⟩, hp⟩, hgen⟩, hact⟩, hsel⟩, hin⟩, hout⟩, hunits⟩,
      inside, htime, _, rfl, a, ha, _, hcur, _, ⟨⟨hv, hs⟩, hsg⟩, role, hrole, hacts⟩
    exact ⟨⟨husage, hlive, hp, hgen, hact, hsel, hin, hout, hunits, htime⟩, hg, a, ha, hcur, hv, hs,
      hsg, role, hrole, hacts⟩
  · rintro ⟨h, hg, a, ha, hcur, hv, hs, hsg, role, hrole, hacts⟩
    exact ⟨_, h.wellFormed, (), ⟨⟨⟨⟨⟨⟨⟨⟨hg, h.live⟩, h.principal⟩, h.generation⟩, h.action⟩,
      h.selector⟩, h.input⟩, h.output⟩, h.units⟩, _, h.time, (), rfl, a, ha, (), hcur, (),
      ⟨⟨hv, hs⟩, hsg⟩, role, hrole, hacts⟩

theorem current_eq_ok {interval : Interval} : a.current c interval = .ok () ↔
    c.subject a.subject a.subjectGeneration = .ok () ∧ c.assignments[a.id]? = some a ∧
      a.revoked = false ∧ (∃ role : Role, c.roles[a.role]? = some role ∧
        role.version = a.roleVersion) ∧ interval.within a.notBeforeMs a.expiresMs = .ok true := by
  simp only [Assignment.current, bind_eq_ok, refuseIf_eq_ok, okOr_eq_ok, Bool.or_eq_false_iff,
    bne_eq_false_iff_eq, Bool.not_eq_false']
  constructor
  · rintro ⟨_, hsub, role, hrole, _, ⟨⟨ha, hrev⟩, hver⟩, inside, htime, rfl⟩
    exact ⟨hsub, ha, hrev, ⟨role, hrole, hver⟩, htime⟩
  · rintro ⟨hsub, ha, hrev, ⟨role, hrole, hver⟩, htime⟩
    exact ⟨(), hsub, role, hrole, (), ⟨⟨ha, hrev⟩, hver⟩, true, htime, rfl⟩

/-- Of a live grant, authorization is a question to the request. -/
theorem Live.authorize_iff (h : Live c g a) (hu : g.Under a) {identity : Value}
    {interval : Interval} {usage : Use} : g.authorize c identity interval usage = .ok () ↔
      g.Permits identity interval usage ∧ interval.within a.notBeforeMs a.expiresMs = .ok true := by
  obtain ⟨role, hrole, hver, hacts⟩ := h.role
  rw [authorize_eq_ok]
  constructor
  · rintro ⟨hp, -, b, hb, hcur, -⟩
    rw [h.assignment] at hb
    cases hb
    exact ⟨hp, (current_eq_ok.mp hcur).2.2.2.2⟩
  · rintro ⟨hp, htime⟩
    refine ⟨hp, h.grant, a, h.assignment, current_eq_ok.mpr ⟨?_, ?_, hu.unrevoked,
      ⟨role, hrole, hver⟩, htime⟩, hu.version, hu.subject, hu.generation, role, hrole, hacts⟩
    · rw [hu.subject, hu.generation]
      exact h.subject
    · rw [hu.id]
      exact h.assignment

/-- A dead grant authorizes nothing. -/
theorem Dead.not_authorized (h : Dead c g a) (hu : g.Under a) {identity : Value}
    {interval : Interval} {usage : Use} : g.authorize c identity interval usage ≠ .ok () := by
  intro hok
  obtain ⟨-, hgrant, b, hb, hcur, -, hsub, hgen, -⟩ := authorize_eq_ok.mp hok
  obtain ⟨hsubject, -, hrev, ⟨role, hrole, hver⟩, -⟩ := current_eq_ok.mp hcur
  cases h with
  | grant hr hrevoked =>
    rw [hgrant] at hr
    cases hr
    rw [hu.live] at hrevoked
    cases hrevoked
  | assignment hb' hrevoked =>
    rw [hb] at hb'
    cases hb'
    rw [hrev] at hrevoked
    cases hrevoked
  | role ha hr hlt =>
    rw [hb] at ha
    cases ha
    rw [hrole] at hr
    cases hr
    rw [hver] at hlt
    exact UInt64.lt_irrefl _ hlt
  | subject hn hlt =>
    have hgov := governed_of_subject hsubject
    rw [hsub, hn] at hgov
    cases hgov
    rw [hgen] at hlt
    exact UInt64.lt_irrefl _ hlt

/-! ## One effect -/

theorem Effect.deleted_new (hc : c.Fenced) (h : Effect c c') (hp : p ∈ c'.deletedPrincipals) :
    p ∈ c.deletedPrincipals ∨ c.Disabled p := by
  cases h with
  | deletionCompleted hx =>
    rcases mem_insert_cases hp with rfl | hp
    · exact Or.inr (hc.pending hx)
    · exact Or.inl hp
  | _ => exact Or.inl hp

theorem Effect.aging_new (hc : c.Fenced) (h : Effect c c') (hp : p ∈ c'.needsPasswordAging) :
    p ∈ c.needsPasswordAging ∨ c.Disabled p := by
  cases h with
  | creationCompleted hx =>
    rcases mem_insert_cases hp with rfl | hp
    · exact Or.inr (hc.pending hx)
    · exact Or.inl hp
  | transitionCompleted => exact Or.inl (mem_of_mem_aged hp).1
  | _ => exact Or.inl hp

theorem Effect.committed (h : Effect c c') (hp : p ∈ c.accountCommitments) :
    p ∈ c'.accountCommitments := by
  cases h with
  | prepared _ _ hkeep => exact hkeep p hp
  | creationCompleted | transitionCompleted => exact Std.ExtTreeMap.mem_insert.mpr (Or.inr hp)
  | checkpointed hempty =>
    rw [Std.ExtTreeMap.isEmpty_iff] at hempty
    exact absurd (hempty ▸ hp) Std.ExtTreeMap.not_mem_empty
  | _ => exact hp

/-- **A current subject stays current, or its generation moves on.** -/
theorem Effect.subject (hc : c.Fenced) (h : Effect c c') (hs : c.subject p n = .ok ()) :
    c'.subject p n = .ok () ∨ ∃ m, c'.governed p = some m ∧ n < m := by
  obtain ⟨r, hr, hcur⟩ := subject_eq_ok.mp hs
  simp only [subjectCurrent, Bool.and_eq_true, Bool.not_eq_true', beq_iff_eq] at hcur
  obtain ⟨⟨⟨⟨⟨hen, hdis⟩, hgen⟩, hdel⟩, hage⟩, hcom⟩ := hcur
  have hlive := not_disabled hdis
  cases h.state p with
  | same hsame =>
    refine Or.inl (subject_eq_ok.mpr ⟨r, h.record hc hr, ?_⟩)
    simp only [subjectCurrent, Bool.and_eq_true, Bool.not_eq_true', beq_iff_eq]
    refine ⟨⟨⟨⟨⟨hen, ?_⟩, ?_⟩, ?_⟩, ?_⟩, ?_⟩
    · rw [disabled, hsame]
      exact hdis
    · rw [generationOf, hsame]
      exact hgen
    · rw [← Bool.not_eq_true, Std.ExtTreeSet.contains_iff_mem] at hdel ⊢
      exact fun hp => (h.deleted_new hc hp).elim hdel hlive
    · rw [← Bool.not_eq_true, Std.ExtTreeSet.contains_iff_mem] at hage ⊢
      exact fun hp => (h.aging_new hc hp).elim hage hlive
    · rw [Std.ExtTreeMap.contains_iff_mem] at hcom ⊢
      exact h.committed hcom
  | @raised r' s hr' hs' hlt =>
    rw [hr] at hr'
    cases hr'
    exact Or.inr ⟨s.generation, by rw [governed, hs'], hgen ▸ hlt⟩
  | created _ hnone =>
    rw [hr] at hnone
    cases hnone
  | completed hs' => exact absurd ⟨_, hs', rfl⟩ hlive

theorem Grows.dead (h : Grows c c') (hd : Dead c g a) : Dead c' g a := by
  cases hd with
  | grant hr hrev =>
    obtain ⟨r', hr', rfl | ⟨hrev', -⟩⟩ := h.grants hr
    · exact .grant hr' hrev
    · exact .grant hr' hrev'
  | assignment hb hrev =>
    obtain ⟨b', hb', rfl | ⟨hrev', -⟩⟩ := h.assignments hb
    · exact .assignment hb' hrev
    · exact .assignment hb' hrev'
  | role ha hr hlt =>
    obtain ⟨a', ha', rfl | ⟨hrev, -⟩⟩ := h.assignments ha
    · obtain ⟨r', hr', rfl | hlt'⟩ := h.roles hr
      · exact .role ha' hr' hlt
      · exact .role ha' hr' (UInt64.lt_trans hlt hlt')
    · exact .assignment ha' hrev
  | subject hn hlt =>
    obtain ⟨n', hn', hle⟩ := h.governed hn
    exact .subject hn' (UInt64.lt_of_lt_of_le hlt hle)

/-- **One effect keeps a live grant alive or kills it.** -/
theorem Effect.live_or_dead (hc : c.Fenced) (h : Effect c c') (hl : Live c g a) :
    Live c' g a ∨ Dead c' g a := by
  have hgrows := h.grows hc
  obtain ⟨role, hrole, hver, hacts⟩ := hl.role
  obtain ⟨g', hg', rfl | ⟨hrev, -⟩⟩ := hgrows.grants hl.grant
  · obtain ⟨a', ha', rfl | ⟨hrev, -⟩⟩ := hgrows.assignments hl.assignment
    · obtain ⟨r', hr', rfl | hlt⟩ := hgrows.roles hrole
      · obtain hsub | ⟨m, hm, hlt⟩ := h.subject hc hl.subject
        · exact Or.inl ⟨hg', ha', ⟨r', hr', hver, hacts⟩, hsub⟩
        · exact Or.inr (.subject hm hlt)
      · exact Or.inr (.role ha' hr' (hver ▸ hlt))
    · exact Or.inr (.assignment ha' hrev)
  · exact Or.inr (.grant hg' hrev)

/-! ## Runs -/

/-- The assignments are stored under their own identifiers. -/
def Keyed (c : Catalog) : Prop :=
  ∀ (id : String) (a : Assignment), c.assignments[id]? = some a → a.id = id

theorem Effect.keyed (hk : c.Keyed) (h : Effect c c') : c'.Keyed := by
  cases h with
  | @assigned b _ hnone =>
    intro id a ha
    rw [Table.get_insert] at ha
    split at ha
    · rename_i heq
      cases ha
      exact heq
    · exact hk id a ha
  | @assignmentRevoked k b version hb hver =>
    intro id a ha
    rw [Table.get_insert] at ha
    split at ha
    · rename_i heq
      cases ha
      exact heq ▸ hk k b hb
    · exact hk id a ha
  | _ => exact hk

variable {f : ModelFormats}

theorem step_keyed (hc : c.Fenced) (hk : c.Keyed) (e : Event) : (step f c e).Keyed := by
  obtain heq | ⟨d, version, hd, heq⟩ := step_cases (f := f) hc e
  · rw [heq]
    exact hk
  · rw [heq]
    exact fun id a ha => hd.keyed hk id a ha

/-- The standing of an issued grant: alive or dead, under the assignment it was issued under. -/
def Standing (c : Catalog) (g : Grant) (a : Assignment) : Prop := Live c g a ∨ Dead c g a

theorem step_standing (hc : c.Fenced) (h : Standing c g a) (e : Event) :
    Standing (step f c e) g a := by
  obtain hl | hd := h
  · obtain heq | ⟨d, version, heffect, heq⟩ := step_cases (f := f) hc e
    · rw [heq]
      exact Or.inl hl
    · rw [heq]
      obtain hl' | hd' := heffect.live_or_dead hc hl
      · exact Or.inl ⟨hl'.grant, hl'.assignment, hl'.role, hl'.subject⟩
      · exact Or.inr (((Grows.refl d).versioned version).dead hd')
  · exact Or.inr ((step_grows hc e).dead hd)

theorem run_standing (hc : c.Fenced) (h : Standing c g a) (events : List Event) :
    Standing (run f c events) g a := by
  induction events generalizing c with
  | nil => exact h
  | cons e events ih => exact ih (step_fenced hc e) (step_standing hc h e)

theorem run_dead (hc : c.Fenced) (h : Dead c g a) (events : List Event) :
    Dead (run f c events) g a := by
  induction events generalizing c with
  | nil => exact h
  | cons e events ih => exact ih (step_fenced hc e) ((step_grows hc e).dead h)

/-- The grant an event issues. -/
def stepIssue (f : ModelFormats) (c : Catalog) : Event → Option Grant
  | .command (.issueGrant g) =>
    match (apply f (.issueGrant g)).exec c with
    | (.ok true, _) => some g
    | _ => none
  | _ => none

/-- The grants a run issues, as they were issued. -/
def issues (f : ModelFormats) : Catalog → List Event → List Grant
  | _, [] => []
  | c, e :: events => (stepIssue f c e).toList ++ issues f (step f c e) events

theorem spec_issueGrant (f : ModelFormats) (g : Grant) (c : Catalog) :
    Mut.Spec (apply f (.issueGrant g)) c fun _ c' => g.issue c = .ok () ∧
      ∃ version, c' = { c with grants := c.grants.insert g.id g, stateVersion := version } := by
  refine Mut.spec_bind_lift fun _ _ => Mut.spec_bind_get (Mut.spec_bind_lift fun next _ => ?_)
  refine (Mut.safe_bind (Q := fun changed c' => changed = true ∧ g.issue c = .ok () ∧
    c' = { c with grants := c.grants.insert g.id g }) ?_ ?_).spec
  · exact Mut.safe_bind_get (Mut.safe_bind_lift fun _ hissue => Mut.safe_bind_lift fun _ _ =>
      Mut.safe_of_exec (a := true) rfl ⟨rfl, hissue, rfl⟩)
  · rintro _ _ ⟨rfl, hissue, rfl⟩
    exact ⟨true, _, rfl, hissue, next, rfl⟩

/-- **An issued grant starts alive.** -/
theorem standing_of_issue (hk : c.Keyed) {e : Event} (h : stepIssue f c e = some g) :
    ∃ a, g.Under a ∧ Standing (step f c e) g a := by
  cases e with
  | receipt command bytes => cases h
  | command command =>
    cases command with
    | issueGrant g' =>
      have hspec := spec_issueGrant f g' c
      simp only [stepIssue] at h
      change ∃ a, g.Under a ∧ Standing ((apply f (.issueGrant g')).exec c).2 g a
      rcases hexec : (apply f (.issueGrant g')).exec c with ⟨e | changed, c'⟩
      · rw [hexec] at h
        cases h
      · rw [hexec] at h
        cases changed with
        | false => cases h
        | true =>
          cases h
          obtain ⟨hissue, version, rfl⟩ := hspec.of_ok hexec
          simp only [Grant.issue, bind_eq_ok, okOr_eq_ok, refuseIf_eq_ok, Bool.or_eq_false_iff,
            bne_eq_false_iff_eq, Bool.not_eq_false'] at hissue
          obtain ⟨_, hvalid, _, hsub, a, ha, role, hrole,
            ⟨⟨⟨⟨⟨⟨hrev, hver⟩, hs⟩, hsg⟩, hrv⟩, hacts⟩, -⟩, -⟩ := hissue
          have hlive : g.revoked = false := by
            simp only [Grant.validate, bind_eq_ok, refuseIf_eq_ok, Bool.or_eq_false_iff] at hvalid
            obtain ⟨_, -, _, -, _, -, _, -, ⟨-, hlive⟩, -⟩ := hvalid
            exact hlive
          exact ⟨a, ⟨hlive, hrev, hk _ a ha, hver, hs, hsg⟩,
            Or.inl ⟨Table.get_insert_self, ha, ⟨role, hrole, hrv.symm, hacts⟩, hsub⟩⟩
    | _ => cases h

theorem standing_of_issues (events : List Event) : ∀ {c : Catalog}, c.Fenced → c.Keyed →
    g ∈ issues f c events → ∃ a, g.Under a ∧ Standing (run f c events) g a := by
  induction events with
  | nil => exact fun _ _ h => absurd h List.not_mem_nil
  | cons e events ih =>
    intro c hc hk h
    rcases List.mem_append.mp h with h | h
    · obtain ⟨a, hu, hs⟩ := standing_of_issue hk (Option.mem_toList.mp h)
      exact ⟨a, hu, run_standing (step_fenced hc e) hs events⟩
    · exact ih (step_fenced hc e) (step_keyed hc hk e) h

/-- **Loss of authorization is permanent.** A grant as issued in a run that is refused for some
request in the catalog reached is refused for the same request, identity and interval in every
later catalog. -/
theorem lost_authorization_is_permanent (f : ModelFormats) (events more : List Event) (g : Grant)
    (hg : g ∈ issues f initial events) (identity : Value) (interval : Interval) (usage : Use)
    (hlost : g.authorize (run f initial events) identity interval usage ≠ .ok ()) :
    g.authorize (run f (run f initial events) more) identity interval usage ≠ .ok () := by
  have hc := run_fenced (f := f) initial_fenced events
  have hk : initial.Keyed := fun id a ha => by simp [initial] at ha
  obtain ⟨a, hu, hl | hd⟩ := standing_of_issues events initial_fenced hk hg
  · -- the refusal was about the request, and stays about the request while the grant lives
    rw [Ne, hl.authorize_iff hu] at hlost
    obtain hl' | hd' := run_standing (f := f) hc (Or.inl hl) more
    · rwa [Ne, hl'.authorize_iff hu]
    · exact hd'.not_authorized hu
  · exact (run_dead hc hd more).not_authorized hu

/-! ### A subject that is disabled and enabled again -/

/-- No document is parsed and nothing is hashed in the run below. -/
def sampleFormats : ModelFormats where
  sha256 := fun _ => Vector.replicate 32 0
  parseManifest := fun _ => .error "EOF while parsing a value at line 1 column 0"
  parseCatalog := fun _ => .error "EOF while parsing a value at line 1 column 0"
  parseEnvelope := fun _ => .error "EOF while parsing a value at line 1 column 0"

def sampleSubject : String := repeatText "b2" 32

def sampleRegistry : Registry :=
  ⟨1, repeatText "a1" 32, [⟨sampleSubject, 1, "user", 1002, true⟩], none⟩

def sampleAssignment : Assignment :=
  ⟨"assignment-1", sampleSubject, 1, "Reader", 1, 1, 1000, 5000, false⟩

def sampleSelector : Selector := ⟨.file, "file-1", 1, repeatText "c3" 32⟩

def sampleGrant : Grant :=
  ⟨"grant-1", "assignment-1", 1, sampleSubject, 1, .read, sampleSelector, ⟨10, 10, 1⟩, 1, 1000,
    5000, false⟩

/-- A user is adopted, gets a role and a grant for one file, and is disabled. -/
def sampleEvents : List Event :=
  [.command (.adoptPrincipals sampleRegistry),
    .command (.checkpointAccounts
      (Std.ExtTreeMap.ofList [(sampleSubject, repeatText "d4" 32)] compare)),
    .command (.registerActivity "file.read"),
    .command (.defineRole "Reader" ["file.read"] 0),
    .command (.assignRole sampleAssignment),
    .command (.issueGrant sampleGrant),
    .command (.advancePrincipal sampleSubject 1 false)]

def sampleIdentity : Value :=
  .object [("principal", .string sampleSubject), ("generation", .number 1)]

def sampleUse : Use := ⟨.read, sampleSelector, 1, 1, 1⟩

theorem sample_granted :
    let authorized (c : Catalog) := sampleGrant.authorize c sampleIdentity ⟨2000, 2001⟩ sampleUse
    let granted := run sampleFormats initial (sampleEvents.take 6)
    (granted.grants["grant-1"]? = some sampleGrant ∧ authorized granted = .ok ()) ∧
    sampleGrant ∈ issues sampleFormats initial sampleEvents ∧
    authorized (run sampleFormats initial sampleEvents) ≠ .ok () := by
  decide +kernel

/-- Enabling the user again does not give the grant back. -/
theorem reenabled_subject_not_authorized :
    let authorized (c : Catalog) := sampleGrant.authorize c sampleIdentity ⟨2000, 2001⟩ sampleUse
    let disabled := run sampleFormats initial sampleEvents
    authorized (run sampleFormats initial (sampleEvents.take 6)) = .ok () ∧
    authorized (run sampleFormats disabled
      [.command (.advancePrincipal sampleSubject 2 true)]) ≠ .ok () := by
  intro authorized disabled
  obtain ⟨hgranted, hissued, hlost⟩ := sample_granted
  exact ⟨hgranted.2, lost_authorization_is_permanent sampleFormats sampleEvents _ sampleGrant hissued
    sampleIdentity ⟨2000, 2001⟩ sampleUse hlost⟩

end Catalog

end LumaOS.Governance
