import LumaOS.Governance.ReleaseTrust

/-!
# Release admission over whole histories

Runs of `publish`, `prepare`, `initialize` and `resolve` from no anchored state, in any order and
with any arguments; a failed call leaves the state.

* **`release_never_rolls_back`**: the floor never falls, every manifest the state holds or ever
  held is at or below it, and a prepared candidate is above every manifest of the history before
  it. A fallback moves the acknowledged manifest back and leaves the floor.
* **`revoked_keys_stay_dead`**: versions are consecutive, root and environment fixed, identifiers
  keep their key, and a public key once revoked is never offered again. `publish` compares keys by
  identifier only; that a revoked key cannot return under another identifier needs the uniqueness
  of public keys inside every bundle (`ReleaseTrust.nodup_keys`).
-/

namespace LumaOS.Governance

open LumaOS.Base LumaOS.Text

namespace ReleaseState

/-- The floor, `0` before any trust is anchored. -/
def floorOf (s : Option ReleaseState) : UInt64 := (s.map fun t => t.floor).getD 0

/-- The trust version, `0` before any trust is anchored. -/
def versionOf (s : Option ReleaseState) : UInt64 := (s.map fun t => t.trust.trust.version).getD 0

/-! ## What each operation does -/

/-- Where the four operations lead from `s`, with the bundle they published and the manifests they
initialized or prepared. -/
inductive Change (f : Formats) (s : Option ReleaseState) :
    Option ReleaseTrust → List Manifest → ReleaseState → Prop
  | published {next : ReleaseTrust} : next.validate f.sha256 = .ok () →
      next.trust.version.toNat = (versionOf s).toNat + 1 →
      rotation s next = .ok () → Change f s (some next) [] (withTrust s next)
  | prepared {old : ReleaseState} {a : ReleaseAdmission} : s = some old → old.pending = none →
      old.floor < a.candidate.manifest.sequence → a.prior.sequence < a.candidate.manifest.sequence →
      (∀ m, old.acknowledged = some m → m = a.prior) →
      Change f s none [a.candidate.manifest] { old with
        floor := a.candidate.manifest.sequence, acknowledged := some a.prior, pending := some a }
  | initialized {old : ReleaseState} {m : Manifest} : s = some old → old.floor = 0 →
      old.acknowledged = none → old.pending = none → old.retained = none →
      Change f s none [m] { old with floor := m.sequence, acknowledged := some m }
  | confirmed {old : ReleaseState} {a : ReleaseAdmission} : s = some old → old.pending = some a →
      Change f s none [] { old with
        retained := some a.prior, acknowledged := some a.candidate.manifest, pending := none }
  | restored {old : ReleaseState} {a : ReleaseAdmission} : s = some old → old.pending = some a →
      Change f s none [] { old with acknowledged := some a.prior, pending := none }

end ReleaseState

/-- The operations of the release state machine. -/
inductive ReleaseOp where
  | publish (expected : UInt64) (next : ReleaseTrust)
  | prepare (expectedFloor : UInt64) (admission : ReleaseAdmission)
  | initializeRelease (release : SignedRelease)
  | resolve (candidateDigest : String) (outcome : Outcome)

namespace ReleaseOp

def method (f : Formats) : ReleaseOp → Mut (Option ReleaseState) Unit
  | .publish expected next => ReleaseState.publish f expected next
  | .prepare expectedFloor admission => ReleaseState.prepare f expectedFloor admission
  | .initializeRelease release => ReleaseState.initializeRelease f release
  | .resolve candidateDigest outcome => ReleaseState.resolve f candidateDigest outcome

/-- The bundle an operation publishes. -/
def offers : ReleaseOp → Option ReleaseTrust
  | .publish _ next => some next
  | _ => none

/-- The manifests an operation initializes or prepares. -/
def mentions : ReleaseOp → List Manifest
  | .initializeRelease release => [release.manifest]
  | .prepare _ admission => [admission.candidate.manifest]
  | _ => []

end ReleaseOp

namespace ReleaseState

open ReleaseOp

variable {f : Formats} {s : Option ReleaseState}

theorem safe_publish (expected : UInt64) (next : ReleaseTrust) :
    Mut.Safe (publish f expected next) s fun _ s' =>
      ∃ t, s' = some t ∧ Change f s (some next) [] t := by
  unfold publish
  refine Mut.safe_bind_lift fun _ hvalid => Mut.safe_bind_get (Mut.safe_bind_lift fun _ hexp =>
    Mut.safe_bind_lift fun version hver => Mut.safe_bind_lift fun _ hnext =>
    Mut.safe_bind_lift fun _ hrot => Mut.safe_set ⟨_, rfl, .published hvalid ?_ hrot⟩)
  rw [refuseIf_eq_ok, bne_eq_false_iff_eq] at hexp hnext
  rw [hnext, u64Add_eq_some.mp (okOr_eq_ok.mp hver), hexp]
  rfl

theorem safe_prepare (expectedFloor : UInt64) (a : ReleaseAdmission) :
    Mut.Safe (prepare f expectedFloor a) s fun _ s' =>
      floorOf s < a.candidate.manifest.sequence ∧
        ∃ t, s' = some t ∧ Change f s none [a.candidate.manifest] t := by
  unfold prepare
  refine Mut.safe_bind_lift fun _ _ => Mut.safe_bind_lift fun _ _ => Mut.safe_bind_get
    (Mut.safe_bind_lift fun old hold => Mut.safe_bind_lift fun _ hpend =>
    Mut.safe_bind_lift fun _ _ => Mut.safe_bind_lift fun _ hguard =>
    Mut.safe_bind_lift fun _ _ => Mut.safe_set ?_)
  simp only [refuseIf_eq_ok, Bool.or_eq_false_iff, bne_eq_false_iff_eq, decide_eq_false_iff_not,
    UInt64.not_le, u64Larger_lt, Option.isSome_eq_false_iff, Option.isNone_iff_eq_none]
    at hpend hguard
  obtain ⟨⟨⟨⟨⟨⟨⟨-, -⟩, -⟩, hfloor, hprior⟩, -⟩, -⟩, -⟩, hack⟩ := hguard
  have hs := okOr_eq_ok.mp hold
  refine ⟨hs ▸ hfloor, _, rfl, .prepared hs hpend.1.1 hfloor hprior fun m hm => ?_⟩
  rw [hm, Option.any_some, bne_eq_false_iff_eq] at hack
  exact hack

theorem safe_initializeRelease (release : SignedRelease) :
    Mut.Safe (initializeRelease f release) s fun _ s' =>
      ∃ t, s' = some t ∧ Change f s none [release.manifest] t := by
  unfold initializeRelease
  refine Mut.safe_bind_lift fun _ _ => Mut.safe_bind_get (Mut.safe_bind_lift fun old hold =>
    Mut.safe_bind_lift fun _ hguard => Mut.safe_bind_lift fun _ _ => Mut.safe_set ⟨_, rfl, ?_⟩)
  simp only [refuseIf_eq_ok, Bool.or_eq_false_iff, bne_eq_false_iff_eq,
    Option.isSome_eq_false_iff, Option.isNone_iff_eq_none] at hguard
  obtain ⟨⟨⟨⟨hfloor, hack⟩, hpend⟩, hret⟩, -⟩ := hguard
  exact .initialized (okOr_eq_ok.mp hold) hfloor hack hpend hret

theorem safe_resolve (digest : String) (outcome : Outcome) :
    Mut.Safe (resolve f digest outcome) s fun _ s' => ∃ old a, s = some old ∧
      old.pending = some a ∧ s' = some (match outcome with
        | .confirmed => { old with
            retained := some a.prior, acknowledged := some a.candidate.manifest, pending := none }
        | _ => { old with acknowledged := some a.prior, pending := none }) := by
  unfold resolve
  refine Mut.safe_bind_lift fun _ _ => Mut.safe_bind_get (Mut.safe_bind_lift fun old hold =>
    Mut.safe_bind_lift fun a ha => Mut.safe_bind_lift fun _ _ =>
    Mut.safe_bind_lift fun _ _ => ?_)
  have hs := okOr_eq_ok.mp hold
  have hp := okOr_eq_ok.mp ha
  cases outcome with
  | confirmed => exact Mut.safe_bind_lift fun _ _ => Mut.safe_set ⟨old, a, hs, hp, rfl⟩
  | fallback | abandoned => exact Mut.safe_set ⟨old, a, hs, hp, rfl⟩

/-- **One contract for all four operations.** -/
theorem safe_method (op : ReleaseOp) :
    Mut.Safe (op.method f) s fun _ s' =>
      ∃ t, s' = some t ∧ Change f s op.offers op.mentions t := by
  cases op with
  | publish expected next => exact safe_publish expected next
  | prepare expectedFloor a => exact (safe_prepare expectedFloor a).mono fun _ _ h => h.2
  | initializeRelease release => exact safe_initializeRelease release
  | resolve digest outcome =>
    refine (safe_resolve digest outcome).mono ?_
    rintro _ _ ⟨old, a, rfl, ha, rfl⟩
    refine ⟨_, rfl, ?_⟩
    cases outcome with
    | confirmed => exact .confirmed rfl ha
    | fallback | abandoned => exact .restored rfl ha

/-! ## Runs and their history -/

/-- The state an operation leaves, whether it succeeds or not. -/
def step (f : Formats) (s : Option ReleaseState) (op : ReleaseOp) : Option ReleaseState :=
  ((op.method f).exec s).2

def run (f : Formats) (s : Option ReleaseState) (ops : List ReleaseOp) : Option ReleaseState :=
  ops.foldl (step f) s

/-- The manifests one step initialized, prepared or acknowledged. -/
def stepHistory (f : Formats) (s : Option ReleaseState) (op : ReleaseOp) : List Manifest :=
  match (op.method f).exec s with
  | (.ok _, s') => op.mentions ++ (s'.bind fun t => t.acknowledged).toList
  | (.error _, _) => []

/-- The bundle one step published. -/
def stepBundle (f : Formats) (s : Option ReleaseState) (op : ReleaseOp) : Option ReleaseTrust :=
  match (op.method f).exec s with
  | (.ok _, _) => op.offers
  | (.error _, _) => none

/-- Every manifest a run initialized, prepared or acknowledged. -/
def history (f : Formats) : Option ReleaseState → List ReleaseOp → List Manifest
  | _, [] => []
  | s, op :: ops => stepHistory f s op ++ history f (step f s op) ops

/-- The bundles a run published, in order. -/
def bundles (f : Formats) : Option ReleaseState → List ReleaseOp → List ReleaseTrust
  | _, [] => []
  | s, op :: ops => (stepBundle f s op).toList ++ bundles f (step f s op) ops

/-- The step of a run: nothing, or a change. -/
theorem step_cases (f : Formats) (s : Option ReleaseState) (op : ReleaseOp) :
    (step f s op = s ∧ stepHistory f s op = [] ∧ stepBundle f s op = none) ∨
      ∃ t, step f s op = some t ∧ Change f s (stepBundle f s op) op.mentions t ∧
        stepHistory f s op = op.mentions ++ t.acknowledged.toList := by
  have hspec : Mut.Spec (op.method f) s _ := (safe_method op).spec
  unfold step stepHistory stepBundle
  rcases hexec : (op.method f).exec s with ⟨e | u, s'⟩
  · exact Or.inl ⟨hspec.of_error hexec, rfl, rfl⟩
  · obtain ⟨t, rfl, ht⟩ := hspec.of_ok hexec
    exact Or.inr ⟨t, rfl, ht, rfl⟩

/-! ## The floor -/

/-- What the floor bounds in a state. -/
structure Floored (t : ReleaseState) : Prop where
  acknowledged : ∀ m, t.acknowledged = some m → m.sequence ≤ t.floor
  retained : ∀ m, t.retained = some m → m.sequence ≤ t.floor
  prior : ∀ a, t.pending = some a → a.prior.sequence ≤ t.floor
  candidate : ∀ a, t.pending = some a → a.candidate.manifest.sequence = t.floor

theorem Change.floor_le {b : Option ReleaseTrust} {ms : List Manifest} {t : ReleaseState}
    (h : Change f s b ms t) :
    floorOf s ≤ t.floor := by
  cases h with
  | published =>
    cases s with
    | none | some old => exact UInt64.le_refl _
  | prepared hs _ hlt => exact hs ▸ UInt64.le_of_lt hlt
  | initialized hs hfloor =>
    subst hs
    rw [show floorOf (some _) = 0 from hfloor]
    exact UInt64.zero_le
  | confirmed hs | restored hs => exact hs ▸ UInt64.le_refl _

theorem Change.floored {b : Option ReleaseTrust} {ms : List Manifest} {t : ReleaseState}
    (h : Change f s b ms t)
    (hs : ∀ old, s = some old → Floored old) : Floored t := by
  cases h with
  | published =>
    cases s with
    | none => exact ⟨fun _ h => (nomatch h), fun _ h => (nomatch h),
        fun _ h => (nomatch h), fun _ h => (nomatch h)⟩
    | some old => exact ⟨(hs old rfl).acknowledged, (hs old rfl).retained, (hs old rfl).prior,
        (hs old rfl).candidate⟩
  | @prepared old a h hpend hfloor hprior hack =>
    refine ⟨?_, fun m hm => ?_, ?_, ?_⟩
    · rintro m ⟨⟩
      exact UInt64.le_of_lt hprior
    · exact UInt64.le_trans ((hs old h).retained m hm) (UInt64.le_of_lt hfloor)
    · rintro b ⟨⟩
      exact UInt64.le_of_lt hprior
    · rintro b ⟨⟩
      rfl
  | @initialized old m h hfloor hack hpend hret =>
    refine ⟨?_, fun m hm => ?_, fun a ha => ?_, fun a ha => ?_⟩
    · rintro m ⟨⟩
      exact UInt64.le_refl _
    · exact absurd hm (by simp [hret])
    · exact absurd ha (by simp [hpend])
    · exact absurd ha (by simp [hpend])
  | @confirmed old a h hpend =>
    have ho := hs old h
    refine ⟨?_, ?_, fun _ h => (nomatch h), fun _ h => (nomatch h)⟩
    · rintro m ⟨⟩
      rw [ho.candidate a hpend]
      exact UInt64.le_refl _
    · rintro m ⟨⟩
      exact ho.prior a hpend
  | @restored old a h hpend =>
    have ho := hs old h
    refine ⟨?_, ho.retained, fun _ h => (nomatch h), fun _ h => (nomatch h)⟩
    rintro m ⟨⟩
    exact ho.prior a hpend

theorem Change.mentions_le {b : Option ReleaseTrust} {ms : List Manifest} {t : ReleaseState}
    (h : Change f s b ms t)
    {m : Manifest} (hm : m ∈ ms) : m.sequence ≤ t.floor := by
  cases h with
  | prepared | initialized =>
    obtain rfl := List.mem_singleton.mp hm
    exact UInt64.le_refl _
  | _ => exact absurd hm List.not_mem_nil

/-- A run keeps the floor, the bounds of its states, and the bound of its history. -/
theorem run_floored (f : Formats) (ops : List ReleaseOp) :
    ∀ s, (∀ old, s = some old → Floored old) →
      (∀ t, run f s ops = some t → Floored t) ∧ floorOf s ≤ floorOf (run f s ops) ∧
        ∀ m ∈ history f s ops, m.sequence ≤ floorOf (run f s ops) := by
  induction ops with
  | nil => exact fun s hs => ⟨hs, UInt64.le_refl _, fun m hm => absurd hm List.not_mem_nil⟩
  | cons op ops ih =>
    intro s hs
    obtain ⟨heq, hhist, -⟩ | ⟨t, heq, hchange, hhist⟩ := step_cases f s op
    · rw [history, hhist, List.nil_append, run, List.foldl_cons, heq]
      exact ih s hs
    · have ht := hchange.floored hs
      obtain ⟨h1, h2, h3⟩ := ih (some t) fun old h => Option.some_inj.mp h ▸ ht
      rw [history, hhist, run, List.foldl_cons, heq]
      refine ⟨h1, UInt64.le_trans hchange.floor_le h2, fun m hm => ?_⟩
      -- the manifests of this step are below its floor, the later ones below the final floor
      rcases List.mem_append.mp hm with hm | hm
      · refine UInt64.le_trans ?_ h2
        rcases List.mem_append.mp hm with hm | hm
        · exact hchange.mentions_le hm
        · exact ht.acknowledged m (Option.mem_toList.mp hm)
      · exact h3 m hm

/-- **Release admission never rolls back.** Of every reachable state: no continuation lowers the
floor; the acknowledged, the retained and the pending prior manifest are at or below it and a
pending candidate is exactly at it; a candidate that can be prepared is above every manifest
initialized, prepared or acknowledged so far; a fallback or an abandonment restores the prior
manifest and nothing else; and a failed call leaves the state. -/
theorem release_never_rolls_back (f : Formats) (ops : List ReleaseOp) :
    (∀ more, floorOf (run f none ops) ≤ floorOf (run f (run f none ops) more)) ∧
    (∀ t, run f none ops = some t → Floored t) ∧
    (∀ expectedFloor a s', (prepare f expectedFloor a).exec (run f none ops) = (.ok (), s') →
      ∀ m ∈ history f none ops, m.sequence < a.candidate.manifest.sequence) ∧
    (∀ digest outcome s', outcome ≠ .confirmed →
      (resolve f digest outcome).exec (run f none ops) = (.ok (), s') →
      ∃ t a, run f none ops = some t ∧ t.pending = some a ∧
        s' = some { t with acknowledged := some a.prior, pending := none }) ∧
    (∀ (op : ReleaseOp) e s', (op.method f).exec (run f none ops) = (.error e, s') →
      s' = run f none ops) := by
  obtain ⟨hfloored, -, hhist⟩ := run_floored f ops none fun _ h => (nomatch h)
  refine ⟨fun more => (run_floored f more _ hfloored).2.1, hfloored, ?_, ?_, ?_⟩
  · intro expectedFloor a s' h m hm
    obtain ⟨hlt, -⟩ := (safe_prepare expectedFloor a).spec.of_ok h
    exact UInt64.lt_of_le_of_lt (hhist m hm) hlt
  · intro digest outcome s' hne h
    obtain ⟨t, a, hs, ha, rfl⟩ := (safe_resolve digest outcome).spec.of_ok h
    refine ⟨t, a, hs, ha, ?_⟩
    cases outcome with
    | confirmed => exact absurd rfl hne
    | fallback => rfl
    | abandoned => rfl
  · intro op e s' h
    exact (safe_method op).spec.of_error h

/-! ## Keys across bundles -/

/-- What a bundle keeps of an earlier one. -/
structure Retains (a b : ReleaseBundle) : Prop where
  environment : b.environment = a.environment
  root : b.rootSha256 = a.rootSha256
  key : ∀ k ∈ a.keys, ∃ k' ∈ b.keys, k'.id = k.id ∧ k'.publicKeyHex = k.publicKeyHex ∧
    (k.revoked = true → k'.revoked = true)

theorem Retains.refl (a : ReleaseBundle) : Retains a a :=
  ⟨rfl, rfl, fun k hk => ⟨k, hk, rfl, rfl, id⟩⟩

theorem Retains.trans {a b c : ReleaseBundle} (h : Retains a b) (h' : Retains b c) :
    Retains a c := by
  refine ⟨h'.environment.trans h.environment, h'.root.trans h.root, fun k hk => ?_⟩
  obtain ⟨k1, hk1, hid1, hpub1, hrev1⟩ := h.key k hk
  obtain ⟨k2, hk2, hid2, hpub2, hrev2⟩ := h'.key k1 hk1
  exact ⟨k2, hk2, hid2.trans hid1, hpub2.trans hpub1, fun hr => hrev2 (hrev1 hr)⟩

/-- The comparison of `publish`, key by key. -/
theorem retains_of_rotation {old : ReleaseState} {next : ReleaseTrust}
    (h : rotation (some old) next = .ok ()) : Retains old.trust.trust next.trust := by
  simp only [rotation, bind_eq_ok, refuseIf_eq_ok, Bool.or_eq_false_iff, bne_eq_false_iff_eq,
    forM_eq_ok] at h
  obtain ⟨_, ⟨henv, hroot⟩, hkeys⟩ := h
  refine ⟨henv.symm, hroot.symm, fun k hk => ?_⟩
  have hrot := hkeys k hk
  simp only [rotateKey, bind_eq_ok, okOr_eq_ok, refuseIf_eq_ok, Bool.or_eq_false_iff,
    bne_eq_false_iff_eq, Bool.and_eq_false_imp, Bool.not_eq_false'] at hrot
  obtain ⟨k', hfind, ⟨hpub, -⟩, hrev⟩ := hrot
  exact ⟨k', List.mem_of_find?_eq_some hfind, by simpa using List.find?_some hfind, hpub.symm,
    hrev⟩

end ReleaseState

/-- **Inside a bundle no public key occurs twice.** -/
theorem ReleaseTrust.nodup_keys {sha256 : Bytes → Vector UInt8 32} {t : ReleaseTrust}
    (h : t.validate sha256 = .ok ()) :
    (t.trust.keys.map (·.publicKeyHex)).Nodup := by
  simp only [validate, bind_eq_ok] at h
  obtain ⟨_, -, _, -, _, -, _, -, seen, hloop, -⟩ := h
  -- only the lookup among the public keys seen is of interest
  have hstep : ∀ past x s, keyStep sha256 t.trust past x = .ok s →
      (True ∧ ∀ y ∈ past, y.publicKeyHex ≠ x.publicKeyHex) ∧ s = past ++ [x] := by
    intro past x s hs
    simp only [keyStep, bind_eq_ok, refuseIf_eq_ok, Bool.or_eq_false_iff, pure_eq_ok] at hs
    obtain ⟨_, ⟨-, hpub⟩, _, -, _, -, _, -, _, -, _, -, rfl⟩ := hs
    simp only [List.any_eq_false, beq_iff_eq] at hpub
    exact ⟨⟨trivial, hpub⟩, rfl⟩
  rw [List.Nodup, List.pairwise_map]
  exact (pairwise_of_foldlM (S := id) hstep t.trust.keys [] seen .nil hloop).2.1

namespace ReleaseState

/-- A public key that `a` revokes is offered by `b` under no identifier, as a live record or
through `SignedTrust::key`. -/
def Buries (a b : ReleaseTrust) : Prop :=
  ∀ k ∈ a.trust.keys, k.revoked = true →
    (∀ k' ∈ b.trust.keys, k'.publicKeyHex = k.publicKeyHex → k'.revoked = true) ∧
    ∀ id k', b.key id = .ok k' → k'.publicKeyHex ≠ k.publicKeyHex

/-- Retention is by identifier; uniqueness of public keys turns it into burial by public key. -/
theorem Retains.buries {f : Formats} {a b : ReleaseTrust} (h : Retains a.trust b.trust)
    (hb : b.validate f.sha256 = .ok ()) : Buries a b := by
  intro k hk hrev
  obtain ⟨r, hr, -, hpub, hrrev⟩ := h.key k hk
  have hlive : ∀ k' ∈ b.trust.keys, k'.publicKeyHex = k.publicKeyHex → k'.revoked = true := by
    intro k' hk' heq
    have hkr : k' = r :=
      List.inj_on_of_nodup_map (ReleaseTrust.nodup_keys hb) hk' hr (heq.trans hpub.symm)
    exact hkr ▸ hrrev hrev
  refine ⟨hlive, fun id k' hkey heq => ?_⟩
  rw [ReleaseTrust.key, okOr_eq_ok] at hkey
  have hnot := List.find?_some hkey
  rw [hlive k' (List.mem_of_find?_eq_some hkey) heq] at hnot
  simp at hnot

/-- One publication after another. -/
structure Follows (f : Formats) (a b : ReleaseTrust) : Prop where
  retains : Retains a.trust b.trust
  valid : b.validate f.sha256 = .ok ()

theorem Follows.trans {f : Formats} {a b c : ReleaseTrust} (h : Follows f a b)
    (h' : Follows f b c) : Follows f a c :=
  ⟨h.retains.trans h'.retains, h'.valid⟩

/-- The bundle a state anchors. -/
def anchored (s : Option ReleaseState) : Option ReleaseTrust := s.map fun t => t.trust

/-- A step without a publication keeps the anchored bundle. -/
theorem Change.anchored_none {f : Formats} {s : Option ReleaseState} {ms : List Manifest}
    {t : ReleaseState} (h : Change f s none ms t) : anchored s = some t.trust := by
  cases h with
  | prepared hs | initialized hs | confirmed hs | restored hs => exact hs ▸ rfl

/-- A publication anchors the bundle, which follows the one before. -/
theorem Change.anchored_some {f : Formats} {s : Option ReleaseState} {next : ReleaseTrust}
    {ms : List Manifest} {t : ReleaseState} (h : Change f s (some next) ms t) :
    t.trust = next ∧ next.validate f.sha256 = .ok () ∧
      next.trust.version.toNat = (versionOf s).toNat + 1 ∧
      ∀ a, anchored s = some a → Follows f a next := by
  cases h with
  | published hvalid hver hrot =>
    cases s with
    | none => exact ⟨rfl, hvalid, hver, fun _ h => (nomatch h)⟩
    | some old =>
      refine ⟨rfl, hvalid, hver, ?_⟩
      rintro a ⟨⟩
      exact ⟨retains_of_rotation hrot, hvalid⟩

theorem versionOf_eq (s : Option ReleaseState) :
    versionOf s = ((anchored s).map fun t => t.trust.version).getD 0 := by
  cases s with
  | none => rfl
  | some t => rfl

/-- **The publications of a run are a chain** that starts at the anchored bundle and ends at the
one anchored last, with consecutive versions. -/
theorem run_bundles (f : Formats) (ops : List ReleaseOp) : ∀ s,
    ((anchored s).toList ++ bundles f s ops).Pairwise (Follows f) ∧
    (∀ b ∈ bundles f s ops, b.validate f.sha256 = .ok ()) ∧
    ((anchored s).toList ++ bundles f s ops).getLast? = anchored (run f s ops) ∧
    (bundles f s ops).map (fun b => b.trust.version.toNat) =
      List.range' ((versionOf s).toNat + 1) (bundles f s ops).length := by
  induction ops with
  | nil =>
    intro s
    simp only [bundles, List.append_nil, run, List.foldl_nil]
    refine ⟨?_, fun b hb => absurd hb List.not_mem_nil, ?_, rfl⟩
    · cases s <;> simp [anchored]
    · cases s <;> rfl
  | cons op ops ih =>
    intro s
    obtain ⟨heq, -, hnone⟩ | ⟨t, heq, hchange, -⟩ := step_cases f s op
    · rw [bundles, hnone, run, List.foldl_cons, heq]
      exact ih s
    · rw [bundles, run, List.foldl_cons, heq]
      obtain ⟨hpw, hvalid, hlast, hver⟩ := ih (some t)
      cases hb : stepBundle f s op with
      | none =>
        -- the anchored bundle did not move
        rw [hb] at hchange
        rw [versionOf_eq, hchange.anchored_none]
        exact ⟨hpw, hvalid, hlast, hver⟩
      | some next =>
        rw [hb] at hchange
        obtain ⟨rfl, hnext, hnver, hfollows⟩ := hchange.anchored_some
        have hpw' : (t.trust :: bundles f (some t) ops).Pairwise (Follows f) := hpw
        refine ⟨?_, ?_, ?_, ?_⟩
        · rw [List.pairwise_append]
          refine ⟨by cases s <;> simp [anchored], hpw', fun a ha b hb => ?_⟩
          have hat := hfollows a (Option.mem_toList.mp ha)
          rcases List.mem_cons.mp hb with rfl | hb
          · exact hat
          · exact hat.trans ((List.pairwise_cons.mp hpw').1 b hb)
        · exact List.forall_mem_cons.mpr ⟨hnext, hvalid⟩
        · rw [Option.toList_some, List.getLast?_append_of_ne_nil _ (by simp)]
          exact hlast
        · simp only [Option.toList_some, List.singleton_append, List.map_cons, List.length_cons,
            List.range'_succ, hver, hnver]
          rw [show versionOf (some t) = t.trust.trust.version from rfl, hnver]

/-- **Revoked release keys stay dead.** For the publications of every run from no state:
versions are consecutive from `1`; environment, root and every published key identity are kept;
a public key once revoked is never offered again, by a later bundle or by the anchored one. -/
theorem revoked_keys_stay_dead (f : Formats) (ops : List ReleaseOp) :
    (bundles f none ops).map (fun b => b.trust.version.toNat) =
      List.range' 1 (bundles f none ops).length ∧
    (bundles f none ops).Pairwise (fun a b => Retains a.trust b.trust ∧ Buries a b) ∧
    ∀ t, run f none ops = some t →
      (bundles f none ops).getLast? = some t.trust ∧
      ∀ a ∈ bundles f none ops, Retains a.trust t.trust.trust ∧ Buries a t.trust := by
  obtain ⟨hpw, hvalid, hlast, hver⟩ := run_bundles f ops none
  replace hpw : (bundles f none ops).Pairwise (Follows f) := hpw
  refine ⟨hver, hpw.imp fun h => ⟨h.retains, h.retains.buries h.valid⟩, fun t ht => ?_⟩
  rw [ht] at hlast
  refine ⟨hlast, fun a ha => ?_⟩
  have hmem : t.trust ∈ bundles f none ops := List.mem_of_getLast? hlast
  have hretains : Retains a.trust t.trust.trust := by
    obtain ⟨front, hfront⟩ := List.getLast?_eq_some_iff.mp hlast
    rw [show bundles f none ops = front ++ [t.trust] from hfront] at ha hpw
    rcases List.mem_append.mp ha with ha | ha
    · exact ((List.pairwise_append.mp hpw).2.2 a ha _ (List.mem_singleton_self _)).retains
    · exact List.mem_singleton.mp ha ▸ Retains.refl _
  exact ⟨hretains, hretains.buries (hvalid _ hmem)⟩

end ReleaseState

end LumaOS.Governance
