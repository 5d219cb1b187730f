import LumaOS.Resources.Session

/-!
# What a session keeps

`transaction_cases` says once what a transaction that returned has done. `Agrees` is the invariant
of a session: the file holds the durable form of the ledger acknowledged last (`History.durable`),
and overlaying it with the session's maps gives its live form (`History.live`). A transaction keeps
it on both paths (`Agrees.transacted`): a publication writes the durable form, and where the
digests agree the file is the durable form already.

`session_durable` reads off what a store reopened over the file shows. Every admission deadline is
durable, but `renew` may also bring one forward, and then the reopened store shows the later one
(`session_shortened`).
-/

namespace LumaOS.Resources

open LumaOS.Base LumaOS.Text LumaOS.Json

variable {sha256 : Bytes → Vector UInt8 32}

variable {a : Answers} {acknowledge : Bool} {file : Bytes} {l : Ledger} {s s' : Store}

/-! ## What a call that returns has seen -/

namespace Store

theorem exec_verifyExclusion_eq_ok {r : Result Unit} {u : Unit} :
    (verifyExclusion r).exec s = (.ok u, s') ↔ s' = s ∧ s.authorityLost = false ∧ r = .ok () := by
  simp only [verifyExclusion, Mut.exec_bind_get, Mut.exec_bind_lift_eq_ok, refuseIf_eq_ok,
    Mut.exec_onError_eq_ok, Mut.exec_lift, Prod.mk.injEq, exists_const]
  constructor
  · rintro ⟨hlost, hr, rfl⟩
    exact ⟨rfl, hlost, hr⟩
  · rintro ⟨rfl, hlost, hr⟩
    exact ⟨hlost, hr, rfl⟩

/-- The directory and its pair are what they were, as far as the `i`-th calls can tell. -/
structure Granted (a : Answers) (i : Nat) : Prop where
  before : a.lock i = .ok ()
  pair : a.pair i = .ok ()
  after : a.lock (i + 1) = .ok ()

/-- The file is the one this store published. -/
structure Owned (sha256 : Bytes → Vector UInt8 32) (s : Store) : Prop where
  held : s.authorityLost = false
  small : s.file.length ≤ maxBytes
  published : hex (sha256 s.file).toList = s.publishedSha256

theorem exec_durableBytes_eq_ok {i : Nat} {bytes : Bytes} :
    (durableBytes sha256 a i).exec s = (.ok bytes, s') ↔
      s' = s ∧ bytes = s.file ∧ s.Owned sha256 ∧ Granted a i := by
  simp only [durableBytes, Mut.exec_bind_eq_ok, exec_verifyExclusion_eq_ok, Mut.exec_onError_eq_ok,
    Mut.exec_get, Mut.exec_lift, Mut.exec_pure, Prod.mk.injEq, refuseIf_eq_ok,
    decide_eq_false_iff_not, Nat.not_lt, bne_eq_false_iff_eq, Except.ok.injEq]
  constructor
  · rintro ⟨_, _, ⟨rfl, hheld, h0⟩, _, _, ⟨rfl, rfl⟩, _, _, ⟨hsmall, rfl⟩, _, _, ⟨hpub, rfl⟩, _, _,
      ⟨hp, rfl⟩, _, _, ⟨rfl, -, h1⟩, rfl, rfl⟩
    exact ⟨rfl, rfl, ⟨hheld, hsmall, hpub⟩, ⟨h0, hp, h1⟩⟩
  · rintro ⟨rfl, rfl, ⟨hheld, hsmall, hpub⟩, ⟨h0, hp, h1⟩⟩
    exact ⟨(), _, ⟨rfl, hheld, h0⟩, _, _, ⟨rfl, rfl⟩, (), _, ⟨hsmall, rfl⟩, (), _, ⟨hpub, rfl⟩, (),
      _, ⟨hp, rfl⟩, (), _, ⟨rfl, hheld, h1⟩, rfl, rfl⟩

/-- What `read` returns of a store. -/
structure Shows (sha256 : Bytes → Vector UInt8 32) (s : Store) (l : Ledger) : Prop where
  owned : s.Owned sha256
  certain : s.poisoned = false
  decoded : ∃ durable, decodeAs Ledger.ofJson s.file = some durable ∧
    toVec durable.toJson = s.file ∧ durable.validate = .ok () ∧
    ∃ domains, s.observed durable.domains = .ok domains ∧
      l = { durable with domains, leases := durable.leases.map s.renewed }

theorem Shows.unique {l l' : Ledger} (h : s.Shows sha256 l) (h' : s.Shows sha256 l') :
    l = l' := by
  obtain ⟨durable, hdecode, -, -, domains, hdomains, rfl⟩ := h.decoded
  obtain ⟨durable', hdecode', -, -, domains', hdomains', rfl⟩ := h'.decoded
  obtain rfl : durable = durable' := Option.some.inj (hdecode.symm.trans hdecode')
  obtain rfl : domains = domains' := Except.ok.inj (hdomains.symm.trans hdomains')
  rfl

theorem exec_read_eq_ok {i : Nat} :
    (read sha256 a i).exec s = (.ok l, s') ↔
      s' = s ∧ s.Shows sha256 l ∧ Granted a i ∧ a.lock (i + 2) = .ok () := by
  simp only [read, Mut.exec_bind_get, Mut.exec_bind_eq_ok, exec_durableBytes_eq_ok, Mut.exec_lift,
    exec_verifyExclusion_eq_ok, Mut.exec_pure, Prod.mk.injEq, refuseIf_eq_ok, okOr_eq_ok,
    bne_eq_false_iff_eq, Except.ok.injEq]
  constructor
  · rintro ⟨_, _, ⟨hpoison, rfl⟩, _, _, ⟨rfl, rfl, howned, hgranted⟩, durable, _, ⟨hdecode, rfl⟩,
      _, _, ⟨hcanonical, rfl⟩, _, _, ⟨hvalid, rfl⟩, domains, _, ⟨hdomains, rfl⟩, _, _,
      ⟨rfl, -, hlast⟩, rfl, rfl⟩
    exact ⟨rfl, ⟨howned, hpoison, durable, hdecode, hcanonical, hvalid, domains, hdomains, rfl⟩,
      hgranted, hlast⟩
  · rintro ⟨rfl, ⟨howned, hpoison, durable, hdecode, hcanonical, hvalid, domains, hdomains, rfl⟩,
      hgranted, hlast⟩
    exact ⟨(), _, ⟨hpoison, rfl⟩, _, _, ⟨rfl, rfl, howned, hgranted⟩, durable, _, ⟨hdecode, rfl⟩,
      (), _, ⟨hcanonical, rfl⟩, (), _, ⟨hvalid, rfl⟩, domains, _, ⟨hdomains, rfl⟩, (), _,
      ⟨rfl, howned.held, hlast⟩, rfl, rfl⟩

theorem exec_synchronize_eq_ok {u : Unit}
    (h : (synchronize sha256 acknowledge a).exec s = (.ok u, s')) : s' = s := by
  simp only [synchronize, Mut.exec_bind_eq_ok, exec_verifyExclusion_eq_ok] at h
  obtain ⟨_, _, ⟨rfl, -⟩, h⟩ := h
  split at h
  · simp only [Mut.exec_lift, Mut.exec_bind_eq_ok, Prod.mk.injEq, exec_durableBytes_eq_ok,
      Mut.exec_pure] at h
    obtain ⟨_, _, ⟨-, rfl⟩, _, _, ⟨rfl, -⟩, -, rfl⟩ := h
    rfl
  · simp only [Mut.exec_bind_eq_ok, exec_durableBytes_eq_ok, Mut.exec_pure, Prod.mk.injEq] at h
    obtain ⟨_, _, ⟨rfl, -⟩, -, rfl⟩ := h
    rfl

theorem exec_publish_eq_ok {bytes : Bytes} {u : Unit} (h : (publish bytes a).exec s = (.ok u, s')) :
    s' = { s with file := bytes } := by
  simp only [publish, Mut.exec_bind_eq_ok, exec_verifyExclusion_eq_ok, Mut.exec_modify,
    Mut.exec_get, Mut.exec_lift, Prod.mk.injEq, refuseIf_eq_ok, bne_eq_false_iff_eq] at h
  obtain ⟨_, _, ⟨rfl, -⟩, _, _, ⟨-, rfl⟩, _, _, ⟨-, rfl⟩, _, _, ⟨rfl, -⟩, _, _, ⟨hs, rfl⟩, _, _,
    ⟨-, rfl⟩, _, _, ⟨hbytes, rfl⟩, rfl, -⟩ := h
  obtain rfl := Except.ok.inj hs
  obtain hbytes : (a.publish bytes).2 = bytes := hbytes
  rw [hbytes]

theorem Shows.read (h : s.Shows sha256 l) (ha : a.Fair) (i : Nat) :
    (Store.read sha256 a i).exec s = (.ok l, s) :=
  Store.exec_read_eq_ok.mpr ⟨rfl, h, ⟨(ha i).1, (ha i).2, (ha (i + 1)).1⟩, (ha (i + 2)).1⟩

/-- **What a transaction that returned has done.** -/
theorem transaction_cases {α : Type} {operation : Mut Ledger α} {result : α}
    (h : (transaction sha256 operation acknowledge a).exec s = (.ok result, s')) :
    ∃ ledger next before, s.Shows sha256 ledger ∧ operation.exec ledger = (.ok result, next) ∧
      next.validate = .ok () ∧ decodeAs Ledger.ofJson s.file = some before ∧
      (toVec (admissions before next).toJson).length ≤ maxBytes ∧
      ((before.review sha256 = (admissions before next).review sha256 ∧ s' = remember next s) ∨
        s' = remember next { s with
          file := toVec (admissions before next).toJson
          publishedSha256 := hex (sha256 (toVec (admissions before next).toJson)).toList }) := by
  rw [transaction, Mut.exec_bind_eq_ok] at h
  obtain ⟨ledger, _, hread, h⟩ := h
  rw [exec_read_eq_ok] at hread
  obtain ⟨rfl, hshows, -, -⟩ := hread
  rcases hop : operation.exec ledger with ⟨r, next⟩
  simp only [hop, Mut.exec_bind_eq_ok, exec_durableBytes_eq_ok, Mut.exec_lift, Prod.mk.injEq,
    okOr_eq_ok, refuseIf_eq_ok, decide_eq_false_iff_not, Nat.not_lt] at h
  obtain ⟨result', _, ⟨rfl, rfl⟩, _, _, ⟨hvalid, rfl⟩, _, _, ⟨rfl, rfl, howned, -⟩, before, _,
    ⟨hbefore, rfl⟩, _, _, ⟨hsmall, rfl⟩, h⟩ := h
  split at h
  · rename_i hreview
    simp only [Mut.exec_bind_eq_ok, Mut.exec_onError_eq_ok, Mut.exec_modify, Mut.exec_pure,
      Prod.mk.injEq, Except.ok.injEq] at h
    obtain ⟨_, _, hsync, _, _, ⟨-, rfl⟩, rfl, rfl⟩ := h
    obtain rfl := exec_synchronize_eq_ok hsync
    exact ⟨ledger, next, before, hshows, hop, hvalid, hbefore, hsmall,
      Or.inl ⟨eq_of_beq hreview, rfl⟩⟩
  · simp only [Mut.exec_bind_eq_ok, Mut.exec_onError_eq_ok, Mut.exec_modify, Mut.exec_pure,
      Prod.mk.injEq, Except.ok.injEq] at h
    obtain ⟨_, _, hpublish, _, _, ⟨-, rfl⟩, _, _, ⟨-, rfl⟩, rfl, rfl⟩ := h
    obtain rfl := exec_publish_eq_ok hpublish
    exact ⟨ledger, next, before, hshows, hop, hvalid, hbefore, hsmall, Or.inr rfl⟩

/-- **An exact retry**: where the digests agree, nothing but what the session remembers changes. -/
theorem transaction_unchanged {α : Type} {operation : Mut Ledger α} {ledger before next : Ledger}
    {result : α} (ha : a.Fair) (hsync : a.synchronize = .ok ()) (hshows : s.Shows sha256 ledger)
    (hop : operation.exec ledger = (.ok result, next)) (hvalid : next.validate = .ok ())
    (hbefore : decodeAs Ledger.ofJson s.file = some before)
    (hsmall : (toVec (admissions before next).toJson).length ≤ maxBytes)
    (hsame : before.review sha256 = (admissions before next).review sha256) :
    (transaction sha256 operation acknowledge a).exec s = (.ok result, remember next s) := by
  have hbytes : ∀ i, (durableBytes sha256 a i).exec s = (.ok s.file, s) := fun i =>
    exec_durableBytes_eq_ok.mpr ⟨rfl, rfl, hshows.owned, (ha i).1, (ha i).2, (ha (i + 1)).1⟩
  have hlock : (verifyExclusion (a.lock 5)).exec s = (.ok (), s) :=
    exec_verifyExclusion_eq_ok.mpr ⟨rfl, hshows.owned.held, (ha 5).1⟩
  have hsynchronize : (synchronize sha256 acknowledge a).exec s = (.ok (), s) := by
    rw [synchronize, Mut.exec_bind_of_ok hlock]
    cases acknowledge with
    | true => rw [if_pos rfl, hsync, Mut.exec_bind_of_ok (Mut.exec_lift ..),
        Mut.exec_bind_of_ok (hbytes 6), Mut.exec_pure]
    | false =>
      rw [if_neg Bool.false_ne_true]
      exact Mut.exec_bind_of_ok (hbytes 6)
  rw [transaction, Mut.exec_bind_of_ok (hshows.read ha 0)]
  simp only [hop, hvalid, Mut.exec_bind_eq_ok, Mut.exec_lift, exec_durableBytes_eq_ok,
    Prod.mk.injEq, okOr_eq_ok, refuseIf_eq_ok, decide_eq_false_iff_not, Nat.not_lt]
  refine ⟨result, s, ⟨rfl, rfl⟩, (), s, ⟨trivial, rfl⟩, s.file, s,
    ⟨rfl, rfl, hshows.owned, (ha 3).1, (ha 3).2, (ha 4).1⟩, before, s, ⟨hbefore, rfl⟩, (), s,
    ⟨hsmall, rfl⟩, ?_⟩
  rw [if_pos (beq_iff_eq.mpr hsame), Mut.exec_bind_of_ok
    (Mut.exec_onError_eq_ok.mpr hsynchronize), Mut.exec_bind_modify, Mut.exec_pure]

/-! ## Overlaying the file -/

/-- Observations of domains that exist go through. -/
theorem observed_ok : ∀ {es : List (String × Nat)} {t : Table Domain},
    (∀ e ∈ es, e.1 ∈ t) → ∃ t', es.foldlM (fun (domains : Table Domain) e => do
      let d ← okOr domains[e.1]? "telemetry inventory changed"
      pure (domains.insert e.1 { d with observed := e.2 })) t = .ok t'
  | [], t, _ => ⟨t, rfl⟩
  | e :: es, t, h => by
    obtain ⟨d, hd⟩ := Table.mem_iff_get.mp (h e List.mem_cons_self)
    have hrest : ∀ f ∈ es, f.1 ∈ t.insert e.1 { d with observed := e.2 } := fun f hf =>
      Std.ExtTreeMap.mem_insert.mpr (Or.inr (h f (List.mem_cons_of_mem e hf)))
    obtain ⟨t', ht'⟩ := observed_ok hrest
    refine ⟨t', ?_⟩
    rw [List.foldlM_cons, bind_eq_ok]
    exact ⟨_, by rw [hd]; rfl, ht'⟩

/-- The telemetry of a ledger over domains that are otherwise its own. -/
theorem observed_remember {next : Ledger} {domains : Table Domain}
    (h : domains.map (fun _ (d : Domain) => { d with observed := 0 }) =
      next.domains.map fun _ (d : Domain) => { d with observed := 0 }) :
    (remember next s).observed domains = .ok next.domains := by
  have hget : ∀ id : String, (domains[id]?.map fun d => { d with observed := 0 }) =
      next.domains[id]?.map fun (d : Domain) => { d with observed := 0 } := by
    intro id
    have hid := congrArg (fun t : Table Domain => t[id]?) h
    simpa only [Table.get_map] using hid
  have hmem : ∀ e ∈ (next.domains.map fun _ (d : Domain) => d.observed).toList, e.1 ∈ domains := by
    intro e he
    rw [Table.mem_toList_iff_get, Table.get_map] at he
    obtain ⟨d, hd, -⟩ := Option.map_eq_some_iff.mp he
    have hid := hget e.1
    rw [hd, Option.map_some, Option.map_eq_some_iff] at hid
    obtain ⟨d', hd', -⟩ := hid
    exact Table.mem_iff_get.mpr ⟨d', hd'⟩
  obtain ⟨t', ht'⟩ := observed_ok hmem
  have hloop := Table.foldlM_entries
    (R := fun old e new => ∃ d : Domain, old = some d ∧ new = some { d with observed := e.2 })
    (fun t e t' he => by
      rw [bind_eq_ok] at he
      obtain ⟨d, hd, hins⟩ := he
      rw [pure_eq_ok] at hins
      subst hins
      refine ⟨⟨d, okOr_eq_ok.mp hd, Table.get_insert_self⟩, fun k hk => ?_⟩
      exact Table.get_insert_ne (Ne.symm hk)) ht'
  refine ht'.trans (congrArg _ (Std.ExtTreeMap.ext_getElem? fun id => ?_))
  have hid := hget id
  obtain ⟨hnone, hsame⟩ | ⟨used, hused, d, hd, hnew⟩ := hloop id
  · rw [Table.get_map, Option.map_eq_none_iff] at hnone
    rw [hnone, Option.map_none, Option.map_eq_none_iff] at hid
    rw [hsame, hid, hnone]
  · rw [Table.get_map, Option.map_eq_some_iff] at hused
    obtain ⟨live, hlive, rfl⟩ := hused
    rw [hd, hlive, Option.map_some, Option.map_some, Option.some.injEq] at hid
    rw [hnew, hlive, Option.some.injEq]
    cases d
    cases live
    simp_all

end Store

/-! ## Admission deadlines -/

namespace History

variable {h : History} {next : Ledger}

theorem deadlineOf_eq (hv : next.Valid) {x : Lease} (hx : x ∈ next.leases) :
    deadlineOf next x.token = x.deadlineMs := by
  have hsome : (next.leases.find? fun y => y.token == x.token).isSome := by
    rw [List.find?_isSome]
    exact ⟨x, hx, beq_self_eq_true _⟩
  obtain ⟨y, hy⟩ := Option.isSome_iff_exists.mp hsome
  obtain rfl := hv.eq_of_token (List.mem_of_find?_eq_some hy) hx (by simpa using List.find?_some hy)
  rw [deadlineOf, hy]
  rfl

theorem admitted_push (token : Token) : (h.push next).admitted token =
    if h.last.leases.any (fun x => x.token == token) then h.admitted token
    else deadlineOf next token := rfl

/-- What is written of a ledger is its durable form. -/
theorem admissions_eq {before : Ledger} (hb : before.leases = h.last.leases.map h.dated)
    (hv : next.Valid) : Store.admissions before next = (h.push next).durable := by
  rw [Store.admissions, durable]
  refine congrArg (fun leases => { next with leases := leases }) (List.map_congr_left ?_)
  intro x hx
  have hfind : (before.leases.find? fun old => old.token == x.token) =
      (h.last.leases.find? fun old => old.token == x.token).map h.dated := by
    rw [hb, List.find?_map]
    rfl
  simp only [dated, admitted_push]
  rw [hfind]
  cases hold : h.last.leases.find? fun old => old.token == x.token with
  | none =>
    rw [List.find?_eq_none] at hold
    rw [if_neg (by simpa using hold), deadlineOf_eq hv hx]
    rfl
  | some old =>
    have htoken : old.token = x.token := by simpa using List.find?_some hold
    rw [if_pos (List.any_eq_true.mpr ⟨old, List.mem_of_find?_eq_some hold, by simp [htoken]⟩),
      ← htoken]
    rfl

theorem evolves_dated (x : Lease) : Evolves x (h.dated x) := { Evolves.refl x with }

/-- A ledger stays valid with the deadlines its leases were admitted with. -/
theorem valid_durable (hv : h.last.Valid) (hne : ∀ x ∈ h.last.leases, h.admitted x.token ≠ 0) :
    h.durable.Valid :=
  hv.map_leases (fun x _ => evolves_dated x) (fun x hx hok => hok.renewed (hne x hx))
    fun _ _ => rfl

/-- Every admission deadline stands in the file or in the ledger that comes next. -/
theorem admitted_push_of {P : Nat → Prop} {before : List Lease}
    (hbefore : before = h.last.leases.map h.dated) (hold : ∀ y ∈ before, P y.deadlineMs)
    (hv : next.Valid) (hnext : ∀ y ∈ next.leases, P y.deadlineMs) {x : Lease}
    (hx : x ∈ next.leases) : P ((h.push next).admitted x.token) := by
  rw [admitted_push]
  split
  · rename_i hheld
    obtain ⟨old, hmem, htoken⟩ := List.any_eq_true.mp hheld
    have hdated := hold (h.dated old) (by rw [hbefore]; exact List.mem_map_of_mem hmem)
    rwa [← eq_of_beq htoken]
  · rw [deadlineOf_eq hv hx]
    exact hnext x hx

/-- No transaction of the session brought the deadline of a lease it kept forward. -/
def ExtendingFrom (opened : Ledger) : List Ledger → Prop
  | [] => True
  | l :: earlier => ExtendingFrom opened earlier ∧
      ∀ x ∈ (live ⟨opened, earlier⟩).leases, ∀ y ∈ l.leases, x.token = y.token →
        x.deadlineMs ≤ y.deadlineMs

def Extending (h : History) : Prop := ExtendingFrom h.opened h.produced

/-- The ledgers of a history are valid. -/
def Valid (h : History) : Prop := h.opened.Valid ∧ ∀ l ∈ h.produced, l.Valid

/-- Where deadlines are only extended, a lease has at least the one it was admitted with. -/
theorem admitted_le {opened : Ledger} : ∀ {produced : List Ledger},
    Valid ⟨opened, produced⟩ → ExtendingFrom opened produced →
      ∀ x ∈ (last ⟨opened, produced⟩).leases,
        admitted ⟨opened, produced⟩ x.token ≤ x.deadlineMs
  | [], hv, _, x, hx => Nat.le_of_eq (deadlineOf_eq hv.1 hx)
  | l :: earlier, hv, ⟨hearlier, hext⟩, y, hy => by
    have hvalid : Valid ⟨opened, earlier⟩ := ⟨hv.1, fun k hk => hv.2 k (List.mem_cons_of_mem l hk)⟩
    have hpush : admitted ⟨opened, l :: earlier⟩ y.token =
        if (last ⟨opened, earlier⟩).leases.any (fun x => x.token == y.token) then
          admitted ⟨opened, earlier⟩ y.token
        else deadlineOf l y.token := rfl
    rw [hpush]
    split
    · rename_i hheld
      obtain ⟨x, hx, htoken⟩ := List.any_eq_true.mp hheld
      obtain htoken := eq_of_beq htoken
      have hle := admitted_le hvalid hearlier x hx
      rw [htoken] at hle
      by_cases hactive : x.state == .active
      · refine hle.trans (hext x (List.mem_map.mpr ⟨x, hx, if_pos hactive⟩) y hy htoken)
      · have hlive := hext (dated ⟨opened, earlier⟩ x) (List.mem_map.mpr ⟨x, hx, if_neg hactive⟩)
          y hy htoken
        rw [← htoken]
        exact hlive
    · rw [deadlineOf_eq (hv.2 l List.mem_cons_self) hy]

end History

theorem Ledger.Valid.deadline_ne (hv : l.Valid) {x : Lease} (hx : x ∈ l.leases) :
    x.deadlineMs ≠ 0 := by
  have := (hv.leaseOk hx).wellFormed
  simp only [Lease.wellFormed, Bool.and_eq_true, bne_iff_ne] at this
  tauto

/-! ## One transaction -/

namespace Store

variable {h : History} {s : Store} {durable next : Ledger}

/-- What the session remembers overlays the file with the ledger it acknowledged. -/
theorem renewed_remember (hv : h.last.Valid) {x : Lease} (hx : x ∈ h.last.leases) :
    (remember h.last s).renewed (h.dated x) = if x.state == .active then x else h.dated x := by
  rw [renewed, show (h.dated x).state = x.state from rfl]
  split
  · rename_i hactive
    have hids : ((h.last.leases.filter fun x => x.state == .active).map
        fun x => x.token.leaseId).Nodup :=
      (List.pairwise_map.mpr (hv.leaseChain.imp LeaseLt.leaseId)).sublist
        (List.filter_sublist.map _)
    have hget : (remember h.last s).renewalDeadlines[(h.dated x).token.leaseId]? =
        some x.deadlineMs :=
      (Table.get_insertAll hids).mpr (Or.inl ⟨x, List.mem_filter.mpr ⟨hx, hactive⟩, rfl, rfl⟩)
    rw [hget]
    rfl
  · rfl

/-- A store over the durable form of what it acknowledged shows its live form. -/
theorem shows_remember (howned : s.Owned sha256) (hcertain : s.poisoned = false)
    (hdecode : decodeAs Ledger.ofJson s.file = some durable)
    (hcanonical : toVec durable.toJson = s.file) (hvalid : durable.validate = .ok ())
    (hdurable : durable.authority = h.durable.authority) (hv : h.last.Valid) :
    (remember h.last s).Shows sha256 h.live := by
  have hdomains := observed_remember (s := s) (congrArg Ledger.domains hdurable)
  refine ⟨⟨howned.held, howned.small, howned.published⟩, hcertain, durable, hdecode, hcanonical,
    hvalid, h.last.domains, hdomains, ?_⟩
  have hleases : durable.leases.map (remember h.last s).renewed = h.live.leases := by
    rw [show durable.leases = h.last.leases.map h.dated from congrArg Ledger.leases hdurable,
      List.map_map]
    exact List.map_congr_left fun x hx => renewed_remember hv hx
  rw [hleases]
  have h1 := congrArg Ledger.schemaVersion hdurable
  have h2 := congrArg Ledger.managerEpoch hdurable
  have h3 := congrArg Ledger.generation hdurable
  have h4 := congrArg Ledger.archives hdurable
  simp only [Ledger.authority, History.durable] at h1 h2 h3 h4
  simp only [History.live, h1, h2, h3, h4]

end Store

/-- The two ledgers are not a collision of the review digest. -/
def Apart (sha256 : Bytes → Vector UInt8 32) (l l' : Ledger) : Prop :=
  l.review sha256 = l'.review sha256 → toVec l.authority.toJson = toVec l'.authority.toJson

/-- **The invariant of a session**: the file holds the durable form of the ledger acknowledged last,
up to telemetry, and the store shows its live form. -/
structure Agrees (sha256 : Bytes → Vector UInt8 32) (h : History) (s : Store) : Prop where
  valid : h.Valid
  shows : s.Shows sha256 h.live
  durable : ∃ durable, decodeAs Ledger.ofJson s.file = some durable ∧
    durable.authority = h.durable.authority

theorem fits_of_decodeAs {bytes : Bytes} (h : decodeAs Ledger.ofJson bytes = some l) :
    l.Fits := by
  rw [decodeAs] at h
  split at h
  · exact Ledger.fits_of_ofJson h
  · cases h

theorem Ledger.Fits.authority (h : l.Fits) : l.authority.Fits where
  schemaVersion := h.schemaVersion
  generation := h.generation
  domains := by
    intro id d hd
    rw [Ledger.authority, Table.get_map, Option.map_eq_some_iff] at hd
    obtain ⟨d, hget, rfl⟩ := hd
    have hfits := h.domains id d hget
    simp only [Domain.Fits, Domain.words, List.forall_mem_cons] at hfits ⊢
    exact ⟨hfits.1, hfits.2.1, hfits.2.2.1, hfits.2.2.2.1, by decide, hfits.2.2.2.2.2⟩
  archives := h.archives
  leases := h.leases

theorem fits_durable {h : History} (hfits : h.last.Fits)
    (hdeadlines : ∀ x ∈ h.last.leases, h.admitted x.token < 2 ^ 64) : h.durable.Fits where
  schemaVersion := hfits.schemaVersion
  generation := hfits.generation
  domains := hfits.domains
  archives := hfits.archives
  leases := by
    intro y hy
    obtain ⟨x, hx, rfl⟩ := List.mem_map.mp hy
    have hlease := hfits.leases x hx
    exact ⟨hlease.generation, hlease.owner, hlease.reservations, hdeadlines x hx, hlease.epochs⟩

/-- **A transaction that returned keeps store and history in agreement.** -/
theorem Agrees.transacted {h : History} {α : Type} {operation : Mut Ledger α} {result : α}
    {next : Ledger} (hs : Agrees sha256 h s) (hop : operation.exec h.live = (.ok result, next))
    (hfits : next.Fits)
    (hapart : ∀ durable, decodeAs Ledger.ofJson s.file = some durable →
      Apart sha256 durable (Store.admissions durable next))
    (htransaction : (Store.transaction sha256 operation acknowledge a).exec s = (.ok result, s')) :
    Agrees sha256 (h.push next) s' := by
  obtain ⟨durable, hdecode, hdurable⟩ := hs.durable
  obtain ⟨durable', hdecode', hcanonical, hvalid, -⟩ := hs.shows.decoded
  obtain rfl : durable = durable' := Option.some.inj (hdecode.symm.trans hdecode')
  obtain ⟨ledger, next', before, hshows, hop', hnext, hbefore, hsmall, hcases⟩ :=
    Store.transaction_cases htransaction
  obtain rfl : before = durable := Option.some.inj (hbefore.symm.trans hdecode)
  obtain rfl : ledger = h.live := hshows.unique hs.shows
  obtain rfl : next' = next := congrArg Prod.snd (hop'.symm.trans hop)
  have hv : next'.Valid := Ledger.validate_eq_ok.mp hnext
  have hleases : before.leases = h.last.leases.map h.dated := congrArg Ledger.leases hdurable
  have hwritten := History.admissions_eq hleases hv
  have hbv : before.Valid := Ledger.validate_eq_ok.mp hvalid
  have hbfits := fits_of_decodeAs hdecode
  have hdurableFits : (h.push next').durable.Fits := fits_durable (h := h.push next') hfits
    fun x hx => History.admitted_push_of (P := (· < 2 ^ 64)) hleases
      (fun y hy => (hbfits.leases y hy).deadlineMs) hv
      (fun y hy => (hfits.leases y hy).deadlineMs) hx
  have hdurableValid : (h.push next').durable.Valid := History.valid_durable (h := h.push next') hv
    fun x hx => History.admitted_push_of (P := (· ≠ 0)) hleases (fun y hy => hbv.deadline_ne hy) hv
      (fun y hy => hv.deadline_ne hy) hx
  have hhistory : (h.push next').Valid :=
    ⟨hs.valid.1, fun l hl => (List.mem_cons.mp hl).elim (fun he => he ▸ hv) (hs.valid.2 l)⟩
  obtain ⟨hreview, rfl⟩ | rfl := hcases
  · -- the digests agree, so the file is the durable form of the next ledger already
    have hbytes := hapart before hdecode hreview
    rw [hwritten] at hbytes
    have hsame : before.authority = (h.push next').durable.authority :=
      Ledger.toVec_inj hbfits.authority hdurableFits.authority hbytes
    exact ⟨hhistory, Store.shows_remember (h := h.push next') hs.shows.owned hs.shows.certain
      hdecode hcanonical hvalid hsame hv, before, hdecode, hsame⟩
  · rw [hwritten] at hsmall ⊢
    have hread := Ledger.decodeAs_toVec hdurableFits
    exact ⟨hhistory, Store.shows_remember (h := h.push next') ⟨hs.shows.owned.held, hsmall, rfl⟩
      hs.shows.certain hread rfl (Ledger.validate_eq_ok.mpr hdurableValid) rfl hv,
      (h.push next').durable, hread, rfl⟩

/-! ## Sessions -/

/-- **A session**: a store that was opened, and the transactions that returned since. -/
inductive StoreSession (sha256 : Bytes → Vector UInt8 32) : History → Store → Prop where
  /-- `Store::open`, and the ledger the new store shows. -/
  | opened {file : Bytes} {a b : Answers} {i : Nat} {verifyArchives : Ledger → Result Unit}
      {s : Store} {l : Ledger} (hopen : Store.openStore sha256 file a verifyArchives = .ok s)
      (hread : (Store.read sha256 b i).exec s = (.ok l, s)) : StoreSession sha256 ⟨l, []⟩ s
  /-- A transaction that returned. Its operation yields a ledger of machine words, and the digests
  it compares do not collide. -/
  | transacted {h : History} {s s' : Store} {α : Type} {operation : Mut Ledger α}
      {acknowledge : Bool} {a : Answers} {ledger next : Ledger} {result : α}
      (session : StoreSession sha256 h s) (hread : (Store.read sha256 a 0).exec s = (.ok ledger, s))
      (hop : operation.exec ledger = (.ok result, next)) (hfits : next.Fits)
      (hapart : ∀ durable, decodeAs Ledger.ofJson s.file = some durable →
        Apart sha256 durable (Store.admissions durable next))
      (htransaction : (Store.transaction sha256 operation acknowledge a).exec s =
        (.ok result, s')) :
      StoreSession sha256 (h.push next) s'

theorem renewed_fresh (file : Bytes) (xs : List Lease) :
    xs.map (Store.fresh sha256 file).renewed = xs := by
  refine (List.map_congr_left fun x _ => ?_).trans (List.map_id _)
  simp [Store.renewed, Store.fresh]

/-- A store over the bytes of a valid ledger shows it. -/
theorem shows_of_decodeAs (hdecode : decodeAs Ledger.ofJson file = some l)
    (hcanonical : toVec l.toJson = file) (hvalid : l.validate = .ok ())
    (hsmall : file.length ≤ maxBytes) : (Store.fresh sha256 file).Shows sha256 l := by
  refine ⟨⟨rfl, hsmall, rfl⟩, rfl, l, hdecode, hcanonical, hvalid, l.domains, rfl, ?_⟩
  rw [renewed_fresh]

/-- An opened store shows its file. -/
theorem shows_fresh (h : (Store.fresh sha256 file).Shows sha256 l) :
    decodeAs Ledger.ofJson file = some l ∧ l.validate = .ok () := by
  obtain ⟨durable, hdecode, -, hvalid, domains, hdomains, rfl⟩ := h.decoded
  obtain rfl : durable.domains = domains := Except.ok.inj hdomains
  rw [renewed_fresh]
  exact ⟨hdecode, hvalid⟩

theorem openStore_eq_ok {verifyArchives : Ledger → Result Unit}
    (h : Store.openStore sha256 file a verifyArchives = .ok s) :
    s = Store.fresh sha256 file := by
  simp only [Store.openStore, bind_eq_ok, pure_eq_ok] at h
  obtain ⟨_, -, _, -, _, -, rfl⟩ := h
  rfl

theorem Agrees.opened (h : (Store.fresh sha256 file).Shows sha256 l) :
    Agrees sha256 ⟨l, []⟩ (Store.fresh sha256 file) := by
  obtain ⟨hdecode, hvalid⟩ := shows_fresh h
  have hv := Ledger.validate_eq_ok.mp hvalid
  have hdated : ∀ x ∈ l.leases, History.dated ⟨l, []⟩ x = x := fun x hx => by
    have hdeadline : History.admitted ⟨l, []⟩ x.token = x.deadlineMs := History.deadlineOf_eq hv hx
    rw [History.dated, hdeadline]
  have hmap : ∀ {f : Lease → Lease}, (∀ x ∈ l.leases, f x = x) → l.leases.map f = l.leases :=
    fun hf => (List.map_congr_left hf).trans (List.map_id _)
  have hdurable : History.durable ⟨l, []⟩ = l :=
    congrArg (fun leases => { l with leases := leases }) (hmap hdated)
  have hlive : History.live ⟨l, []⟩ = l :=
    congrArg (fun leases => { l with leases := leases }) (hmap fun x hx => by
      split
      · rfl
      · exact hdated x hx)
  refine ⟨⟨hv, fun k hk => absurd hk List.not_mem_nil⟩, ?_, l, hdecode, ?_⟩
  · rw [hlive]
    exact h
  · rw [hdurable]

theorem StoreSession.agrees {h : History} (hs : StoreSession sha256 h s) :
    Agrees sha256 h s := by
  induction hs with
  | opened hopen hread =>
    obtain rfl := openStore_eq_ok hopen
    exact Agrees.opened (Store.exec_read_eq_ok.mp hread).2.1
  | transacted session hread hop hfits hapart htransaction ih =>
    obtain rfl := (Store.exec_read_eq_ok.mp hread).2.1.unique ih.shows
    exact ih.transacted hop hfits hapart htransaction

/-! ## What a reopened store shows -/

/-- A store opened over the file shows what the file says. -/
theorem Agrees.reopened {h : History} (hs : Agrees sha256 h s) {durable : Ledger}
    (hdecode : decodeAs Ledger.ofJson s.file = some durable) :
    (Store.fresh sha256 s.file).Shows sha256 durable := by
  obtain ⟨durable', hdecode', hcanonical, hvalid, -⟩ := hs.shows.decoded
  obtain rfl : durable = durable' := Option.some.inj (hdecode.symm.trans hdecode')
  exact shows_of_decodeAs hdecode hcanonical hvalid hs.shows.owned.small

/-- **What a reopened store cannot lose**: everything but telemetry and the deadlines of leases. -/
structure Conserves (last durable : Ledger) : Prop where
  generation : durable.generation = last.generation
  managerEpoch : durable.managerEpoch = last.managerEpoch
  archives : durable.archives = last.archives
  domains : ∀ id : String, (durable.domains[id]?.map fun d => { d with observed := 0 }) =
    last.domains[id]?.map fun (d : Domain) => { d with observed := 0 }
  leases : durable.leases.map (fun x => { x with deadlineMs := 0 }) =
    last.leases.map fun x => { x with deadlineMs := 0 }
  charged : ∀ id, durable.charged id = last.charged id

theorem conserves_durable {h : History} {durable : Ledger}
    (hd : durable.authority = h.durable.authority) : Conserves h.last durable := by
  have hdomains : ∀ id : String, (durable.domains[id]?.map fun d => { d with observed := 0 }) =
      h.last.domains[id]?.map fun (d : Domain) => { d with observed := 0 } := by
    intro id
    have hid := congrArg (fun l : Ledger => l.domains[id]?) hd
    simpa only [Ledger.authority, History.durable, Table.get_map] using hid
  have hleases : durable.leases = h.last.leases.map h.dated := congrArg Ledger.leases hd
  have hgeneration : durable.authority.generation = h.durable.authority.generation := by rw [hd]
  have hepoch : durable.authority.managerEpoch = h.durable.authority.managerEpoch := by rw [hd]
  have harchives : durable.authority.archives = h.durable.authority.archives := by rw [hd]
  refine ⟨hgeneration, hepoch, harchives, hdomains, ?_, fun id => ?_⟩
  · rw [hleases, List.map_map]
    rfl
  · refine Ledger.charged_congr ?_ ?_
    · rw [Ledger.held, hleases]
      exact Ledger.held_map (fun _ _ => rfl) fun _ _ => rfl
    · have hid := congrArg (Option.map Domain.retained) (hdomains id)
      simpa only [Option.map_map, Function.comp_def] using hid

/-- **Renewals are of the session and everything else is durable.** In every session `read` returns
the ledger acknowledged last, a lease no longer active with its admission deadline; the file holds
that ledger, every lease with its admission deadline, up to telemetry; and a store reopened over
the file shows the file, with a deadline later than the acknowledged one only where an operation
had brought a deadline forward. -/
theorem session_durable {h : History} {s : Store} (hs : StoreSession sha256 h s) :
    (∀ a i l s', (Store.read sha256 a i).exec s = (.ok l, s') → l = h.live ∧ s' = s) ∧
    (∀ a i, a.Fair → (Store.read sha256 a i).exec s = (.ok h.live, s)) ∧
    ∃ durable, decodeAs Ledger.ofJson s.file = some durable ∧
      durable.authority = h.durable.authority ∧ Conserves h.last durable ∧
      (∀ a i verifyArchives, a.Fair → verifyArchives durable = .ok () →
        Store.openStore sha256 s.file a verifyArchives = .ok (Store.fresh sha256 s.file) ∧
        (Store.read sha256 a i).exec (Store.fresh sha256 s.file) =
          (.ok durable, Store.fresh sha256 s.file)) ∧
      (h.Extending → ∀ x ∈ h.last.leases, (h.dated x).deadlineMs ≤ x.deadlineMs) := by
  have ha := hs.agrees
  obtain ⟨durable, hdecode, hdurable⟩ := ha.durable
  have hreopened := ha.reopened hdecode
  refine ⟨fun a i l s' hread => ?_, fun a i hfair => ha.shows.read hfair i, durable, hdecode,
    hdurable, conserves_durable hdurable,
    fun a i verifyArchives hfair harchives => ⟨?_, hreopened.read hfair i⟩,
    fun hext x hx => History.admitted_le ha.valid hext x hx⟩
  · obtain ⟨rfl, hshows, -⟩ := Store.exec_read_eq_ok.mp hread
    exact ⟨hshows.unique ha.shows, rfl⟩
  · simp only [Store.openStore, bind_eq_ok, refuseIf_eq_ok, pure_eq_ok, decide_eq_false_iff_not,
      Nat.not_lt]
    exact ⟨(), ha.shows.owned.small, durable, congrArg Prod.fst (hreopened.read hfair 0), (),
      harchives, trivial⟩

/-! ### A session to try the theorem on -/

/-- One active lease of 40 bytes. -/
def sessionLedger (deadline : Nat) : Ledger where
  schemaVersion := 1
  managerEpoch := "manager-1"
  generation := 1
  domains := Table.single "ram" ⟨100, 10, 90, 50, 0, 0, false, false, 1⟩
  archives := []
  leases := [Ledger.freshLease ⟨repeatText "07" 16, 1, "manager-1"⟩ ⟨1000, 42, 7, "boot-1", 1, 9⟩
    "request-1" (repeatText "a" 64) [⟨"ram", 40, 30⟩] deadline]

def sessionAnswers : Answers :=
  ⟨fun _ => .ok (), fun _ => .ok (), .ok (), fun bytes => (.ok (), bytes)⟩

theorem fits_sessionLedger {deadline : Nat} (h : deadline < 2 ^ 64) :
    (sessionLedger deadline).Fits where
  schemaVersion := (by decide : 1 < 2 ^ 32)
  generation := (by decide : 1 < 2 ^ 64)
  domains := by
    intro id d hd
    simp only [sessionLedger, Table.get_single] at hd
    split at hd
    · cases hd
      unfold Domain.Fits
      decide
    · cases hd
  archives := fun a ha => absurd ha List.not_mem_nil
  leases := by
    intro x hx
    obtain rfl := List.mem_singleton.mp hx
    have howner : Owner.Fits ⟨1000, 42, 7, "boot-1", 1, 9⟩ :=
      ⟨by decide, by decide, by decide, by decide, by decide⟩
    refine ⟨(by decide : 1 < 2 ^ 64), howner, fun r hr => ?_, h, fun t ht => ?_⟩
    · obtain rfl := List.mem_singleton.mp hr
      exact ⟨by decide, by decide⟩
    · cases ht

/-- The lease that was admitted until tick 100 is renewed until another. -/
theorem session_renewed {deadline : Nat} (hword : deadline < 2 ^ 64)
    (hvalid : (sessionLedger deadline).validate = .ok ())
    (hop : (Ledger.renew ⟨repeatText "07" 16, 1, "manager-1"⟩ ⟨1000, 42, 7, "boot-1", 1, 9⟩ 0
      deadline).exec (sessionLedger 100) = (.ok (), sessionLedger deadline))
    (hsame : Store.admissions (sessionLedger 100) (sessionLedger deadline) = sessionLedger 100) :
    ∃ s, StoreSession sha256 ⟨sessionLedger 100, [sessionLedger deadline]⟩ s ∧
      s.file = toVec (sessionLedger 100).toJson := by
  have hfair : sessionAnswers.Fair := fun i => ⟨rfl, rfl⟩
  have hsmall : (toVec (sessionLedger 100).toJson).length ≤ maxBytes :=
    (length_toVec_le _).trans (by decide +kernel)
  have hdecode := Ledger.decodeAs_toVec (@fits_sessionLedger 100 (by decide))
  have hshows : (Store.fresh sha256 (toVec (sessionLedger 100).toJson)).Shows sha256
      (sessionLedger 100) := shows_of_decodeAs hdecode rfl (by decide) hsmall
  have hread := hshows.read hfair 0
  have hopened : Store.openStore sha256 (toVec (sessionLedger 100).toJson) sessionAnswers
      (fun _ => .ok ()) = .ok (Store.fresh sha256 (toVec (sessionLedger 100).toJson)) := by
    simp only [Store.openStore, bind_eq_ok, refuseIf_eq_ok, decide_eq_false_iff_not, Nat.not_lt]
    exact ⟨(), hsmall, sessionLedger 100, congrArg Prod.fst hread, (), trivial, rfl⟩
  have htransaction :
      (Store.transaction sha256 (Ledger.renew _ _ _ _) true sessionAnswers).exec _ = _ :=
    Store.transaction_unchanged hfair rfl hshows hop hvalid hdecode (by rw [hsame]; exact hsmall)
      (by rw [hsame])
  refine ⟨_, .transacted (.opened hopened hread) hread hop (fits_sessionLedger hword) ?_
    htransaction, rfl⟩
  intro durable hdurable _
  obtain rfl : durable = sessionLedger 100 := Option.some.inj (hdurable.symm.trans hdecode)
  rw [hsame]

/-- A session that renewed a lease until tick 200 shows that; the file keeps tick 100. -/
theorem session_durable_sample :
    let sha256 := fun _ : Bytes => Vector.replicate 32 0
    ∃ s, StoreSession sha256 ⟨sessionLedger 100, [sessionLedger 200]⟩ s ∧
      (Store.read sha256 sessionAnswers 0).exec s = (.ok (sessionLedger 200), s) ∧
      ∃ durable, decodeAs Ledger.ofJson s.file = some durable ∧
        durable.authority = (sessionLedger 100).authority := by
  intro sha256
  obtain ⟨s, hs, -⟩ := @session_renewed sha256 200 (by decide) (by decide) (by decide) (by decide)
  obtain ⟨-, hread, durable, hdecode, hdurable, -⟩ := session_durable hs
  exact ⟨s, hs, hread sessionAnswers 0 fun i => ⟨rfl, rfl⟩, durable, hdecode, hdurable⟩

/-- A renewal can bring a deadline forward, and the file keeps the admission's. -/
theorem session_shortened :
    ¬ ∀ (sha256 : Bytes → Vector UInt8 32) (h : History) (s : Store), StoreSession sha256 h s →
      ∀ durable, decodeAs Ledger.ofJson s.file = some durable →
        ∀ x ∈ h.last.leases, ∀ y ∈ durable.leases, x.token = y.token →
          y.deadlineMs ≤ x.deadlineMs := by
  intro hall
  obtain ⟨s, hs, hfile⟩ := @session_renewed (fun _ => Vector.replicate 32 0) 50 (by decide)
    (by decide) (by decide) (by decide)
  have hdecode := Ledger.decodeAs_toVec (@fits_sessionLedger 100 (by decide))
  rw [← hfile] at hdecode
  have hle := hall _ _ s hs _ hdecode _ List.mem_cons_self _ List.mem_cons_self rfl
  exact absurd hle (by decide)

end LumaOS.Resources
