import LumaOS.Evidence.Accepted
import LumaOS.Evidence.Calls

/-!
# What one deletion leaves

`delete_leaves` follows `delete_retained_checked` from the plan to the receipt and says which
directories it can leave: the one it found; the intent without all of its bytes, or with all of them
and no target gone; the whole intent and some first targets gone, in the order of their names; and
the receipt, again without all of its bytes or whole. The replies decide which, and the rule says
where the call has to stop for each.
-/

namespace LumaOS.Evidence

open LumaOS.Base LumaOS.Text LumaOS.Json
open LumaOS.Resources (Ledger)
open LumaOS.Inference (Gate)

/-! ## Replies -/

/-- The replies behind the first `n`, if these say that their calls were done. -/
def afterDone : Nat → List (Reply Seen) → List (Reply Seen)
  | 0, replies => replies
  | n + 1, .done _ :: rest => afterDone n rest
  | _ + 1, _ => []

theorem afterDone_add : ∀ (m n : Nat) (replies : List (Reply Seen)),
    afterDone (m + n) replies = afterDone n (afterDone m replies)
  | 0, n, replies => by rw [Nat.zero_add]; rfl
  | m + 1, n, .done _ :: rest => by
    rw [Nat.add_right_comm]
    exact afterDone_add m n rest
  | m + 1, n, [] => by rw [Nat.add_right_comm]; cases n <;> rfl
  | m + 1, n, .lost _ _ :: _ => by rw [Nat.add_right_comm]; cases n <;> rfl
  | m + 1, n, .failed _ :: _ => by rw [Nat.add_right_comm]; cases n <;> rfl

theorem inside_done {n : Nat} {replies : List (Reply Seen)} (h : Inside (n + 2) replies) :
    Done replies ∧ ∀ seen rest, replies = .done seen :: rest → Inside (n + 1) rest := by
  rcases replies with _ | ⟨seen | ⟨seen, message⟩ | message, rest⟩
  · exact h.elim
  · exact ⟨⟨seen, rest, rfl⟩, fun _ _ he => by cases he; exact h⟩
  · exact h.elim
  · exact h.elim

theorem Inside.three : ∀ {n : Nat} {replies : List (Reply Seen)}, Inside (n + 3) replies →
    Inside 3 replies
  | n, replies, h => by
    obtain ⟨⟨a, r, rfl⟩, h1⟩ := inside_done (n := n + 1) h
    obtain ⟨⟨b, s, rfl⟩, h2⟩ := inside_done (n := n) (h1 a r rfl)
    exact Inside.applied (n := n) (h2 b s rfl)

/-! ## One target -/

variable {O : Outside} {d w : Directory} {replies : List (Reply Seen)} {plan : DeletionPlan}
  {β : Type} {S : β → Running Directory Seen → Prop} {E : Directory → Prop}
  {entries : List (String × Identity)}

/-- The targets still to come are as the plan has them, and so are the ledger and the journal. -/
structure Ready (O : Outside) (plan : DeletionPlan) (entries : List (String × Identity))
    (w : Directory) : Prop where
  ledger : identity O w "ledger.json" = .ok plan.ledger
  requests : identity O w "requests.json" = .ok plan.requests
  found : ∀ e ∈ entries, identity O w e.1 = .ok e.2
  distinct : (entries.map Prod.fst).Nodup
  apart : ∀ e ∈ entries, e.1 ≠ "ledger.json" ∧ e.1 ≠ "requests.json"

theorem same_without {names : List String} {a : String} (h : a ∉ names) :
    Same w (w.without names) a := by
  rw [Same, get_without, if_neg h]

namespace Ready

theorem unchanged (h : Ready O plan entries w) (message : String) :
    unchanged O plan message w = .ok () := by
  simp [Evidence.unchanged, h.ledger, h.requests, bind, Except.bind, refuseIf]

theorem next {e : String × Identity} (h : Ready O plan (e :: entries) w) :
    Ready O plan entries (w.without [e.1]) := by
  obtain ⟨hledger, hrequests⟩ := h.apart e List.mem_cons_self
  have hnot : ∀ {a : String}, e.1 ≠ a → a ∉ [e.1] := fun hne hmem =>
    hne (List.mem_singleton.mp hmem).symm
  have hnodup := List.nodup_cons.mp h.distinct
  refine ⟨(same_without (hnot hledger)).identity.trans h.ledger,
    (same_without (hnot hrequests)).identity.trans h.requests, fun x hx => ?_, hnodup.2,
    fun x hx => h.apart x (List.mem_cons_of_mem e hx)⟩
  refine (same_without (hnot fun heq => hnodup.1 ?_)).identity.trans
    (h.found x (List.mem_cons_of_mem e hx))
  rw [heq]
  exact List.mem_map_of_mem hx

theorem file {e : String × Identity} (h : Ready O plan (e :: entries) w) :
    ∃ f, w.files[e.1]? = some f := by
  obtain ⟨f, hf, -⟩ := identityOf_eq_ok.mp (h.found e List.mem_cons_self)
  exact ⟨f, hf⟩

end Ready

/-- **One turn of the loop.** It leaves the target in place only if it stops before the `unlinkat`
takes effect. -/
theorem endsOn_bind_deleteOne {e : String × Identity} {k : Unit → Calls Directory Seen β}
    (h : Ready O plan (e :: entries) w) (hstop : ¬ Inside 3 replies → E w)
    (hgone : E (w.without [e.1]))
    (hk : ∀ rest, rest = afterDone 5 replies → EndsOn (k ()) (w.without [e.1]) rest S E) :
    EndsOn (deleteOne O plan e >>= k) w replies S E := by
  obtain ⟨f, hf⟩ := h.file
  simp only [deleteOne, bind_assoc]
  refine endsOn_bind_probe (fun hnot => hstop fun hin => hnot (inside_done hin).1)
    fun a r ha => ?_
  refine endsOn_bind_observe (fun hnot => hstop fun hin => hnot ⟨?_, (), ?_⟩)
    fun _ b s _ hb => ?_
  · exact (inside_done ((inside_done hin).2 a r ha)).1
  · rw [h.unchanged, h.found e List.mem_cons_self]
    simp [bind, Except.bind, refuseIf]
  refine endsOn_bind_unlink hf (fun hnot => hstop fun hin => hnot ?_) (fun _ _ _ _ => hgone)
    fun c t hc => ?_
  · exact (inside_done ((inside_done hin).2 a r ha)).2 b s hb
  refine endsOn_bind_probe (fun _ => hgone) fun x u hx => ?_
  refine endsOn_bind_observe (fun _ => hgone) fun _ y v _ hy => ?_
  exact hk v (by rw [ha, hb, hc, hx, hy]; rfl)

/-- **The loop over the targets that are left.** -/
theorem endsOn_bind_deleteAll : ∀ {entries : List (String × Identity)} {w : Directory}
    {replies : List (Reply Seen)} {k : PUnit → Calls Directory Seen β},
    Ready O plan entries w →
      (∀ done, done <+: entries.map Prod.fst → E (w.without done)) →
      (∀ rest, rest = afterDone (5 * entries.length) replies →
        EndsOn (k .unit) (w.without (entries.map Prod.fst)) rest S E) →
      EndsOn (entries.forM (deleteOne O plan) >>= k) w replies S E
  | [], w, replies, k, _, _, hk => hk replies rfl
  | e :: entries, w, replies, k, h, hE, hk => by
    rw [show (e :: entries).forM (deleteOne O plan) >>= k =
      deleteOne O plan e >>= fun _ => entries.forM (deleteOne O plan) >>= k from bind_assoc ..]
    refine endsOn_bind_deleteOne h (fun _ => hE [] List.nil_prefix)
      (hE [e.1] (List.prefix_cons_inj _ |>.mpr List.nil_prefix)) fun rest hrest => ?_
    refine endsOn_bind_deleteAll h.next (fun done hdone => ?_) fun rest' hrest' => ?_
    · exact hE (e.1 :: done) ((List.prefix_cons_inj _).mpr hdone)
    · refine hk rest' ?_
      rw [hrest', hrest, ← afterDone_add, List.length_cons]
      congr 1
      omega

/-! ## One call -/

/-- The names of a plan's targets, in order. -/
def DeletionPlan.targets (p : DeletionPlan) : List String := p.files.toList.map Prod.fst

/-- The call gets to its intent. -/
structure Proceeds (O : Outside) (d : Directory) (names : List String) (reviewed : String)
    (plan : DeletionPlan) : Prop where
  planned : deletionPlan O d names = .ok plan
  review : plan.review O = reviewed
  outcomes : ∃ t, retentionOutcomes O d = .ok t ∧ t.size < maxOutcomes
  room : d.files.size < maxEntries - 2
  fresh : d.files[intentName reviewed]? = none

/-- The directory with the intent and without some targets. -/
def deleting (d : Directory) (reviewed : String) (g : File) (gone : List String) : Directory :=
  (d.put (intentName reviewed) g).without gone

theorem get_put {name a : String} {f : File} :
    (d.put name f).files[a]? = if name = a then some f else d.files[a]? :=
  Table.get_insert

theorem get_deleting {reviewed a : String} {g : File} {gone : List String} :
    (deleting d reviewed g gone).files[a]? =
      if a ∈ gone then none else if intentName reviewed = a then some g else d.files[a]? := by
  rw [deleting, get_without, get_put]

theorem same_deleting {reviewed a : String} {g : File} {gone : List String} (h : a ∉ gone)
    (ha : intentName reviewed ≠ a) : Same d (deleting d reviewed g gone) a := by
  rw [Same, get_deleting, if_neg h, if_neg ha]

theorem mem_targets {p : DeletionPlan} {a : String} :
    a ∈ p.targets ↔ ∃ i, p.files[a]? = some i := by
  rw [DeletionPlan.targets, List.mem_map]
  constructor
  · rintro ⟨e, he, rfl⟩
    exact ⟨e.2, Table.mem_toList_iff_get.mp he⟩
  · rintro ⟨i, hi⟩
    exact ⟨(a, i), Table.mem_toList_iff_get.mpr hi, rfl⟩

/-- The targets of a plan are accepted evidence. -/
theorem isEvidence_of_target {names : List String} {p : DeletionPlan} {a : String}
    (hp : deletionPlan O d names = .ok p) (ha : a ∈ p.targets) : isEvidence a = true := by
  obtain ⟨l, gate, hplanned, hd⟩ := deletionPlan_eq_ok hp
  obtain ⟨i, hi⟩ := mem_targets.mp ha
  exact accept_isEvidence (hplanned.accepted a ((hd.files a i).mp hi).1)

theorem isEvidence_receiptName (reviewed : String) : isEvidence (receiptName reviewed) = false := by
  rw [← Bool.not_eq_true]
  intro h
  have := not_isRecord_of_isEvidence h
  rw [isRecord_receiptName] at this
  cases this

theorem Proceeds.ready {names : List String} {reviewed : String}
    (h : Proceeds O d names reviewed plan) (g : File) :
    Ready O plan plan.files.toList (d.put (intentName reviewed) g) := by
  obtain ⟨l, gate, hplanned, hd⟩ := deletionPlan_eq_ok h.planned
  have hevidence : ∀ e ∈ plan.files.toList, isEvidence e.1 = true := fun e he =>
    isEvidence_of_target h.planned (List.mem_map_of_mem he)
  have hput : ∀ {a : String}, intentName reviewed ≠ a →
      Same d (d.put (intentName reviewed) g) a := fun ha => by
    rw [Same, get_put, if_neg ha]
  have hfixed : ∀ {a : String}, isRecord a = false → intentName reviewed ≠ a := fun ha he => by
    rw [← he, isRecord_intentName] at ha
    cases ha
  refine ⟨(hput (hfixed (by decide))).identity.trans hd.ledger,
    (hput (hfixed (by decide))).identity.trans hd.requests, fun e he => ?_,
    Table.nodup_fst_toList, fun e he => ?_⟩
  · exact (hput (hfixed (not_isRecord_of_isEvidence (hevidence e he)))).identity.trans
      ((hd.files e.1 e.2).mp (Table.mem_toList_iff_get.mp he)).2
  · exact ⟨isEvidence_apart (hevidence e he) (by decide),
      isEvidence_apart (hevidence e he) (by decide)⟩

/-- **What a call leaves**, by where it stops. -/
theorem delete_leaves {names : List String} {reviewed : String} (hE : E d)
    (hintent : ∀ plan, Proceeds O d names reviewed plan → Applied (afterDone 6 replies) →
      ¬ Inside 8 (afterDone 6 replies) → ∀ g part, Written part g → part <+: plan.bytes →
        E (d.put (intentName reviewed) g))
    (hgone : ∀ plan, Proceeds O d names reviewed plan → ∀ g gone, Written plan.bytes g →
      gone ≠ [] → gone <+: plan.targets → E (deleting d reviewed g gone))
    (hreceipt : ∀ plan, Proceeds O d names reviewed plan →
      Applied (afterDone (12 + 5 * plan.files.toList.length) replies) →
      ¬ Inside 3 (afterDone (12 + 5 * plan.files.toList.length) replies) →
        d.files[receiptName reviewed]? = none → ∀ g f part, Written plan.bytes g →
          Written part f → part <+: toVec (receiptJson reviewed plan.files) →
            E ((deleting d reviewed g plan.targets).put (receiptName reviewed) f))
    (hdone : ∀ plan, Proceeds O d names reviewed plan → d.files[receiptName reviewed]? = none →
      ∀ g f, Written plan.bytes g → Written (toVec (receiptJson reviewed plan.files)) f →
        E ((deleting d reviewed g plan.targets).put (receiptName reviewed) f)) :
    E ((deleteRetainedChecked O names reviewed).leaves d replies) := by
  suffices hends : EndsOn (deleteRetainedChecked O names reviewed) d replies
      (fun _ s => E s.world) E from hends.leaves fun _ _ h => h
  unfold deleteRetainedChecked
  refine endsOn_bind_observe (fun _ => hE) fun plan a1 r1 hplan h1 => ?_
  refine endsOn_bind_lift hE fun _ hreview => endsOn_bind_probe (fun _ => hE) fun a2 r2 h2 => ?_
  refine endsOn_bind_observe (fun _ => hE) fun again a3 r3 hagain h3 => ?_
  refine endsOn_bind_lift hE fun _ _ => ?_
  refine endsOn_bind_observe (fun _ => hE) fun _ a4 r4 _ h4 => ?_
  refine endsOn_bind_observe (fun _ => hE) fun t a5 r5 ht h5 => ?_
  refine endsOn_bind_lift hE fun _ hfew => ?_
  refine endsOn_bind_observe (fun _ => hE) fun count a6 r6 hcount h6 => ?_
  refine endsOn_bind_lift hE fun _ hroom => ?_
  have hreplies : afterDone 6 replies = r6 := by rw [h1, h2, h3, h4, h5, h6]; rfl
  obtain rfl : d.files.size = count := pure_eq_ok.mp hcount
  simp only [refuseIf_eq_ok, bne_eq_false_iff_eq, decide_eq_false_iff_not,
    ge_iff_le, not_le] at hreview hfew hroom
  obtain ⟨l, gate, hplanned, hd⟩ := deletionPlan_eq_ok hplan
  have hproceeds : d.files[intentName reviewed]? = none → Proceeds O d names reviewed plan :=
    fun hfresh => ⟨hplan, hreview, ⟨t, ht, hfew⟩, hroom, hfresh⟩
  subst hreplies
  simp only [publishEvidence, bind_assoc]
  -- the intent, and the first target
  refine endsOn_bind_record hE (fun hnew g part hg hpart happlied hnot => ?_)
    (fun hnew g a b c m rest hg hr => ?_) fun hnew g a b c rest hg hr => ?_
  · exact hintent plan (hproceeds hnew) happlied (fun hin => hnot (Inside.three (n := 5) hin)) g
      part hg hpart
  · refine hintent plan (hproceeds hnew) (hr ▸ trivial) (fun hin => ?_) g _ hg (List.prefix_refl _)
    rw [hr] at hin
    exact hin
  have hp := hproceeds hnew
  have hstop : ¬ Inside 5 rest → E (d.put (intentName reviewed) g) := fun hnot =>
    hintent plan hp (hr ▸ trivial) (fun hin => hnot (by rw [hr] at hin; exact hin)) g _ hg
      (List.prefix_refl _)
  refine endsOn_bind_probe (fun hnot => hstop fun hin => hnot (inside_done hin).1)
    fun a' s hs => ?_
  refine endsOn_bind_probe (fun hnot => hstop fun hin => hnot ?_) fun b' u hu => ?_
  · exact (inside_done ((inside_done hin).2 a' s hs)).1
  have hloop : afterDone 11 replies = u := by
    rw [afterDone_add 6 5, hr, hs, hu]
    rfl
  have hfirst : ¬ Inside 3 u → E (d.put (intentName reviewed) g) := fun hnot => hstop fun hin =>
    hnot ((inside_done ((inside_done hin).2 a' s hs)).2 b' u hu)
  have hgone' : ∀ gone, gone ≠ [] → gone <+: plan.targets →
      E ((d.put (intentName reviewed) g).without gone) := fun gone hne hprefix =>
    hgone plan hp g gone hg hne hprefix
  have hready := hp.ready g
  have hne : plan.files.toList ≠ [] := fun hnil => by
    have hsize := hd.size
    rw [← Std.ExtTreeMap.length_toList, hnil] at hsize
    exact hplanned.few.1 (List.length_eq_zero_iff.mp hsize.symm)
  have htargets : plan.targets ≠ [] := fun hnil => hne (List.map_eq_nil_iff.mp hnil)
  obtain ⟨e, entries, hentries⟩ := List.exists_cons_of_ne_nil hne
  have hall : ∀ rest, rest = afterDone (5 * plan.files.toList.length) u →
      EndsOn (observe (fun d => do
          let ledger ← readLedger d
          verifyArchives O ledger d
          retentionIdle O d) >>= fun _ => create (receiptName reviewed) >>= fun _ =>
        writeAll (receiptName reviewed) (toVec (receiptJson reviewed plan.files)) >>= fun _ =>
        probe >>= fun _ => probe >>= fun _ => pure (receiptJson reviewed plan.files))
        ((d.put (intentName reviewed) g).without plan.targets) rest (fun _ s => E s.world) E := by
    intro rest' hrest'
    have hlast := hgone' plan.targets htargets (List.prefix_refl _)
    refine endsOn_bind_observe (fun _ => hlast) fun _ x v _ hv => ?_
    have hv' : afterDone (12 + 5 * plan.files.toList.length) replies = v := by
      rw [show 12 + 5 * plan.files.toList.length = 11 + (5 * plan.files.toList.length + 1) by omega,
        afterDone_add 11, hloop, afterDone_add, ← hrest', hv]
      rfl
    have hreceipt' : ((d.put (intentName reviewed) g).without plan.targets).files[
        receiptName reviewed]? = none → d.files[receiptName reviewed]? = none := fun hnone => by
      have hnot : receiptName reviewed ∉ plan.targets := fun hin => by
        have := isEvidence_of_target hplan hin
        rw [isEvidence_receiptName] at this
        cases this
      rwa [get_without, if_neg hnot, get_put, if_neg (intentName_ne_receiptName _ _)] at hnone
    refine endsOn_bind_record hlast (fun hnone f part hf hpart happlied hnot => ?_)
      (fun hnone f _ _ _ _ _ hf _ => hdone plan hp (hreceipt' hnone) g f hg hf)
      fun hnone f _ _ _ rest'' hf _ => ?_
    · rw [← hv'] at happlied hnot
      exact hreceipt plan hp happlied hnot (hreceipt' hnone) g f part hg hf hpart
    have hwhole := hdone plan hp (hreceipt' hnone) g f hg hf
    refine endsOn_bind_probe (fun _ => hwhole) fun _ _ _ => ?_
    exact endsOn_bind_probe (fun _ => hwhole) fun _ _ _ => endsOn_pure hwhole
  rw [hentries] at hready hall ⊢
  have htargets' : plan.targets = e.1 :: entries.map Prod.fst := by
    rw [DeletionPlan.targets, hentries, List.map_cons]
  rw [show (e :: entries).forM (deleteOne O plan) = (deleteOne O plan e >>= fun _ =>
    entries.forM (deleteOne O plan)) from rfl, bind_assoc]
  refine endsOn_bind_deleteOne hready hfirst
    (hgone' [e.1] (List.cons_ne_nil _ _) (by
      rw [htargets']
      exact (List.prefix_cons_inj _).mpr List.nil_prefix)) fun rest' hrest' => ?_
  refine endsOn_bind_deleteAll hready.next (fun done hdone' => ?_) fun rest'' hrest'' => ?_
  · refine hgone' (e.1 :: done) (List.cons_ne_nil _ _) ?_
    rw [htargets']
    exact (List.prefix_cons_inj _).mpr hdone'
  · have hnext := hall rest'' (by
      rw [hrest'', hrest', ← afterDone_add, List.length_cons]
      congr 1
      omega)
    rw [htargets'] at hnext
    exact hnext

end LumaOS.Evidence
