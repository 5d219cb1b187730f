import LumaOS.Base.Fallible
import Mathlib.Data.List.Basic
import Mathlib.Data.List.Nodup

/-!
# Validation loops and in-place list updates

Three shapes of Rust loop, over arbitrary element types.

* `for x in xs { check(x)?; }` is `xs.forM check`: it succeeds iff every check does
  (`forM_eq_ok`).
* `for x in xs { if .. || !seen.insert(key(x)) || x.n <= previous { return Err } .. }` is
  `xs.foldlM step s`, where the accumulator is what the loop remembers of the elements before `x`.
  `foldlM_pairwise` is the rule for all of them: if one step accepts `x` iff `x` is fine alone and
  compatible with every earlier element, the loop accepts `xs` iff every element is fine alone and
  `xs` is pairwise compatible. What is remembered (a set, the last value, both) only matters in
  the proof of the one-step premise.
* `xs.iter_mut().find(p)` followed by a write is `xs.modify i f` at the first index satisfying
  `p`. When at most one element satisfies `p` it is the elementwise `xs.map` (`modify_eq_map`).
-/

namespace LumaOS.Base

variable {α β γ σ : Type}

variable {xs : List α} {ys : List β} {p : α → Bool} {r : α → β → Prop}

/-! ## Loops that only check -/

theorem forM_eq_ok {ε : Type} {f : α → Except ε Unit} {u : Unit} :
    xs.forM f = .ok u ↔ ∀ x ∈ xs, f x = .ok () := by
  induction xs with
  | nil => exact ⟨fun _ _ h => absurd h List.not_mem_nil, fun _ => rfl⟩
  | cons x xs ih =>
    rw [show (x :: xs).forM f = (f x >>= fun _ => xs.forM f) from rfl, bind_eq_ok]
    simp only [ih, List.mem_cons, forall_eq_or_imp]
    exact ⟨fun ⟨_, h⟩ => h, fun h => ⟨(), h⟩⟩

theorem noPanic_forM {f : α → Result Unit} :
    ∀ {xs : List α}, (∀ x ∈ xs, NoPanic (f x)) → NoPanic (xs.forM f)
  | [], _ => noPanic_ok ()
  | x :: xs, h => by
    obtain ⟨hx, hxs⟩ := List.forall_mem_cons.mp h
    exact noPanic_bind hx fun _ _ => noPanic_forM hxs

instance noPanic_forM_all {f : α → Result Unit} [h : ∀ x, NoPanic (f x)] (xs : List α) :
    NoPanic (xs.forM f) :=
  noPanic_forM fun x _ => h x

theorem noPanic_foldlM {f : σ → α → Result σ} (h : ∀ s x, NoPanic (f s x)) :
    ∀ (xs : List α) (s : σ), NoPanic (xs.foldlM f s)
  | [], s => noPanic_ok s
  | x :: xs, s => noPanic_bind (h s x) fun t _ => noPanic_foldlM h xs t

instance noPanic_foldlM_all {f : σ → α → Result σ} [h : ∀ s x, NoPanic (f s x)] (xs : List α)
    (s : σ) : NoPanic (xs.foldlM f s) :=
  noPanic_foldlM h xs s

/-- A loop no step of which panics while the accumulator keeps `I`. -/
theorem noPanic_foldlM_of {f : σ → α → Result σ} {I : σ → Prop} :
    ∀ {xs : List α} {s : σ}, I s →
      (∀ s x, x ∈ xs → I s → NoPanic (f s x) ∧ ∀ s', f s x = .ok s' → I s') →
      NoPanic (xs.foldlM f s)
  | [], s, _, _ => noPanic_ok s
  | x :: xs, s, hs, h => by
    obtain ⟨hx, hkeep⟩ := h s x List.mem_cons_self hs
    exact noPanic_bind hx fun t ht => noPanic_foldlM_of (hkeep t ht)
      fun u y hy => h u y (List.mem_cons_of_mem x hy)

theorem noPanic_mapM {f : α → Result β} :
    ∀ {xs : List α}, (∀ x ∈ xs, NoPanic (f x)) → NoPanic (xs.mapM f)
  | [], _ => noPanic_ok []
  | x :: xs, h => by
    obtain ⟨hx, hxs⟩ := List.forall_mem_cons.mp h
    rw [List.mapM_cons]
    exact noPanic_bind hx fun y _ => noPanic_bind (noPanic_mapM hxs) fun ys _ => noPanic_ok _

/-- A fallible `map` succeeds where each of its calls does. -/
theorem mapM_eq_ok {f : α → Result β} : ∀ {xs : List α} {ys : List β},
    xs.mapM f = .ok ys ↔ List.Forall₂ (fun x y => f x = .ok y) xs ys
  | [], ys => by
    rw [List.mapM_nil, pure_eq_ok, List.forall₂_nil_left_iff, eq_comm]
  | x :: xs, ys => by
    simp only [List.mapM_cons, bind_eq_ok, pure_eq_ok, List.forall₂_cons_left_iff, mapM_eq_ok]
    constructor
    · rintro ⟨y, hy, zs, hzs, rfl⟩
      exact ⟨y, zs, hy, hzs, rfl⟩
    · rintro ⟨y, zs, hy, hzs, rfl⟩
      exact ⟨y, hy, zs, hzs, rfl⟩

/-- A fallible `map` that succeeds mapped every element, in order. -/
theorem map_eq_of_mapM {f : α → Result β} {g : α → γ} {h : β → γ}
    (hf : ∀ x y, f x = .ok y → h y = g x) : ∀ {xs : List α} {ys : List β},
    xs.mapM f = .ok ys → ys.map h = xs.map g
  | [], ys, hm => by
    rw [List.mapM_nil, pure_eq_ok] at hm
    subst hm
    rfl
  | x :: xs, ys, hm => by
    simp only [List.mapM_cons, bind_eq_ok, pure_eq_ok] at hm
    obtain ⟨y, hy, zs, hzs, rfl⟩ := hm
    rw [List.map_cons, List.map_cons, hf x y hy, map_eq_of_mapM hf hzs]

theorem exists_of_mem_mapM {f : α → Result β} : ∀ {xs : List α} {ys : List β} {y : β},
    xs.mapM f = .ok ys → y ∈ ys → ∃ x ∈ xs, f x = .ok y
  | [], ys, y, hm, hy => by
    rw [List.mapM_nil, pure_eq_ok] at hm
    subst hm
    exact absurd hy List.not_mem_nil
  | x :: xs, ys, y, hm, hy => by
    simp only [List.mapM_cons, bind_eq_ok, pure_eq_ok] at hm
    obtain ⟨z, hz, zs, hzs, rfl⟩ := hm
    rcases List.mem_cons.mp hy with rfl | hy
    · exact ⟨x, List.mem_cons_self, hz⟩
    · obtain ⟨x', hx', hf⟩ := exists_of_mem_mapM hzs hy
      exact ⟨x', List.mem_cons_of_mem x hx', hf⟩

/-! ## Loops that remember -/

/-- **The rule for validation loops.** `S past` is the accumulator after the elements `past`.
A loop whose step accepts `x` exactly when `P x` and `R y x` for every earlier `y` accepts exactly
the lists that satisfy `P` throughout and `R` pairwise. The step premise may assume both of the
elements already accepted, so an accumulator that keeps only the last value can use their order. -/
theorem foldlM_pairwise {f : σ → α → Result σ} {S : List α → σ} {P : α → Prop}
    {R : α → α → Prop}
    (hstep : ∀ past x s, (∀ y ∈ past, P y) → past.Pairwise R →
      (f (S past) x = .ok s ↔ (P x ∧ ∀ y ∈ past, R y x) ∧ s = S (past ++ [x]))) :
    ∀ (xs past : List α) (s : σ), (∀ y ∈ past, P y) → past.Pairwise R →
      (xs.foldlM f (S past) = .ok s ↔
        (∀ x ∈ xs, P x) ∧ (past ++ xs).Pairwise R ∧ s = S (past ++ xs)) := by
  intro xs
  induction xs with
  | nil =>
    intro past s _ hR
    rw [List.foldlM_nil, pure_eq_ok, List.append_nil]
    exact ⟨fun h => ⟨fun _ hx => absurd hx List.not_mem_nil, hR, h.symm⟩, fun h => h.2.2.symm⟩
  | cons x xs ih =>
    intro past s hP hR
    rw [List.foldlM_cons, bind_eq_ok]
    constructor
    · rintro ⟨t, ht, hrest⟩
      obtain ⟨⟨hx, hyx⟩, rfl⟩ := (hstep past x t hP hR).mp ht
      have hP' : ∀ y ∈ past ++ [x], P y := by simpa [or_imp, forall_and] using ⟨hP, hx⟩
      have hR' : (past ++ [x]).Pairwise R := by
        rw [List.pairwise_append]
        exact ⟨hR, List.pairwise_singleton R x, by simpa using hyx⟩
      obtain ⟨hxs, hpw, hs⟩ := (ih (past ++ [x]) s hP' hR').mp hrest
      rw [List.append_assoc] at hpw hs
      exact ⟨List.forall_mem_cons.mpr ⟨hx, hxs⟩, hpw, hs⟩
    · rintro ⟨hall, hpw, hs⟩
      obtain ⟨hx, hxs⟩ := List.forall_mem_cons.mp hall
      have hyx : ∀ y ∈ past, R y x := fun y hy =>
        (List.pairwise_append.mp hpw).2.2 y hy x List.mem_cons_self
      have hP' : ∀ y ∈ past ++ [x], P y := by simpa [or_imp, forall_and] using ⟨hP, hx⟩
      have hR' : (past ++ [x]).Pairwise R := by
        rw [List.pairwise_append]
        exact ⟨hR, List.pairwise_singleton R x, by simpa using hyx⟩
      refine ⟨S (past ++ [x]), (hstep past x _ hP hR).mpr ⟨⟨hx, hyx⟩, rfl⟩, ?_⟩
      rw [ih (past ++ [x]) s hP' hR', List.append_assoc]
      exact ⟨hxs, hpw, hs⟩

/-- The forward half of `foldlM_pairwise`, for steps of which only a part is of interest. -/
theorem pairwise_of_foldlM {f : σ → α → Result σ} {S : List α → σ} {P : α → Prop}
    {R : α → α → Prop}
    (hstep : ∀ past x s, f (S past) x = .ok s →
      (P x ∧ ∀ y ∈ past, R y x) ∧ s = S (past ++ [x])) :
    ∀ (xs past : List α) (s : σ), past.Pairwise R → xs.foldlM f (S past) = .ok s →
      (∀ x ∈ xs, P x) ∧ (past ++ xs).Pairwise R ∧ s = S (past ++ xs) := by
  intro xs
  induction xs with
  | nil =>
    intro past s hR h
    rw [List.foldlM_nil, pure_eq_ok] at h
    rw [List.append_nil]
    exact ⟨fun _ hx => absurd hx List.not_mem_nil, hR, h.symm⟩
  | cons x xs ih =>
    intro past s hR h
    rw [List.foldlM_cons, bind_eq_ok] at h
    obtain ⟨t, ht, hrest⟩ := h
    obtain ⟨⟨hx, hyx⟩, rfl⟩ := hstep past x t ht
    have hR' : (past ++ [x]).Pairwise R := by
      rw [List.pairwise_append]
      exact ⟨hR, List.pairwise_singleton R x, by simpa using hyx⟩
    obtain ⟨hxs, hpw, hs⟩ := ih (past ++ [x]) s hR' hrest
    rw [List.append_assoc] at hpw hs
    exact ⟨List.forall_mem_cons.mpr ⟨hx, hxs⟩, hpw, hs⟩

/-- In a chain, the last element (or the start, for an empty list) bounds all of them: comparing
with the last value seen is comparing with every value seen. -/
theorem getLastD_rel_iff {r : α → α → Prop} (htrans : ∀ a b c, r a b → r b c → r a c) {n : α} :
    ∀ {l : List α} {d : α}, (d :: l).Pairwise r → (r (l.getLastD d) n ↔ ∀ y ∈ d :: l, r y n)
  | [], d, _ => by simp
  | y :: l, d, h => by
    obtain ⟨hd, hl⟩ := List.pairwise_cons.mp h
    rw [List.getLastD_cons]
    refine (getLastD_rel_iff htrans hl).trans ⟨?_, ?_⟩
    · intro hn z hz
      rcases List.mem_cons.mp hz with rfl | hz
      · exact htrans _ _ _ (hd y List.mem_cons_self) (hn y List.mem_cons_self)
      · exact hn z hz
    · exact fun hn z hz => hn z (List.mem_cons_of_mem d hz)

/-! ## Two loops in step -/

/-- **A loop that gets through**: `I` relates the accumulator and the elements to come. -/
theorem foldlM_completes {f : σ → α → Result σ} {I : σ → List α → Prop}
    (hf : ∀ s x xs, I s (x :: xs) → ∃ s', f s x = .ok s' ∧ I s' xs) :
    ∀ {xs : List α} {s : σ}, I s xs → ∃ s', xs.foldlM f s = .ok s' ∧ I s' []
  | [], s, hs => ⟨s, rfl, hs⟩
  | x :: xs, s, hs => by
    obtain ⟨t, ht, hI⟩ := hf s x xs hs
    obtain ⟨s', hs', hI'⟩ := foldlM_completes hf hI
    refine ⟨s', ?_, hI'⟩
    rw [List.foldlM_cons, bind_eq_ok]
    exact ⟨t, ht, hs'⟩

theorem mapM_completes {f : α → Result β} : ∀ {xs : List α}, (∀ x ∈ xs, ∃ y, f x = .ok y) →
    ∃ ys, xs.mapM f = .ok ys
  | [], _ => ⟨[], rfl⟩
  | x :: xs, h => by
    rw [List.forall_mem_cons] at h
    obtain ⟨y, hy⟩ := h.1
    obtain ⟨ys, hys⟩ := mapM_completes h.2
    refine ⟨y :: ys, ?_⟩
    rw [List.mapM_cons, hy, hys]
    rfl

/-- **The rule for two loops over one list.** `R rest s t` relates the accumulators of a loop that
passes and of one to be shown to, with `rest` still ahead of the second. -/
theorem foldlM_lockstep {τ : Type} {f : σ → α → Result σ} {g : τ → α → Result τ}
    {R : List α → σ → τ → Prop}
    (hstep : ∀ x rest s s' t, R (x :: rest) s t → f s x = .ok s' →
      ∃ t', g t x = .ok t' ∧ R rest s' t') :
    ∀ {xs rest : List α} {s s' : σ} {t : τ}, R (xs ++ rest) s t →
      xs.foldlM f s = .ok s' → ∃ t', xs.foldlM g t = .ok t' ∧ R rest s' t'
  | [], rest, s, s', t, hR, h => by
    rw [List.foldlM_nil, pure_eq_ok] at h
    subst h
    exact ⟨t, rfl, hR⟩
  | x :: xs, rest, s, s', t, hR, h => by
    rw [List.foldlM_cons, bind_eq_ok] at h
    obtain ⟨s₁, hs₁, hrest⟩ := h
    obtain ⟨t₁, ht₁, hR₁⟩ := hstep x (xs ++ rest) s s₁ t hR hs₁
    obtain ⟨t', ht', hR'⟩ := foldlM_lockstep hstep hR₁ hrest
    exact ⟨t', by rw [List.foldlM_cons, bind_eq_ok]; exact ⟨t₁, ht₁, ht'⟩, hR'⟩

/-! ## Updating the first match -/

/-- At most one element satisfies `p`. -/
def AtMostOne (p : α → Bool) (xs : List α) : Prop :=
  xs.Pairwise fun a b => p a = true → p b = false

theorem atMostOne_iff_countP : AtMostOne p xs ↔ xs.countP p ≤ 1 := by
  unfold AtMostOne
  induction xs with
  | nil => simp
  | cons x xs ih =>
    rw [List.pairwise_cons, ih]
    cases hx : p x with
    | true =>
      rw [List.countP_cons_of_pos hx]
      have hnone : (∀ y ∈ xs, true = true → p y = false) ↔ xs.countP p = 0 := by
        simp [List.countP_eq_zero]
      rw [hnone]
      omega
    | false =>
      rw [List.countP_cons_of_neg (by simp [hx])]
      simp

/-- A predicate that fixes a key that the elements do not share. -/
theorem atMostOne_of_nodup_map {key : α → β} {k : β} (h : (xs.map key).Nodup)
    (hp : ∀ x, p x = true → key x = k) : AtMostOne p xs := by
  rw [List.Nodup, List.pairwise_map] at h
  refine h.imp fun {a b} hne ha => ?_
  rw [← Bool.not_eq_true]
  exact fun hb => hne ((hp a ha).trans (hp b hb).symm)

/-- Past the unique match, the elementwise update does nothing. -/
theorem map_ite_eq_self {f : α → α} (h : ∀ x ∈ xs, p x = false) :
    xs.map (fun x => if p x then f x else x) = xs := by
  conv_rhs => rw [← List.map_id xs]
  refine List.map_congr_left fun x hx => ?_
  simp [h x hx]

/-- **Writing through the first match is the elementwise write**, when the match is unique. -/
theorem modify_eq_map (f : α → α) :
    ∀ {xs : List α} {i : Nat}, AtMostOne p xs → xs.findIdx? p = some i →
      xs.modify i f = xs.map fun x => if p x then f x else x
  | [], _, _, h => by simp at h
  | x :: xs, i, hone, h => by
    obtain ⟨hx, hxs⟩ := List.pairwise_cons.mp hone
    rw [List.findIdx?_cons] at h
    cases hp : p x with
    | true =>
      rw [hp] at h
      obtain rfl : 0 = i := by simpa using h
      rw [List.modify_zero_cons, List.map_cons, if_pos hp,
        map_ite_eq_self fun y hy => hx y hy hp]
    | false =>
      rw [hp] at h
      simp only [Bool.false_eq_true, if_false, Option.map_eq_some_iff] at h
      obtain ⟨j, hj, rfl⟩ := h
      rw [List.modify_succ_cons, List.map_cons, modify_eq_map f hxs hj, hp]
      rfl

/-- Writing at one place relates the lists elementwise. -/
theorem forall₂_modify {r : α → α → Prop} (hrefl : ∀ x, r x x) {f : α → α} :
    ∀ {xs : List α} {i : Nat}, (∀ x, xs[i]? = some x → r x (f x)) →
      List.Forall₂ r xs (xs.modify i f)
  | [], _, _ => by simp
  | x :: xs, 0, h => by
    rw [List.modify_zero_cons]
    exact .cons (h x rfl) (List.forall₂_same.mpr fun y _ => hrefl y)
  | x :: xs, i + 1, h => by
    rw [List.modify_succ_cons]
    exact .cons (hrefl x) (forall₂_modify hrefl fun y hy => h y (by simpa using hy))

theorem exists_mem_of_forall₂ (h : List.Forall₂ r xs ys) : ∀ y ∈ ys, ∃ x ∈ xs, r x y := by
  induction h with
  | nil => exact fun y hy => absurd hy List.not_mem_nil
  | cons hxy _ ih =>
    intro b hb
    rcases List.mem_cons.mp hb with rfl | hb
    · exact ⟨_, List.mem_cons_self, hxy⟩
    · obtain ⟨a, ha, hab⟩ := ih b hb
      exact ⟨a, List.mem_cons_of_mem _ ha, hab⟩

/-- Partners told apart by a key belong to one element each. -/
theorem eq_of_forall₂ {f : β → γ} (h : List.Forall₂ r xs ys) (hnodup : (ys.map f).Nodup) {x x' : α}
    (hx : x ∈ xs) (hx' : x' ∈ xs) (hkey : ∀ y y', r x y → r x' y' → f y = f y') : x = x' := by
  induction h with
  | nil => exact absurd hx List.not_mem_nil
  | @cons a b xs ys hab hrest ih =>
    obtain ⟨hb, hys⟩ := List.nodup_cons.mp hnodup
    rcases List.mem_cons.mp hx with rfl | hmem <;> rcases List.mem_cons.mp hx' with rfl | hmem'
    · rfl
    · obtain ⟨y, hy, hxy⟩ := exists_mem_of_forall₂ (r := flip r) hrest.flip x' hmem'
      exact absurd (List.mem_map.mpr ⟨y, hy, (hkey b y hab hxy).symm⟩) hb
    · obtain ⟨y, hy, hxy⟩ := exists_mem_of_forall₂ (r := flip r) hrest.flip x hmem
      exact absurd (List.mem_map.mpr ⟨y, hy, hkey y b hxy hab⟩) hb
    · exact ih hys hmem hmem'

theorem nodup_of_forall₂ {f : β → γ} (h : List.Forall₂ r xs ys) (hnodup : (ys.map f).Nodup)
    (hkey : ∀ x y y', r x y → r x y' → f y = f y') : xs.Nodup := by
  induction h with
  | nil => exact List.nodup_nil
  | @cons a b xs ys hab hrest ih =>
    obtain ⟨hb, hys⟩ := List.nodup_cons.mp hnodup
    refine List.nodup_cons.mpr ⟨fun ha => ?_, ih hys⟩
    obtain ⟨y, hy, hay⟩ := exists_mem_of_forall₂ (r := flip r) hrest.flip a ha
    exact hb (List.mem_map.mpr ⟨y, hy, hkey a y b hay hab⟩)

theorem map_eq_of_forall₂ {f : α → γ} {g : β → γ} (hr : ∀ x y, r x y → g y = f x)
    (h : List.Forall₂ r xs ys) :
    ys.map g = xs.map f := by
  induction h with
  | nil => rfl
  | cons hxy _ ih => rw [List.map_cons, List.map_cons, hr _ _ hxy, ih]

/-- Where the elements related to a match are matches, a unique match stays unique. -/
theorem AtMostOne.forall₂ {q : β → Bool} (h : AtMostOne p xs) (hr : List.Forall₂ r xs ys)
    (hpq : ∀ x y, r x y → q y = true → p x = true) : AtMostOne q ys := by
  induction hr with
  | nil => exact List.Pairwise.nil
  | cons hxy hrest ih =>
    obtain ⟨hx, hxs⟩ := List.pairwise_cons.mp h
    refine List.pairwise_cons.mpr ⟨fun b hb hq => ?_, ih hxs⟩
    obtain ⟨a, ha, hab⟩ := exists_mem_of_forall₂ hrest b hb
    have hp := hx a ha (hpq _ _ hxy hq)
    by_contra hqb
    rw [hpq a b hab (by simpa using hqb)] at hp
    exact Bool.noConfusion hp

theorem findIdx?_eq_some_get {i : Nat} {x : α} (h : xs.findIdx? p = some i) (hx : xs[i]? = some x) :
    x ∈ xs ∧ p x = true := by
  rw [List.findIdx?_eq_some_iff_getElem] at h
  obtain ⟨hi, hp, -⟩ := h
  rw [List.getElem?_eq_getElem hi] at hx
  cases hx
  exact ⟨List.getElem_mem hi, hp⟩

end LumaOS.Base
