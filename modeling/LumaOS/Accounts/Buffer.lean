import LumaOS.Base.Word
import LumaOS.Text.Rows
import Mathlib

/-!
# Private buffers and the password profile

`PrivateBuffer::new` of `sealed_credential.rs`, the slices that are copied into a buffer, and
`Hash::bytes` and `validate_hash` of `account_password.rs`. That the system grants a buffer within
the bound is taken for granted; a slice out of range panics.

* `slice_append`, `copyAt_next`: slices at the seams of a concatenation.
* `validateHash_text`: what an accepted hash looks like in a row.
-/

namespace LumaOS.Accounts

open LumaOS.Base LumaOS.Text LumaOS.Json

/-- The fields of a row. -/
abbrev Record := List (List Char)

def maxBlob : Nat := 16 * 1024

/-- `PrivateBuffer::new`. -/
def privateBuffer (capacity : Nat) : Result Bytes := do
  refuseIf (capacity == 0 || capacity > maxBlob) "credential buffer outside bound"
  pure (zeros capacity)

def outOfBounds : String := "index out of bounds"

/-- `&bytes[a..b]`. -/
def slice (bytes : Bytes) (a b : Nat) : Result Bytes :=
  expect (if a ≤ b ∧ b ≤ bytes.length then some ((bytes.take b).drop a) else none) outOfBounds

/-- `out[a..b].copy_from_slice(source)`. -/
def copyAt (out : Bytes) (a b : Nat) (source : Bytes) : Result Bytes :=
  expect (if a ≤ b ∧ b ≤ out.length ∧ source.length = b - a then
    some (out.take a ++ source ++ out.drop b) else none) outOfBounds

/-- `a - b` on `usize`. -/
def usizeSub (a b : Nat) : Result Nat := expect (if b ≤ a then some (a - b) else none) underflow

section

variable {n m a b : Nat} {x y z w source bytes : Bytes}

theorem privateBuffer_eq_ok : privateBuffer n = .ok x ↔ 0 < n ∧ n ≤ maxBlob ∧ x = zeros n := by
  simp only [privateBuffer, bind_eq_ok, refuseIf_eq_ok, pure_eq_ok, Bool.or_eq_false_iff,
    beq_eq_false_iff_ne, decide_eq_false_iff_not, not_lt, exists_const, gt_iff_lt]
  constructor
  · rintro ⟨⟨hne, hle⟩, rfl⟩
    exact ⟨Nat.pos_of_ne_zero hne, hle, rfl⟩
  · rintro ⟨hpos, hle, rfl⟩
    exact ⟨⟨hpos.ne', hle⟩, rfl⟩

theorem length_zeros : (zeros n).length = n := List.length_replicate

/-- **A slice between two seams.** -/
theorem slice_append (ha : a = x.length) (hb : b = x.length + y.length) :
    slice (x ++ (y ++ z)) a b = .ok y := by
  subst ha hb
  have htake : (x ++ (y ++ z)).take (x.length + y.length) = x ++ y := by
    rw [← List.append_assoc, ← List.length_append, List.take_left]
  rw [slice, if_pos ⟨by omega, by simp⟩, htake, List.drop_left]
  rfl

theorem slice_prefix (ha : a = x.length) : slice (x ++ y) 0 a = .ok x := by
  have h : slice ([] ++ (x ++ y)) 0 a = .ok x := slice_append rfl (by simpa using ha)
  rwa [List.nil_append] at h

theorem slice_suffix (ha : a = x.length) (hb : b = (x ++ y).length) :
    slice (x ++ y) a b = .ok y := by
  have h : slice (x ++ (y ++ [])) a b = .ok y :=
    slice_append ha (by rw [hb, List.length_append])
  rwa [List.append_nil] at h

/-- **The next piece of a buffer.** -/
theorem copyAt_next (ha : a = w.length) (hb : b = w.length + source.length)
    (hn : n = source.length + m) :
    copyAt (w ++ zeros n) a b source = .ok ((w ++ source) ++ zeros m) := by
  subst ha hb hn
  have hsplit : zeros (source.length + m) = zeros source.length ++ zeros m := by
    rw [zeros, zeros, zeros, List.replicate_add]
  have hdrop : (w ++ (zeros source.length ++ zeros m)).drop (w.length + source.length) =
      zeros m := by
    rw [← List.append_assoc]
    exact List.drop_left' (by rw [List.length_append, length_zeros])
  rw [copyAt, hsplit, if_pos ⟨by omega, by simp [length_zeros], by omega⟩, List.take_left, hdrop]
  rfl

/-- The last piece fills the buffer. -/
theorem copyAt_last (ha : a = w.length) (hb : b = w.length + source.length)
    (hn : n = source.length) : copyAt (w ++ zeros n) a b source = .ok (w ++ source) := by
  have h : copyAt (w ++ zeros n) a b source = .ok ((w ++ source) ++ zeros 0) :=
    copyAt_next ha hb (by omega)
  rwa [show zeros 0 = [] from rfl, List.append_nil] at h

theorem copyAt_first (hb : b = source.length) (hn : n = source.length + m) :
    copyAt (zeros n) 0 b source = .ok (source ++ zeros m) := by
  have h : copyAt ([] ++ zeros n) 0 b source = .ok (([] ++ source) ++ zeros m) :=
    copyAt_next rfl (by simpa using hb) hn
  rwa [List.nil_append, List.nil_append] at h

theorem usizeSub_eq (h : b ≤ a) : usizeSub a b = .ok (a - b) := by
  rw [usizeSub, if_pos h]
  rfl

end

/-- A file that is written into a buffer of its size. -/
def granted (out : Bytes) : Result Bytes := do
  let _ ← privateBuffer out.length
  pure out

theorem granted_eq_ok {out a : Bytes} :
    granted out = .ok a ↔ 0 < out.length ∧ out.length ≤ maxBlob ∧ a = out := by
  simp only [granted, bind_eq_ok, privateBuffer_eq_ok, pure_eq_ok]
  constructor
  · rintro ⟨_, ⟨hpos, hle, -⟩, rfl⟩
    exact ⟨hpos, hle, rfl⟩
  · rintro ⟨hpos, hle, rfl⟩
    exact ⟨_, ⟨hpos, hle, rfl⟩, rfl⟩

instance noPanic_granted (out : Bytes) : NoPanic (granted out) := by
  unfold granted privateBuffer
  infer_instance

/-- Slices that fill a buffer. -/
theorem filled {n : Nat} {f : Bytes → Result Bytes} {out : Bytes} (h : f (zeros n) = .ok out)
    (hn : n = out.length) : (privateBuffer n >>= f) = granted out := by
  subst hn
  unfold granted privateBuffer refuseIf
  split
  · rfl
  · exact h

/-! ## Password hashes -/

/-- `byte.is_ascii_alphanumeric() || b"./".contains(&byte)`. -/
def hashChar (c : Char) : Bool := c.isAlphanum || c == '.' || c == '/'

/-- `validate_hash`. -/
def validateHash (value : Bytes) : Result Unit := do
  let text ← okOr (utf8Text value) "invalid account hash encoding"
  let fields := text.toList.splitOn '$'
  refuseIf (value.length > 192 || fields.length != 5 || fields[0]? != some [] ||
    fields[1]? != some ['y'] || fields[2]? != some "j9T".toList ||
    !((fields[3]?).any fun f => 16 ≤ (bytesOf f).length && (bytesOf f).length ≤ 86) ||
    !((fields[4]?).any fun f => (bytesOf f).length == 43) ||
    (fields.drop 2).any fun f => !f.all hashChar)
    "account hash is not the fixed distribution yescrypt profile"

/-- What `luma_password_hash` left in its output buffer. -/
structure Hash where
  buffer : Bytes
  size : buffer.length = 384

/-- `Hash::bytes`. -/
def Hash.bytes (hash : Hash) : Result Bytes := do
  let length ← okOr (hash.buffer.findIdx? (· == 0)) "unterminated account hash"
  let value := hash.buffer.take length
  validateHash value
  pure value

/-- **What an accepted hash looks like**: it starts with a dollar sign, and none of its characters
separates fields or rows. -/
theorem validateHash_text {h : Bytes} {u : Unit} (hvalid : validateHash h = .ok u) :
    ∃ cs, h = bytesOf ('$' :: cs) ∧ (∀ c ∈ cs, c = '$' ∨ hashChar c = true) ∧ h.length ≤ 192 := by
  simp only [validateHash, bind_eq_ok, okOr_eq_ok, utf8Text_eq_some, refuseIf_eq_ok,
    Bool.or_eq_false_iff, bne_eq_false_iff_eq, decide_eq_false_iff_not, not_lt, gt_iff_lt,
    List.any_eq_false, Bool.not_eq_true, Bool.not_eq_false', List.all_eq_true] at hvalid
  obtain ⟨text, htext, ⟨⟨⟨⟨⟨⟨hsize, hcount⟩, hfirst⟩, hsecond⟩, -⟩, -⟩, -⟩, hchars⟩ := hvalid
  have hjoin : ['$'].intercalate (text.toList.splitOn '$') = text.toList :=
    List.intercalate_splitOn '$'
  generalize text.toList.splitOn '$' = fs at hcount hfirst hsecond hchars hjoin
  match fs, hcount with
  | [a, b, f, g, k], _ =>
    obtain rfl : a = [] := Option.some.inj hfirst
    obtain rfl : b = ['y'] := Option.some.inj hsecond
    refine ⟨'y' :: '$' :: (f ++ '$' :: (g ++ '$' :: k)), ?_, ?_, hsize⟩
    · rw [htext, ← hjoin]
      simp [List.intercalate]
    · simp only [List.drop_succ_cons, List.drop_zero, List.mem_cons, List.not_mem_nil, or_false,
        forall_eq_or_imp, forall_eq] at hchars
      obtain ⟨hf, hg, hk⟩ := hchars
      simp only [List.mem_cons, List.mem_append]
      rintro c (rfl | rfl | hc | rfl | hc | rfl | hc)
      · exact .inr (by decide)
      · exact .inl rfl
      · exact .inr (hf c hc)
      · exact .inl rfl
      · exact .inr (hg c hc)
      · exact .inl rfl
      · exact .inr (hk c hc)

theorem hashChar_range {c : Char} (h : c = '$' ∨ hashChar c = true) :
    36 ≤ c.toNat ∧ c.toNat < 128 ∧ c ≠ ':' := by
  rcases h with rfl | h
  · decide
  · simp only [hashChar, Char.isAlphanum, Char.isAlpha, Char.isUpper, Char.isLower, Char.isDigit,
      Bool.or_eq_true, Bool.and_eq_true, decide_eq_true_eq, beq_iff_eq] at h
    rcases h with (((⟨ha, hb⟩ | ⟨ha, hb⟩) | ⟨ha, hb⟩) | rfl) | rfl
    · refine ⟨Nat.le_trans (by decide) ha, Nat.lt_of_le_of_lt hb (by decide), ?_⟩
      rintro rfl
      exact absurd ha (by decide)
    · refine ⟨Nat.le_trans (by decide) ha, Nat.lt_of_le_of_lt hb (by decide), ?_⟩
      rintro rfl
      exact absurd ha (by decide)
    · refine ⟨Nat.le_trans (by decide) ha, Nat.lt_of_le_of_lt hb (by decide), ?_⟩
      rintro rfl
      exact absurd hb (by decide)
    · decide
    · decide

/-- Nothing in an accepted hash ends a field, a row or a buffer. -/
theorem hash_plain {cs : List Char} (h : ∀ c ∈ cs, c = '$' ∨ hashChar c = true) :
    ':' ∉ cs ∧ '\n' ∉ cs ∧ 0 ∉ bytesOf cs := by
  refine ⟨fun hmem => ?_, fun hmem => ?_, fun hmem => ?_⟩
  · exact (hashChar_range (h _ hmem)).2.2 rfl
  · exact absurd (hashChar_range (h _ hmem)).1 (by decide)
  · obtain ⟨c, hc, hbyte⟩ := List.mem_flatMap.mp hmem
    obtain ⟨hlow, hhigh, -⟩ := hashChar_range (h c hc)
    rw [utf8EncodeChar_ascii hhigh, List.mem_singleton] at hbyte
    have hzero := congrArg UInt8.toNat hbyte
    rw [UInt8.toNat_ofNat', Nat.mod_eq_of_lt (by omega)] at hzero
    have : (0 : UInt8).toNat = 0 := rfl
    omega

theorem validateHash_zero {h : Bytes} {u : Unit} (hvalid : validateHash h = .ok u) : 0 ∉ h := by
  obtain ⟨cs, rfl, hcs, -⟩ := validateHash_text hvalid
  exact (hash_plain (List.forall_mem_cons.mpr ⟨.inl rfl, hcs⟩)).2.2

/-- **Every accepted hash is one that a buffer holds.** -/
theorem exists_hash {h : Bytes} {u : Unit} (hvalid : validateHash h = .ok u) :
    ∃ hash : Hash, hash.bytes = .ok h := by
  have hzero := validateHash_zero hvalid
  obtain ⟨cs, -, -, hsize⟩ := validateHash_text hvalid
  have hfind : (h ++ zeros (384 - h.length)).findIdx? (· == 0) = some h.length := by
    rw [List.findIdx?_append, List.findIdx?_eq_none_iff.mpr fun b hb => ?_]
    · have hsucc : 384 - h.length = (383 - h.length) + 1 := by omega
      rw [hsucc, zeros, List.replicate_succ, List.findIdx?_cons]
      simp
    · rw [beq_eq_false_iff_ne]
      rintro rfl
      exact hzero hb
  refine ⟨⟨h ++ zeros (384 - h.length), ?_⟩, ?_⟩
  · rw [List.length_append, length_zeros]
    omega
  · simp only [Hash.bytes, bind_eq_ok, okOr_eq_ok, pure_eq_ok, hfind, Option.some.injEq,
      exists_eq_left', List.take_left]
    exact ⟨u, hvalid, trivial⟩

theorem Hash.valid {hash : Hash} {h : Bytes} (hbytes : hash.bytes = .ok h) :
    validateHash h = .ok () := by
  simp only [Hash.bytes, bind_eq_ok, pure_eq_ok] at hbytes
  obtain ⟨n, -, u, hvalid, rfl⟩ := hbytes
  exact hvalid

/-- A hash that is accepted. -/
def sampleHash : Bytes :=
  bytesOf ("$y$j9T$".toList ++ List.replicate 16 'a' ++ '$' :: List.replicate 43 'a')

theorem validateHash_sampleHash : validateHash sampleHash = .ok () := by
  decide +kernel

end LumaOS.Accounts
