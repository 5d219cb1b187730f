import LumaOS.Base.Fallible

/-!
# Byte strings, hexadecimal and the canonical digest text

`bundle::hex` (`bundle.rs:55-57`), `bundle::is_hash` / `artifacts::hash` (`bundle.rs:59-64`,
`artifacts.rs:56-61`) and `tpm::decode::<N>` (`tpm.rs:844-857`), which the ledger, the catalog and
the journal all share.

Rust's `len()` is the UTF-8 byte count, `utf8ByteSize`. A check `.bytes().all(p)` with `p` an ASCII
class is `toList.all p` on characters: a non-ASCII character encodes to bytes of 128 and up, which
no such `p` accepts.
-/

namespace LumaOS.Text

open LumaOS.Base

-- a check of a text is decided on its characters, never on all of `Char`
instance (priority := 1100) decidableForallMem (p : Char → Prop) [DecidablePred p] (l : List Char) :
    Decidable (∀ c ∈ l, p c) :=
  List.decidableBAll p l

/-- `Vec<u8>`. -/
abbrev Bytes := List UInt8

/-- `b.is_ascii_digit() || (b'a'..=b'f').contains(&b)`. -/
def lowerHex (c : Char) : Bool := c.isDigit || ('a' ≤ c && c ≤ 'f')

/-- `b.is_ascii_hexdigit()`. -/
def asciiHexdigit (c : Char) : Bool := c.isDigit || ('a' ≤ c && c ≤ 'f') || ('A' ≤ c && c ≤ 'F')

/-- `bundle::is_hash`: 64 lowercase hexadecimal digits. -/
def isHash (value : String) : Bool := value.utf8ByteSize == 64 && value.toList.all lowerHex

/-- The digit of a nibble, as `{:x}` prints it. -/
def hexDigit (n : Nat) : Char := if n < 10 then Char.ofNat (48 + n) else Char.ofNat (87 + n)

/-- `bundle::hex`: two lowercase digits for each byte. -/
def hex (bytes : Bytes) : String :=
  String.ofList (bytes.flatMap fun b => [hexDigit (b.toNat / 16), hexDigit (b.toNat % 16)])

/-- The value of a lowercase hexadecimal digit. -/
def hexValue (c : Char) : Nat := if c.isDigit then c.toNat - 48 else c.toNat - 87

/-- `value.as_bytes().chunks_exact(2)`, each read as one byte. -/
def hexPairs : List Char → Bytes
  | hi :: lo :: rest => UInt8.ofNat (16 * hexValue hi + hexValue lo) :: hexPairs rest
  | _ => []

/-- `tpm::decode::<N>`. -/
def decode (n : Nat) (value : String) : Result Bytes := do
  refuseIf (value.utf8ByteSize != n * 2 || !value.toList.all lowerHex)
    "invalid canonical TPM digest"
  pure (hexPairs value.toList)

instance noPanic_decode (n : Nat) (value : String) : NoPanic (decode n value) := by
  unfold decode
  infer_instance

/-- `[0; N]`. -/
def zeros (n : Nat) : Bytes := List.replicate n 0

/-- `text.repeat(n)`. -/
def repeatText (text : String) (n : Nat) : String :=
  String.ofList (List.replicate n text.toList).flatten

/-- `str.isspace` of one character. -/
def isSpace (c : Char) : Bool :=
  let n := c.toNat
  (0x09 ≤ n && n ≤ 0x0D) || (0x1C ≤ n && n ≤ 0x20) || n == 0x85 || n == 0xA0 || n == 0x1680 ||
    (0x2000 ≤ n && n ≤ 0x200A) || n == 0x2028 || n == 0x2029 || n == 0x202F || n == 0x205F ||
    n == 0x3000

/-- `values.windows(2).all(|pair| pair[0] < pair[1])`. -/
def ascending : List String → Bool
  | a :: b :: rest => a < b && ascending (b :: rest)
  | _ => true

/-! ## Hexadecimal text is canonical -/

theorem utf8ByteSize_ofList_ascii :
    ∀ {l : List Char}, (∀ c ∈ l, c.utf8Size = 1) → (String.ofList l).utf8ByteSize = l.length
  | [], _ => rfl
  | c :: l, h => by
    rw [String.ofList_cons, String.utf8ByteSize_append, String.utf8ByteSize_singleton,
      h c List.mem_cons_self,
      utf8ByteSize_ofList_ascii fun d hd => h d (List.mem_cons_of_mem c hd), List.length_cons]
    omega

theorem hexDigit_ascii : ∀ n < 16, (hexDigit n).utf8Size = 1 ∧ lowerHex (hexDigit n) = true := by
  decide

theorem mem_hex_digits {bytes : Bytes} {c : Char}
    (h : c ∈ bytes.flatMap fun b => [hexDigit (b.toNat / 16), hexDigit (b.toNat % 16)]) :
    ∃ n < 16, c = hexDigit n := by
  obtain ⟨b, -, hc⟩ := List.mem_flatMap.mp h
  have hb : b.toNat < 256 := b.toNat_lt
  simp only [List.mem_cons, List.not_mem_nil, or_false] at hc
  rcases hc with rfl | rfl
  · exact ⟨_, by omega, rfl⟩
  · exact ⟨_, by omega, rfl⟩

theorem utf8ByteSize_hex (bytes : Bytes) : (hex bytes).utf8ByteSize = bytes.length * 2 := by
  rw [hex, utf8ByteSize_ofList_ascii fun c hc => ?_, List.length_flatMap]
  · simp only [List.length_cons, List.length_nil, List.map_const', List.sum_replicate_nat]
  · obtain ⟨n, hn, rfl⟩ := mem_hex_digits hc
    exact (hexDigit_ascii n hn).1

theorem lowerHex_hex (bytes : Bytes) : (hex bytes).toList.all lowerHex = true := by
  rw [hex, String.toList_ofList, List.all_eq_true]
  intro c hc
  obtain ⟨n, hn, rfl⟩ := mem_hex_digits hc
  exact (hexDigit_ascii n hn).2

/-- The digest of 32 bytes prints as 64 lowercase hexadecimal digits. -/
theorem isHash_hex {bytes : Bytes} (h : bytes.length = 32) : isHash (hex bytes) = true := by
  rw [isHash, utf8ByteSize_hex, h, lowerHex_hex]
  rfl

/-- A lowercase hexadecimal digit is a decimal one or a letter. -/
theorem lowerHex_cases {c : Char} (h : lowerHex c = true) :
    (48 ≤ c.toNat ∧ c.toNat ≤ 57 ∧ hexValue c = c.toNat - 48) ∨
      (97 ≤ c.toNat ∧ c.toNat ≤ 102 ∧ hexValue c = c.toNat - 87) := by
  unfold hexValue
  cases hd : c.isDigit with
  | true =>
    simp only [Char.isDigit, Bool.and_eq_true, decide_eq_true_eq] at hd
    exact Or.inl ⟨hd.1, hd.2, rfl⟩
  | false =>
    simp only [lowerHex, hd, Bool.false_or, Bool.and_eq_true, decide_eq_true_eq] at h
    exact Or.inr ⟨h.1, h.2, rfl⟩

theorem utf8Size_of_lowerHex {c : Char} (h : lowerHex c = true) : c.utf8Size = 1 := by
  have hc : c.toNat ≤ 127 := by
    obtain ⟨-, hle, -⟩ | ⟨-, hle, -⟩ := lowerHex_cases h <;> omega
  exact Char.utf8Size_eq_one_iff.mpr hc

theorem hexValue_inj {c d : Char} (hc : lowerHex c = true) (hd : lowerHex d = true)
    (h : hexValue c = hexValue d) : c = d := by
  refine Char.toNat_inj.mp ?_
  obtain ⟨_, _, hc⟩ | ⟨_, _, hc⟩ := lowerHex_cases hc <;>
    obtain ⟨_, _, hd⟩ | ⟨_, _, hd⟩ := lowerHex_cases hd <;> omega

/-- One byte determines its two digits. -/
theorem hexPair_inj {a b c d : Char} (ha : lowerHex a = true) (hb : lowerHex b = true)
    (hc : lowerHex c = true) (hd : lowerHex d = true)
    (h : UInt8.ofNat (16 * hexValue a + hexValue b) = UInt8.ofNat (16 * hexValue c + hexValue d)) :
    a = c ∧ b = d := by
  have hlt : ∀ x, lowerHex x = true → hexValue x < 16 := fun x hx => by
    obtain ⟨_, _, hv⟩ | ⟨_, _, hv⟩ := lowerHex_cases hx <;> omega
  have h' := congrArg UInt8.toNat h
  rw [UInt8.toNat_ofNat', UInt8.toNat_ofNat'] at h'
  have := hlt a ha
  have := hlt b hb
  have := hlt c hc
  have := hlt d hd
  exact ⟨hexValue_inj ha hc (by omega), hexValue_inj hb hd (by omega)⟩

theorem exists_pair_of_length {n : Nat} : ∀ {l : List Char}, l.length = (n + 1) * 2 →
    ∃ a b t, l = a :: b :: t ∧ t.length = n * 2
  | [], h | [_], h => by
    simp only [List.length_cons, List.length_nil] at h
    omega
  | a :: b :: t, h => by
    simp only [List.length_cons] at h
    exact ⟨a, b, t, rfl, by omega⟩

theorem hexPairs_inj {n : Nat} {cs ds : List Char} (hcs : cs.length = n * 2)
    (hds : ds.length = n * 2) (hc : ∀ c ∈ cs, lowerHex c = true)
    (hd : ∀ d ∈ ds, lowerHex d = true) (h : hexPairs cs = hexPairs ds) : cs = ds := by
  induction n generalizing cs ds with
  | zero =>
    rw [List.eq_nil_of_length_eq_zero (by omega : cs.length = 0),
      List.eq_nil_of_length_eq_zero (by omega : ds.length = 0)]
  | succ n ih =>
    obtain ⟨a, b, cs, rfl, hcs'⟩ := exists_pair_of_length hcs
    obtain ⟨c, d, ds, rfl, hds'⟩ := exists_pair_of_length hds
    simp only [List.mem_cons, forall_eq_or_imp] at hc hd
    obtain ⟨hpair, hrest⟩ := List.cons.inj h
    obtain ⟨rfl, rfl⟩ := hexPair_inj hc.1 hc.2.1 hd.1 hd.2.1 hpair
    rw [ih hcs' hds' hc.2.2 hd.2.2 hrest]

/-- **A canonical digest text is the only one of its bytes.** -/
theorem decode_inj {n : Nat} {a b : String} {bytes : Bytes} (ha : decode n a = .ok bytes)
    (hb : decode n b = .ok bytes) : a = b := by
  have hlen : ∀ s : String, s.utf8ByteSize = n * 2 → (∀ c ∈ s.toList, lowerHex c = true) →
      s.toList.length = n * 2 := fun s hs hc => by
    rw [← utf8ByteSize_ofList_ascii fun c hmem => utf8Size_of_lowerHex (hc c hmem),
      String.ofList_toList, hs]
  simp only [decode, bind_eq_ok, refuseIf_eq_ok, Bool.or_eq_false_iff, bne_eq_false_iff_eq,
    Bool.not_eq_false', List.all_eq_true, pure_eq_ok] at ha hb
  obtain ⟨_, ⟨hsa, hca⟩, rfl⟩ := ha
  obtain ⟨_, ⟨hsb, hcb⟩, h⟩ := hb
  exact String.toList_inj.mp (hexPairs_inj (hlen a hsa hca) (hlen b hsb hcb) hca hcb h.symm)

/-! ## Hexadecimal text reads back -/

theorem hexValue_hexDigit : ∀ n < 16, hexValue (hexDigit n) = n := by decide

theorem hexPairs_hex (bytes : Bytes) : hexPairs (hex bytes).toList = bytes := by
  rw [hex, String.toList_ofList]
  induction bytes with
  | nil => rfl
  | cons b bytes ih =>
    have hlt := b.toNat_lt
    rw [List.flatMap_cons, List.cons_append, List.cons_append, List.nil_append, hexPairs, ih,
      hexValue_hexDigit _ (by omega), hexValue_hexDigit _ (by omega), Nat.div_add_mod,
      UInt8.ofNat_toNat]

/-- `tpm::decode` inverts `bundle::hex`. -/
theorem decode_hex {n : Nat} {bytes : Bytes} (h : bytes.length = n) :
    decode n (hex bytes) = .ok bytes := by
  simp only [decode, bind_eq_ok, refuseIf_eq_ok, pure_eq_ok, utf8ByteSize_hex, lowerHex_hex, h,
    hexPairs_hex]
  exact ⟨(), by simp, trivial⟩

theorem hex_injective : Function.Injective hex := by
  intro a b h
  rw [← hexPairs_hex a, h, hexPairs_hex]

end LumaOS.Text
