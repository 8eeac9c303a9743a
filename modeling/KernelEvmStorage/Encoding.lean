import Mathlib.Data.Nat.Digits

/-!
# Byte encodings

The storage layer writes numbers as fixed-width little-endian byte strings and
derives path steps from the decimal rendering of a number and the lowercase
hexadecimal rendering of a hash.  This module gives those encodings with the
facts the path and codec proofs use: the little-endian round trip, a decoder
that inverts each rendering (so both are injective), their lengths, and the
bytes they are made of.
-/

namespace KernelEvmStorage

/-- Byte strings, Rust's `Vec<u8>` and `&[u8]`. -/
abbrev Bytes := List UInt8

/-- The bytes of a string literal, Rust's `b"..."`. -/
def ascii (s : String) : Bytes := s.toList.map fun c => c.toNat.toUInt8

/-- A byte array of length `n`, Rust's `[u8; n]`. -/
structure FixedBytes (n : Nat) where
  bytes : Bytes
  length_eq : bytes.length = n
deriving DecidableEq

theorem FixedBytes.bytes_injective {n : Nat} :
    Function.Injective (FixedBytes.bytes (n := n)) := by
  rintro ⟨a, ha⟩ ⟨b, hb⟩ (rfl : a = b)
  rfl

/-- `n` copies of the byte `b`: the hashes and addresses of the worked
examples. -/
def FixedBytes.replicate (n : Nat) (b : UInt8) : FixedBytes n :=
  ⟨List.replicate n b, List.length_replicate n b⟩

theorem toNat_toUInt8 {n : Nat} (h : n < 256) : n.toUInt8.toNat = n :=
  UInt8.toNat_ofNat_of_lt h

/-! `as u16` keeps the low sixteen bits. -/

@[simp] theorem toNat_toUInt16 (n : Nat) : n.toUInt16.toNat = n % 65536 := by
  simp [Nat.toUInt16, UInt16.ofNat, UInt16.toNat, BitVec.toNat_ofNat]

@[simp] theorem toUInt16_toNat (i : UInt16) : i.toNat.toUInt16 = i :=
  UInt16.toNat.inj (by rw [toNat_toUInt16, Nat.mod_eq_of_lt i.toNat_lt_size])

theorem UInt16.le_iff_toNat_le {a b : UInt16} : a ≤ b ↔ a.toNat ≤ b.toNat := by
  simp [UInt16.le_def, BitVec.le_def, UInt16.toNat]

theorem UInt16.lt_iff_toNat_lt {a b : UInt16} : a < b ↔ a.toNat < b.toNat := by
  simp [UInt16.lt_def, BitVec.lt_def, UInt16.toNat]

/-! ## Little-endian words -/

/-- The `width` low bytes of `n`, least significant first: Rust's
`to_little_endian` and `to_le_bytes`. -/
def leBytes : Nat → Nat → Bytes
  | 0, _ => []
  | width + 1, n => (n % 256).toUInt8 :: leBytes width (n / 256)

/-- The number whose little-endian bytes are `bytes`: Rust's
`from_little_endian` and `from_le_bytes`. -/
def leValue : Bytes → Nat
  | [] => 0
  | b :: rest => b.toNat + 256 * leValue rest

@[simp] theorem length_leBytes (width n : Nat) : (leBytes width n).length = width := by
  induction width generalizing n with
  | zero => rfl
  | succ width ih => simp [leBytes, ih]

theorem leValue_leBytes (width n : Nat) : leValue (leBytes width n) = n % 256 ^ width := by
  induction width generalizing n with
  | zero => simp [leBytes, leValue, Nat.mod_one]
  | succ width ih =>
      have hlow : (n % 256).toUInt8.toNat = n % 256 := toNat_toUInt8 (Nat.mod_lt _ (by decide))
      simp only [leBytes, leValue, hlow, ih, pow_succ']
      rw [Nat.mod_mul, Nat.add_comm]

theorem take_leBytes (k width n : Nat) :
    (leBytes width n).take k = leBytes (min k width) n := by
  induction width generalizing k n with
  | zero => simp [leBytes]
  | succ width ih =>
      cases k with
      | zero => simp [leBytes]
      | succ k => simp [leBytes, ih, Nat.succ_min_succ]

/-! ## Decimal rendering -/

/-- The ASCII code of the decimal digit `d`. -/
def digitChar (d : Nat) : UInt8 := (48 + d).toUInt8

/-- The decimal digits of `n`, most significant first, `[0]` for zero. -/
def decimalDigits (n : Nat) : List Nat :=
  if n = 0 then [0] else (Nat.digits 10 n).reverse

/-- The decimal rendering of a number: Rust's `to_string` and `format!("{}")`
on integers. -/
def decimal (n : Nat) : Bytes := (decimalDigits n).map digitChar

/-- The number a decimal rendering stands for. -/
def decimalValue (bytes : Bytes) : Nat :=
  Nat.ofDigits 10 (bytes.reverse.map fun b => b.toNat - 48)

theorem decimalDigits_lt_ten {n d : Nat} (h : d ∈ decimalDigits n) : d < 10 := by
  unfold decimalDigits at h
  split at h
  · simp_all
  · exact Nat.digits_lt_base (by decide) (List.mem_reverse.mp h)

theorem toNat_digitChar {d : Nat} (h : d < 10) : (digitChar d).toNat = 48 + d :=
  toNat_toUInt8 (by omega)

theorem decimalValue_decimal (n : Nat) : decimalValue (decimal n) = n := by
  have hmap : (decimal n).reverse.map (fun b => b.toNat - 48) = (decimalDigits n).reverse := by
    rw [decimal, List.map_reverse, List.map_map]
    congr 1
    refine (List.map_congr_left fun d hd => ?_).trans (List.map_id _)
    simp [toNat_digitChar (decimalDigits_lt_ten hd)]
  rw [decimalValue, hmap, decimalDigits]
  split
  · simp_all [Nat.ofDigits]
  · simp [Nat.ofDigits_digits]

theorem decimal_injective : Function.Injective decimal :=
  Function.LeftInverse.injective decimalValue_decimal

theorem length_decimal_le {n k : Nat} (hk : 0 < k) (hn : n < 10 ^ k) :
    (decimal n).length ≤ k := by
  unfold decimal decimalDigits
  split
  · simpa using hk
  · rename_i h0
    simp only [List.length_map, List.length_reverse, Nat.digits_len 10 n (by decide) h0]
    have := Nat.log_lt_of_lt_pow h0 hn
    omega

theorem decimal_ne_nil (n : Nat) : decimal n ≠ [] := by
  unfold decimal decimalDigits
  split
  · simp
  · simpa [Nat.digits_eq_nil_iff_eq_zero]

/-- The bytes of a decimal rendering are the ASCII digits. -/
theorem isDigit_of_mem_decimal {n : Nat} {b : UInt8} (h : b ∈ decimal n) :
    48 ≤ b.toNat ∧ b.toNat ≤ 57 := by
  obtain ⟨d, hd, rfl⟩ := List.mem_map.mp h
  have := decimalDigits_lt_ten hd
  rw [toNat_digitChar this]
  omega

/-! ## Hexadecimal rendering -/

/-- The lowercase ASCII code of the hexadecimal digit `d`. -/
def hexDigit (d : Nat) : UInt8 :=
  if d < 10 then (48 + d).toUInt8 else (87 + d).toUInt8

/-- The value of a lowercase hexadecimal ASCII digit. -/
def hexDigitValue (c : UInt8) : Nat :=
  if c.toNat < 58 then c.toNat - 48 else c.toNat - 87

/-- The lowercase hexadecimal rendering of bytes, `hex::encode`. -/
def hexEncode (bytes : Bytes) : Bytes :=
  bytes.flatMap fun b => [hexDigit (b.toNat / 16), hexDigit (b.toNat % 16)]

/-- The bytes a hexadecimal rendering stands for, two digits a byte. -/
def hexDecode : Bytes → Bytes
  | hi :: lo :: rest => (16 * hexDigitValue hi + hexDigitValue lo).toUInt8 :: hexDecode rest
  | _ => []

theorem toNat_hexDigit {d : Nat} (h : d < 16) :
    (hexDigit d).toNat = if d < 10 then 48 + d else 87 + d := by
  unfold hexDigit
  split <;> exact toNat_toUInt8 (by omega)

theorem hexDigitValue_hexDigit {d : Nat} (h : d < 16) : hexDigitValue (hexDigit d) = d := by
  unfold hexDigitValue
  rw [toNat_hexDigit h]
  split <;> split <;> omega

theorem hexEncode_cons (b : UInt8) (rest : Bytes) :
    hexEncode (b :: rest) = hexDigit (b.toNat / 16) :: hexDigit (b.toNat % 16) :: hexEncode rest :=
  rfl

theorem hexDecode_hexEncode (bytes : Bytes) : hexDecode (hexEncode bytes) = bytes := by
  induction bytes with
  | nil => rfl
  | cons b rest ih =>
      have hb := b.toNat_lt_size
      simp only [UInt8.size] at hb
      rw [hexEncode_cons, hexDecode, ih, hexDigitValue_hexDigit (by omega),
        hexDigitValue_hexDigit (by omega), Nat.div_add_mod]
      congr 1
      exact UInt8.toNat.inj (toNat_toUInt8 hb)

theorem hexEncode_injective : Function.Injective hexEncode :=
  Function.LeftInverse.injective hexDecode_hexEncode

@[simp] theorem length_hexEncode (bytes : Bytes) : (hexEncode bytes).length = 2 * bytes.length := by
  induction bytes with
  | nil => rfl
  | cons b rest ih => simp only [hexEncode_cons, List.length_cons, ih]; omega

/-- The bytes of a hexadecimal rendering are ASCII digits or `a` to `f`. -/
theorem isHexDigit_of_mem_hexEncode {bytes : Bytes} {c : UInt8} (h : c ∈ hexEncode bytes) :
    (48 ≤ c.toNat ∧ c.toNat ≤ 57) ∨ (97 ≤ c.toNat ∧ c.toNat ≤ 102) := by
  obtain ⟨b, -, hc⟩ := List.mem_flatMap.mp h
  have hb := b.toNat_lt_size
  simp only [UInt8.size] at hb
  have hdigit : ∀ d < 16, c = hexDigit d →
      (48 ≤ c.toNat ∧ c.toNat ≤ 57) ∨ (97 ≤ c.toNat ∧ c.toNat ≤ 102) := by
    rintro d hd rfl
    rw [toNat_hexDigit hd]
    split <;> omega
  rcases List.mem_pair.mp hc with hc | hc
  · exact hdigit _ (by omega) hc
  · exact hdigit _ (by omega) hc

end KernelEvmStorage
