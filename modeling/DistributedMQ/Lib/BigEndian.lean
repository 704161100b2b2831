import Mathlib.Data.Int.Notation
import Mathlib.Data.List.Induction
import Mathlib.Data.Nat.Notation
import Mathlib.Tactic.Common
import Mathlib.Tactic.Positivity

/-!
# Numbers as bytes

Numbers of a fixed width, the most significant byte first, and signed numbers in two's
complement.

- `decode_encode`: what is read is what was written, up to the width.
- `toSigned_toUnsigned`: a signed number that fits survives the way there and back.
-/

namespace BigEndian

/-- The number some bytes stand for. -/
def decode (bytes : List UInt8) : ℕ := bytes.foldl (fun n b => n * 256 + b.toNat) 0

/-- The last `width` bytes of a number. -/
def encode : ℕ → ℕ → List UInt8
  | 0, _ => []
  | width + 1, n => encode width (n / 256) ++ [UInt8.ofNat n]

theorem decode_concat (bytes : List UInt8) (b : UInt8) :
    decode (bytes ++ [b]) = decode bytes * 256 + b.toNat := by
  rw [decode, List.foldl_append]
  rfl

theorem decode_lt (bytes : List UInt8) : decode bytes < 256 ^ bytes.length := by
  induction bytes using List.reverseRecOn with
  | nil => exact Nat.one_pos
  | append_singleton bytes b ih =>
    have hb := b.toNat_lt
    rw [decode_concat, List.length_append, List.length_singleton, Nat.pow_succ]
    omega

theorem decode_encode (width n : ℕ) : decode (encode width n) = n % 256 ^ width := by
  induction width generalizing n with
  | zero => exact (Nat.mod_one n).symm
  | succ width ih =>
    have hbyte : (UInt8.ofNat n).toNat = n % 256 := UInt8.toNat_ofNat'
    rw [encode, decode_concat, ih, hbyte, Nat.pow_succ, Nat.mul_comm (256 ^ width), Nat.mod_mul]
    omega

theorem length_encode (width n : ℕ) : (encode width n).length = width := by
  induction width generalizing n with
  | zero => rfl
  | succ width ih => rw [encode, List.length_append, ih, List.length_singleton]

/-- Bits above the width are not written. -/
theorem encode_mod (width n : ℕ) : encode width (n % 256 ^ width) = encode width n := by
  induction width generalizing n with
  | zero => rfl
  | succ width ih =>
    have hhigh : n % 256 ^ (width + 1) / 256 = n / 256 % 256 ^ width := by
      rw [Nat.pow_succ', Nat.mod_mul_right_div_self]
    have hlow : UInt8.ofNat (n % 256 ^ (width + 1)) = UInt8.ofNat n := by
      refine UInt8.toNat_inj.mp ?_
      rw [UInt8.toNat_ofNat', UInt8.toNat_ofNat', Nat.pow_succ']
      exact Nat.mod_mul_right_mod n 256 _
    rw [encode, encode, hhigh, hlow, ih]

/-! ## Reading -/

/-- The number in the first `width` bytes, and the bytes behind it. -/
def readNat (width : ℕ) (bytes : List UInt8) : ℕ × List UInt8 :=
  (decode (bytes.take width), bytes.drop width)

theorem readNat_lt (n : ℕ) (bytes : List UInt8) : (readNat n bytes).1 < 256 ^ n :=
  calc
    decode (bytes.take n) < 256 ^ (bytes.take n).length := decode_lt _
    _ ≤ 256 ^ n := Nat.pow_le_pow_right (by decide) (List.length_take_le n bytes)

theorem readNat_encode (width n : ℕ) (rest : List UInt8) :
    readNat width (encode width n ++ rest) = (n % 256 ^ width, rest) := by
  rw [readNat, List.take_left' (length_encode width n), List.drop_left' (length_encode width n),
    decode_encode]

def readInt64 (bytes : List UInt8) : Int64 × List UInt8 :=
  let (n, rest) := readNat 8 bytes
  (Int64.ofNat n, rest)

def readInt32 (bytes : List UInt8) : Int32 × List UInt8 :=
  let (n, rest) := readNat 4 bytes
  (Int32.ofNat n, rest)

def putInt64 (x : Int64) : List UInt8 := encode 8 x.toBitVec.toNat

def putInt32 (x : Int32) : List UInt8 := encode 4 x.toBitVec.toNat

theorem readInt64_put (x : Int64) (rest : List UInt8) :
    readInt64 (putInt64 x ++ rest) = (x, rest) := by
  have hlt : x.toBitVec.toNat < 256 ^ 8 := x.toBitVec.isLt
  rw [readInt64, putInt64, readNat_encode, Nat.mod_eq_of_lt hlt]
  refine Prod.ext (Int64.toBitVec_inj.mp ?_) rfl
  exact BitVec.ofNat_toNat _ _

theorem readInt32_put (x : Int32) (rest : List UInt8) :
    readInt32 (putInt32 x ++ rest) = (x, rest) := by
  have hlt : x.toBitVec.toNat < 256 ^ 4 := x.toBitVec.isLt
  rw [readInt32, putInt32, readNat_encode, Nat.mod_eq_of_lt hlt]
  refine Prod.ext (Int32.toBitVec_inj.mp ?_) rfl
  exact BitVec.ofNat_toNat _ _

theorem putInt64_ofNat (n : ℕ) : putInt64 (Int64.ofNat n) = encode 8 n :=
  encode_mod 8 n

theorem putInt32_ofNat (n : ℕ) : putInt32 (Int32.ofNat n) = encode 4 n :=
  encode_mod 4 n

/-! ## Signed numbers -/

/-- The signed number with these bits. -/
def toSigned (bits n : ℕ) : ℤ := Int.bmod n (2 ^ bits)

/-- The bits of a signed number. -/
def toUnsigned (bits : ℕ) (z : ℤ) : ℕ := (z % 2 ^ bits).toNat

/-- The number can be written in this many bits. -/
def Fits (bits : ℕ) (z : ℤ) : Prop := -2 ^ (bits - 1) ≤ z ∧ z < 2 ^ (bits - 1)

instance (bits : ℕ) (z : ℤ) : Decidable (Fits bits z) := inferInstanceAs (Decidable (_ ∧ _))

theorem bmod_of_fits {bits : ℕ} (hbits : 0 < bits) {z : ℤ} (h : Fits bits z) :
    Int.bmod z (2 ^ bits) = z := by
  obtain ⟨bits, rfl⟩ := Nat.exists_eq_add_one_of_ne_zero hbits.ne'
  obtain ⟨hle, hlt⟩ := h
  rw [Nat.add_sub_cancel] at hle hlt
  refine Int.bmod_eq_of_le ?_ ?_
  · rw [Nat.pow_succ]
    push_cast
    omega
  · rw [Nat.pow_succ]
    push_cast
    omega

theorem toSigned_toUnsigned {bits : ℕ} (hbits : 0 < bits) {z : ℤ} (h : Fits bits z) :
    toSigned bits (toUnsigned bits z) = z := by
  have hnonneg : 0 ≤ z % 2 ^ bits := Int.emod_nonneg z (by positivity)
  rw [toSigned, toUnsigned, Int.toNat_of_nonneg hnonneg]
  have hmod : z % 2 ^ bits = z % ((2 ^ bits : ℕ) : ℤ) := by push_cast; rfl
  rw [hmod, Int.emod_bmod]
  exact bmod_of_fits hbits h

end BigEndian
