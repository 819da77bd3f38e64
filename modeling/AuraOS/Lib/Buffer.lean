import Mathlib.Algebra.Group.Nat.Defs
import Mathlib.Data.List.Basic
import Mathlib.Tactic.Common

/-!
# Byte buffers of a fixed length

A C array `uint8_t b[n]` is a `Vector UInt8 n`.  Every access goes through `rd` and `wr`, which take
a plain natural index: a read past the end gives `0` and a write past the end does nothing, so the
in-bounds facts are hypotheses of the lemmas and never part of a term.  `tab` builds a buffer from
its bytes and `blit` overwrites a run of them.

Masks of neighbouring bits are divisions (`and_mask`).  The little-endian halves of 16 and 32 bit words
(`le16`, `le32` and the `byte` of a word) are what packed C structures are read and written with.
-/

namespace AuraOS.Lib

/-- A byte array of length `n`. -/
abbrev Buf (n : ℕ) := Vector UInt8 n

namespace Buf

variable {n : ℕ}

/-- The byte at index `i`. -/
def rd (b : Buf n) (i : ℕ) : UInt8 := b[i]?.getD 0

/-- The buffer with byte `i` set to `v`. -/
def wr (b : Buf n) (i : ℕ) (v : UInt8) : Buf n := Vector.setIfInBounds b i v

/-- The buffer whose byte `i` is `f i`. -/
def tab (n : ℕ) (f : ℕ → UInt8) : Buf n := Vector.ofFn fun i : Fin n => f i

/-- The buffer with the `len` bytes from `off` on replaced by `f 0, f 1, …`. -/
def blit (b : Buf n) (off len : ℕ) (f : ℕ → UInt8) : Buf n :=
  tab n fun i => if off ≤ i ∧ i < off + len then f (i - off) else b.rd i

theorem rd_of_le (b : Buf n) {i : ℕ} (h : n ≤ i) : b.rd i = 0 := by
  unfold rd
  rw [Vector.getElem?_eq_none h]
  rfl

@[simp] theorem rd_tab (f : ℕ → UInt8) {i : ℕ} (h : i < n) : (tab n f).rd i = f i := by
  unfold rd tab
  rw [Vector.getElem?_ofFn, dif_pos h]
  rfl

theorem rd_wr (b : Buf n) {i : ℕ} (h : i < n) (j : ℕ) (v : UInt8) :
    (b.wr i v).rd j = if j = i then v else b.rd j := by
  unfold rd wr
  rw [Vector.getElem?_setIfInBounds]
  by_cases hj : i = j
  · rw [if_pos hj, if_pos h, if_pos hj.symm]
    rfl
  · rw [if_neg hj, if_neg (Ne.symm hj)]

theorem rd_blit (b : Buf n) (off len : ℕ) (f : ℕ → UInt8) {i : ℕ} (h : i < n) :
    (b.blit off len f).rd i = if off ≤ i ∧ i < off + len then f (i - off) else b.rd i := by
  unfold blit
  rw [rd_tab _ h]

/-- Two buffers with the same bytes are equal. -/
theorem ext_rd {a b : Buf n} (h : ∀ i < n, a.rd i = b.rd i) : a = b := by
  refine Vector.ext fun i hi => ?_
  have := h i hi
  unfold rd at this
  rw [Vector.getElem?_eq_getElem hi, Vector.getElem?_eq_getElem hi] at this
  simpa using this

@[simp] theorem tab_rd (b : Buf n) : tab n b.rd = b := ext_rd fun _ hi => rd_tab _ hi

theorem tab_congr {f g : ℕ → UInt8} (h : ∀ i < n, f i = g i) : tab n f = tab n g :=
  ext_rd fun i hi => by rw [rd_tab _ hi, rd_tab _ hi, h i hi]

end Buf

/-! ### Masks and little-endian words -/

/-- A mask of `k` bits from bit `j` on. -/
theorem and_mask (x j k : ℕ) : x &&& ((2 ^ k - 1) <<< j) = x / 2 ^ j % 2 ^ k * 2 ^ j := by
  have h : x &&& ((2 ^ k - 1) <<< j) = ((x >>> j) &&& (2 ^ k - 1)) <<< j := by
    refine Nat.eq_of_testBit_eq fun i => ?_
    rw [Nat.testBit_and, Nat.testBit_shiftLeft, Nat.testBit_shiftLeft, Nat.testBit_and,
      Nat.testBit_shiftRight]
    by_cases hi : j ≤ i
    · simp [hi, Nat.add_sub_cancel' hi]
    · simp [hi]
  rw [h, Nat.and_two_pow_sub_one_eq_mod, Nat.shiftLeft_eq, Nat.shiftRight_eq_div_pow]

/-- A disjunction of a low and a shifted high part is their sum. -/
theorem or_shift {a k : ℕ} (ha : a < 2 ^ k) (b : ℕ) : a ||| b * 2 ^ k = a + b * 2 ^ k := by
  rw [Nat.or_comm, Nat.mul_comm b, ← Nat.two_pow_add_eq_or_of_lt ha, Nat.add_comm]

/-- Byte `i` of the number `v`, the low byte first. -/
def byte (v i : ℕ) : UInt8 := UInt8.ofNat (v / 256 ^ i)

theorem toNat_byte (v i : ℕ) : (byte v i).toNat = v / 256 ^ i % 256 := by
  unfold byte
  rw [UInt8.toNat_ofNat']

/-- The 16 bit word with the given bytes, the low byte first. -/
def le16 (b₀ b₁ : UInt8) : UInt16 := UInt16.ofNat (b₀.toNat + 256 * b₁.toNat)

/-- The 32 bit word with the given bytes, the low byte first. -/
def le32 (b₀ b₁ b₂ b₃ : UInt8) : UInt32 :=
  UInt32.ofNat (b₀.toNat + 256 * b₁.toNat + 65536 * b₂.toNat + 16777216 * b₃.toNat)

@[simp] theorem le16_byte (v : UInt16) : le16 (byte v.toNat 0) (byte v.toNat 1) = v := by
  have hv : v.toNat < 65536 := v.toNat_lt
  apply UInt16.toNat.inj
  unfold le16
  rw [UInt16.toNat_ofNat', toNat_byte, toNat_byte]
  omega

@[simp] theorem le32_byte (v : UInt32) :
    le32 (byte v.toNat 0) (byte v.toNat 1) (byte v.toNat 2) (byte v.toNat 3) = v := by
  have hv : v.toNat < 4294967296 := v.toNat_lt
  apply UInt32.toNat.inj
  unfold le32
  rw [UInt32.toNat_ofNat', toNat_byte, toNat_byte, toNat_byte, toNat_byte]
  omega

end AuraOS.Lib
