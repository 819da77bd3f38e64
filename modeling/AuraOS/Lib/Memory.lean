import AuraOS.Lib.Buffer
import Mathlib.Logic.Function.Basic

/-!
# Byte-addressed memory

A memory is a function from addresses to bytes.  Words of 32 bits are stored low byte first.  The
lemmas about a load after a store are meant for `simp (disch := omega)`: two accesses either coincide
or are apart.
-/

namespace AuraOS.Lib

/-- The contents of the memory. -/
abbrev Mem := ℕ → UInt8

namespace Mem

def load8 (m : Mem) (a : ℕ) : ℕ := (m a).toNat

def store8 (m : Mem) (a v : ℕ) : Mem := Function.update m a (UInt8.ofNat v)

/-- The 16 bit word at address `a`. -/
def load16 (m : Mem) (a : ℕ) : ℕ := (m a).toNat + 256 * (m (a + 1)).toNat

/-- Store a word; what is beyond 16 bits is cut off. -/
def store16 (m : Mem) (a v : ℕ) : Mem := fun x => if a ≤ x ∧ x < a + 2 then byte v (x - a) else m x

/-- The 32 bit word at address `a`. -/
def load32 (m : Mem) (a : ℕ) : ℕ :=
  (m a).toNat + 256 * (m (a + 1)).toNat + 65536 * (m (a + 2)).toNat + 16777216 * (m (a + 3)).toNat

/-- Store a word; what is beyond 32 bits is cut off. -/
def store32 (m : Mem) (a v : ℕ) : Mem := fun x => if a ≤ x ∧ x < a + 4 then byte v (x - a) else m x

/-- Set the `len` bytes from `p` on, one after the other. -/
def memsetK (m : Mem) (p : ℕ) (val : UInt8) : ℕ → Mem
  | 0 => m
  | len + 1 => memsetK (Function.update m p val) (p + 1) val len

section Access

variable {m m' : Mem} {a b v : ℕ}

theorem load32_lt : m.load32 a < 2 ^ 32 := by
  have h0 : (m a).toNat < 256 := UInt8.toNat_lt _
  have h1 : (m (a + 1)).toNat < 256 := UInt8.toNat_lt _
  have h2 : (m (a + 2)).toNat < 256 := UInt8.toNat_lt _
  have h3 : (m (a + 3)).toNat < 256 := UInt8.toNat_lt _
  unfold load32
  omega

@[simp] theorem load8_store8 : (m.store8 a v).load8 a = v % 256 := by
  unfold load8 store8
  rw [Function.update_self, UInt8.toNat_ofNat']

@[simp] theorem load16_store16 : (m.store16 a v).load16 a = v % 2 ^ 16 := by
  unfold load16 store16
  rw [if_pos (by omega), if_pos (by omega), Nat.sub_self, Nat.add_sub_cancel_left, toNat_byte, toNat_byte]
  omega

@[simp] theorem load32_store32 : (m.store32 a v).load32 a = v % 2 ^ 32 := by
  unfold load32 store32
  rw [if_pos (by omega), if_pos (by omega), if_pos (by omega), if_pos (by omega), Nat.sub_self,
    Nat.add_sub_cancel_left, Nat.add_sub_cancel_left, Nat.add_sub_cancel_left, toNat_byte,
    toNat_byte, toNat_byte, toNat_byte]
  omega

theorem store8_apply {x : ℕ} (h : x ≠ a) : m.store8 a v x = m x := Function.update_of_ne h _ _

theorem store16_apply {x : ℕ} (h : x < a ∨ a + 2 ≤ x) : m.store16 a v x = m x := if_neg (by omega)

theorem store32_apply {x : ℕ} (h : x < a ∨ a + 4 ≤ x) : m.store32 a v x = m x := if_neg (by omega)

theorem load8_congr (h : m' a = m a) : m'.load8 a = m.load8 a := by
  unfold load8
  rw [h]

theorem load16_congr (h : ∀ x, a ≤ x → x < a + 2 → m' x = m x) : m'.load16 a = m.load16 a := by
  unfold load16
  rw [h a (by omega) (by omega), h (a + 1) (by omega) (by omega)]

theorem load32_congr (h : ∀ x, a ≤ x → x < a + 4 → m' x = m x) : m'.load32 a = m.load32 a := by
  unfold load32
  rw [h a (by omega) (by omega), h (a + 1) (by omega) (by omega), h (a + 2) (by omega) (by omega),
    h (a + 3) (by omega) (by omega)]

theorem load8_store16_of_ne (h : b < a ∨ a + 2 ≤ b) : (m.store16 a v).load8 b = m.load8 b :=
  load8_congr (store16_apply h)

theorem load16_store8_of_ne (h : a < b ∨ b + 2 ≤ a) : (m.store8 a v).load16 b = m.load16 b :=
  load16_congr fun _ h1 h2 => store8_apply (by omega)

theorem load16_store16_of_ne (h : b + 2 ≤ a ∨ a + 2 ≤ b) : (m.store16 a v).load16 b = m.load16 b :=
  load16_congr fun _ h1 h2 => store16_apply (by omega)

theorem load8_store32_of_ne (h : b < a ∨ a + 4 ≤ b) : (m.store32 a v).load8 b = m.load8 b :=
  load8_congr (store32_apply h)

theorem load32_store8_of_ne (h : a < b ∨ b + 4 ≤ a) : (m.store8 a v).load32 b = m.load32 b :=
  load32_congr fun _ h1 h2 => store8_apply (by omega)

theorem load32_store32_of_ne (h : b + 4 ≤ a ∨ a + 4 ≤ b) : (m.store32 a v).load32 b = m.load32 b :=
  load32_congr fun _ h1 h2 => store32_apply (by omega)

theorem memsetK_apply (val : UInt8) (len p : ℕ) {x : ℕ} (h : x < p ∨ p + len ≤ x) :
    memsetK m p val len x = m x := by
  induction len generalizing m p with
  | zero => rfl
  | succ len ih =>
    unfold memsetK
    rw [ih (p + 1) (by omega), Function.update_of_ne (by omega)]

theorem memsetK_apply_of_mem (val : UInt8) (len p : ℕ) {x : ℕ} (h : p ≤ x ∧ x < p + len) :
    memsetK m p val len x = val := by
  induction len generalizing m p with
  | zero => omega
  | succ len ih =>
    unfold memsetK
    by_cases hx : x = p
    · rw [memsetK_apply val len (p + 1) (by omega), hx, Function.update_self]
    · exact ih (p + 1) (by omega)

end Access

end Mem

end AuraOS.Lib
