import Mathlib.Algebra.Order.Group.Int
import Mathlib.Data.UInt
import Mathlib.Tactic.Ring

/-!
# Byte memory and little-endian numbers

Memory is a total map from addresses to bytes, and a byte string is given by its bytes
at each offset, so copies of any length stay executable. A copy changes exactly the
bytes of its destination.
-/

namespace HmrRpc.Common

/-- Byte-addressed memory. -/
abbrev Memory := ℤ → UInt8

/-- `memcpy`: the first `n` bytes of `src` go to `dst`. -/
def Memory.copy (m : Memory) (dst : ℤ) (src : ℕ → UInt8) (n : ℕ) : Memory :=
  fun a => if dst ≤ a ∧ a < dst + n then src (a - dst).toNat else m a

/-- The bytes found from an address on. -/
def Memory.bytesAt (m : Memory) (addr : ℤ) : ℕ → UInt8 := fun i => m (addr + i)

/-- A copied byte is found at its offset from the destination. -/
theorem Memory.copy_inside (m : Memory) (dst : ℤ) (src : ℕ → UInt8) {n i : ℕ} (hi : i < n) :
    m.copy dst src n (dst + i) = src i := by
  have hmem : dst ≤ dst + i ∧ dst + i < dst + n := by omega
  simp [Memory.copy, hmem]

/-- A copy leaves every byte outside its destination alone. -/
theorem Memory.copy_outside (m : Memory) {dst a : ℤ} (src : ℕ → UInt8) {n : ℕ}
    (ha : a < dst ∨ dst + n ≤ a) : m.copy dst src n a = m a := by
  have hmem : ¬(dst ≤ a ∧ a < dst + n) := by omega
  simp only [Memory.copy, if_neg hmem]

/-- Byte `i` of a number, least significant first. -/
def leByte (n i : ℕ) : UInt8 := UInt8.ofNat (n / 256 ^ i)

/-- The number whose `k` bytes, least significant first, are the given ones. -/
def ofLeBytes (bytes : ℕ → UInt8) : ℕ → ℕ
  | 0 => 0
  | k + 1 => ofLeBytes bytes k + (bytes k).toNat * 256 ^ k

/-- Only the first `k` bytes matter. -/
theorem ofLeBytes_congr {b c : ℕ → UInt8} {k : ℕ} (h : ∀ i < k, b i = c i) :
    ofLeBytes b k = ofLeBytes c k := by
  induction k with
  | zero => rfl
  | succ k ih =>
    rw [ofLeBytes, ofLeBytes, ih fun i hi => h i (by omega), h k (by omega)]

/-- Reading back `k` bytes of a number gives it modulo `256 ^ k`. -/
theorem ofLeBytes_leByte (n k : ℕ) : ofLeBytes (leByte n) k = n % 256 ^ k := by
  induction k with
  | zero => simp [ofLeBytes, Nat.mod_one]
  | succ k ih =>
    rw [ofLeBytes, ih, Nat.mod_pow_succ]
    simp only [leByte, UInt8.toNat_ofNat']
    ring

/-- A number that fits its bytes is read back unchanged. -/
theorem ofLeBytes_of_eq {bytes : ℕ → UInt8} {n k : ℕ} (hfit : n < 256 ^ k)
    (h : ∀ i < k, bytes i = leByte n i) : ofLeBytes bytes k = n := by
  rw [ofLeBytes_congr h, ofLeBytes_leByte, Nat.mod_eq_of_lt hfit]

end HmrRpc.Common
