import Mathlib

/-!
# Little-endian bytes

A fixed-width integer is stored as its bytes, least significant first. `leBytes n u` is the `n`
bytes of `u` modulo `256 ^ n`. A decoder reads them back by OR-ing byte `i` shifted left by
`8 * i` (`orShifts`). The bytes do not overlap, so that is the sum of byte `i` times `256 ^ i`
(`orShifts_eq_value`), and it reads `leBytes n u` back to `u % 256 ^ n` (`orShifts_leBytes`).
-/

namespace LittleEndian

/-- The `n` bytes of `u` modulo `256 ^ n`, least significant first. -/
def leBytes : ℕ → ℕ → List UInt8
  | 0, _ => []
  | n + 1, u => (u % 256).toUInt8 :: leBytes n (u / 256)

/-- The number that bytes stand for, least significant first. -/
def value (bytes : List UInt8) : ℕ := bytes.foldr (fun b acc => b.toNat + 256 * acc) 0

/-- The bytes OR-ed together, byte `i` shifted left by `8 * i`: how a decoder assembles them. -/
def orShifts (bytes : List UInt8) : ℕ := bytes.foldr (fun b acc => acc <<< 8 ||| b.toNat) 0

@[simp]
theorem length_leBytes (n u : ℕ) : (leBytes n u).length = n := by
  induction n generalizing u with
  | zero => rfl
  | succ n ih => simp [leBytes, ih]

/-- OR-ing shifted bytes adds them: byte `i` has no bit in common with the bytes above it. -/
theorem orShifts_eq_value (bytes : List UInt8) : orShifts bytes = value bytes := by
  induction bytes with
  | nil => rfl
  | cons b bytes ih =>
    have hb : b.toNat < 2 ^ 8 := b.toNat_lt
    simp only [orShifts, value, List.foldr_cons] at ih ⊢
    rw [← Nat.shiftLeft_add_eq_or_of_lt hb, ih, Nat.shiftLeft_eq]
    omega

/-- The bytes of `u` stand for `u` modulo `256 ^ n`. -/
theorem value_leBytes (n u : ℕ) : value (leBytes n u) = u % 256 ^ n := by
  induction n generalizing u with
  | zero => simp [leBytes, value, Nat.mod_one]
  | succ n ih =>
    have hih := ih (u / 256)
    simp only [value, leBytes, List.foldr_cons] at hih ⊢
    rw [hih, Nat.pow_succ, Nat.mul_comm (256 ^ n) 256, Nat.mod_mul]
    simp [Nat.toUInt8]

/-- A decoder reads the bytes of `u` back to `u` modulo `256 ^ n`. -/
theorem orShifts_leBytes (n u : ℕ) : orShifts (leBytes n u) = u % 256 ^ n := by
  rw [orShifts_eq_value, value_leBytes]

end LittleEndian
