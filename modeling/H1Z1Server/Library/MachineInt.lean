import Mathlib.Tactic

/-! The integer conversions of a 64-bit C++ build: `int` and `DWORD` have 32 bits, `size_t`
has 64. A conversion keeps the value modulo the size of its target. -/
namespace MachineInt

/-- `int` to `size_t`, by sign extension. -/
def sizeT (i : Int32) : UInt64 := UInt64.ofNat (i.toInt % 2 ^ 64).toNat

/-- `size_t` to `int`. -/
def narrow (n : UInt64) : Int32 := Int32.ofInt n.toNat

/-- `int` to `DWORD`. -/
def dword (i : Int32) : UInt32 := UInt32.ofNat (i.toInt % 2 ^ 32).toNat

/-- `DWORD` to `int`. -/
def narrowDword (n : UInt32) : Int32 := Int32.ofInt n.toNat

/-- `DWORD` to `size_t`. -/
def widen (n : UInt32) : UInt64 := UInt64.ofNat n.toNat

/-- `int` to `BYTE`. -/
def byte (i : Int32) : UInt8 := UInt8.ofNat (i.toInt % 2 ^ 8).toNat

/-- `int` to `WORD`. -/
def word (i : Int32) : UInt16 := UInt16.ofNat (i.toInt % 2 ^ 16).toNat

theorem toNat_sizeT (i : Int32) : ((sizeT i).toNat : ℤ) = i.toInt % 2 ^ 64 := by
  have hlo : (0 : ℤ) ≤ i.toInt % 2 ^ 64 := Int.emod_nonneg _ (by norm_num)
  have hhi : i.toInt % 2 ^ 64 < 2 ^ 64 := Int.emod_lt_of_pos _ (by norm_num)
  rw [sizeT, UInt64.toNat_ofNat', Nat.mod_eq_of_lt (by omega)]
  omega

theorem toNat_sizeT_of_nonneg {i : Int32} (h : 0 ≤ i.toInt) :
    ((sizeT i).toNat : ℤ) = i.toInt := by
  have hlt := i.toInt_lt
  rw [toNat_sizeT]
  omega

theorem toNat_sizeT_add {p : Int32} (hlo : 0 ≤ p.toInt) (size : UInt64)
    (hfit : size.toNat < 2 ^ 63) : (sizeT p + size).toNat = p.toInt.toNat + size.toNat := by
  have hp := toNat_sizeT_of_nonneg hlo
  have hlt := p.toInt_lt
  rw [UInt64.toNat_add, Nat.mod_eq_of_lt] <;> omega

/-- The sum of an index and a size keeps its value modulo 2^64 only. -/
theorem toNat_sizeT_add_emod (p : Int32) (size : UInt64) :
    ((sizeT p + size).toNat : ℤ) = (p.toInt + size.toNat) % 2 ^ 64 := by
  have hp := toNat_sizeT p
  have hsize := size.toNat_lt
  rw [UInt64.toNat_add]
  omega

theorem bmod_of_small {z : ℤ} (hlo : 0 ≤ z) (hhi : z < 2 ^ 63) : z.bmod (2 ^ 64) = z := by
  have hlow : -((2 ^ 64 : ℕ) : ℤ) ≤ z * 2 := by
    push_cast
    linarith
  have hhigh : z * 2 < ((2 ^ 64 : ℕ) : ℤ) := by
    push_cast
    linarith
  exact Int.bmod_eq_of_le_mul_two hlow hhigh

theorem ne_zero_of_pos {n : UInt64} (h : 0 < n.toNat) : n ≠ 0 := by
  rintro rfl
  exact absurd h (lt_irrefl 0)

theorem ne_neg_one_of_nonneg {i : Int32} (h : 0 ≤ i.toInt) : i ≠ -1 := by
  rintro rfl
  exact absurd h (by decide)

theorem toInt_ofInt {z : ℤ} (hlo : -2 ^ 31 ≤ z) (hhi : z < 2 ^ 31) :
    (Int32.ofInt z).toInt = z := by
  rw [Int32.toInt_ofInt, Int32.size, Int.bmod_def]
  split <;> omega

/-- A sum that an `int` can hold. -/
theorem toInt_add_of_lt {i n : Int32} {k : ℤ} (hn : n.toInt = k) (hk : 0 ≤ k) (h : i.toInt + k < 2 ^ 31) :
    (i + n).toInt = i.toInt + k := by
  have hlo := i.le_toInt
  rw [Int32.toInt_add, hn, Int.bmod_def]
  split <;> omega

theorem toInt_narrow {n : UInt64} (h : n.toNat < 2 ^ 31) : (narrow n).toInt = n.toNat :=
  toInt_ofInt (by omega) (by omega)

/-- Half of the `size_t` below 2^32 are negative as an `int`. -/
theorem toInt_narrow_neg {n : UInt64} (hlo : 2 ^ 31 ≤ n.toNat) (hhi : n.toNat < 2 ^ 32) :
    (narrow n).toInt < 0 := by
  rw [narrow, Int32.toInt_ofInt, Int32.size, Int.bmod_def]
  split <;> omega

theorem toNat_dword (i : Int32) : ((dword i).toNat : ℤ) = i.toInt % 2 ^ 32 := by
  have hlo : (0 : ℤ) ≤ i.toInt % 2 ^ 32 := Int.emod_nonneg _ (by norm_num)
  have hhi : i.toInt % 2 ^ 32 < 2 ^ 32 := Int.emod_lt_of_pos _ (by norm_num)
  rw [dword, UInt32.toNat_ofNat', Nat.mod_eq_of_lt (by omega)]
  omega

theorem toNat_dword_of_nonneg {i : Int32} (h : 0 ≤ i.toInt) :
    ((dword i).toNat : ℤ) = i.toInt := by
  have hlt := i.toInt_lt
  rw [toNat_dword]
  omega

section OfInt
variable {n : ℕ}

theorem dword_ofInt (h : n < 2 ^ 31) : dword (Int32.ofInt n) = UInt32.ofNat n := by
  rw [dword, toInt_ofInt (by omega) (by omega), Int.emod_eq_of_lt (by omega) (by omega), Int.toNat_natCast]

theorem sizeT_ofInt (h : n < 2 ^ 31) : sizeT (Int32.ofInt n) = UInt64.ofNat n := by
  rw [sizeT, toInt_ofInt (by omega) (by omega), Int.emod_eq_of_lt (by omega) (by omega), Int.toNat_natCast]

theorem word_ofInt (h : n < 2 ^ 16) : word (Int32.ofInt n) = UInt16.ofNat n := by
  rw [word, toInt_ofInt (by omega) (by omega), Int.emod_eq_of_lt (by omega) (by omega), Int.toNat_natCast]

theorem byte_ofInt (h : n < 2 ^ 8) : byte (Int32.ofInt n) = UInt8.ofNat n := by
  rw [byte, toInt_ofInt (by omega) (by omega), Int.emod_eq_of_lt (by omega) (by omega), Int.toNat_natCast]

end OfInt

theorem toInt_narrowDword {n : UInt32} (h : n.toNat < 2 ^ 31) :
    (narrowDword n).toInt = n.toNat :=
  toInt_ofInt (by omega) (by omega)

/-- An `int` tells a `DWORD` from the `size_t` that are not the same modulo 2^32. -/
theorem narrowDword_eq_narrow_iff {d : UInt32} {n : UInt64} :
    narrowDword d = narrow n ↔ d.toNat = n.toNat % 2 ^ 32 := by
  have hd : d.toNat < 2 ^ 32 := d.toNat_lt
  rw [← Int32.toInt_inj, narrowDword, narrow, Int32.toInt_ofInt, Int32.toInt_ofInt, Int32.size, Int.bmod_def,
    Int.bmod_def]
  constructor
  · intro heq
    split at heq <;> split at heq <;> omega
  · intro heq
    split <;> split <;> omega

/-- An `int` index is moved by as much in `size_t`. -/
theorem narrow_sizeT_add (p : Int32) (n : UInt64) : narrow (sizeT p + n) = p + narrow n := by
  have hsum := toNat_sizeT_add_emod p n
  have hdvd : ((4294967296 : ℕ) : ℤ) ∣ 2 ^ 64 := by norm_num
  rw [← Int32.toInt_inj, Int32.toInt_add, narrow, narrow, Int32.toInt_ofInt, Int32.toInt_ofInt, Int32.size,
    Int.add_bmod_bmod, Int.bmod_def, Int.bmod_def, hsum, Int.emod_emod_of_dvd _ hdvd]

@[simp] theorem toNat_widen (n : UInt32) : (widen n).toNat = n.toNat := by
  have hn : n.toNat < 2 ^ 32 := n.toNat_lt
  rw [widen, UInt64.toNat_ofNat', Nat.mod_eq_of_lt (by omega)]

theorem toNat_ofNat_of_lt {n : ℕ} (h : n < 2 ^ 64) : (UInt64.ofNat n).toNat = n := by
  rw [UInt64.toNat_ofNat', Nat.mod_eq_of_lt h]

/-- The `int` of the last index of a list. -/
theorem narrow_last (n : ℕ) : narrow (UInt64.ofNat (n + 1) - 1) = Int32.ofInt n := by
  have hsub : UInt64.ofNat (n + 1) - 1 = UInt64.ofNat n := by
    apply UInt64.toNat_inj.mp
    simp only [UInt64.toNat_sub, UInt64.toNat_ofNat']
    have hone : (1 : UInt64).toNat = 1 := rfl
    rw [hone]
    omega
  rw [hsub, narrow, UInt64.toNat_ofNat']
  apply Int32.toInt_inj.mp
  rw [Int32.toInt_ofInt, Int32.toInt_ofInt, Int.bmod_def, Int.bmod_def]
  have hmod : (((n % 2 ^ 64 : ℕ) : ℤ)) % (Int32.size : ℤ) = (n : ℤ) % (Int32.size : ℤ) := by
    simp only [Int32.size]
    omega
  rw [hmod]

end MachineInt
