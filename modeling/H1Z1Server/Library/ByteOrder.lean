import Mathlib.Tactic

/-! Fixed-width naturals as bytes, least significant byte first, and the reversal of
their byte order. -/
namespace ByteOrder

/-- The `w` low bytes of `n`, least significant first. -/
def toLE : ℕ → ℕ → List UInt8
  | 0, _ => []
  | w + 1, n => UInt8.ofNat n :: toLE w (n / 256)

/-- The natural number whose bytes, least significant first, are given. -/
def ofLE : List UInt8 → ℕ
  | [] => 0
  | b :: bs => b.toNat + 256 * ofLE bs

/-- The `w` low bytes of `n`, most significant first. -/
def toBE (w n : ℕ) : List UInt8 := (toLE w n).reverse

/-- The natural number whose bytes, most significant first, are given. -/
def ofBE (bs : List UInt8) : ℕ := ofLE bs.reverse

/-- Exchange of the two byte orders of a number of `w` bytes. -/
def byteSwap (w n : ℕ) : ℕ := ofLE (toLE w n).reverse

@[simp] theorem length_toLE (w n : ℕ) : (toLE w n).length = w := by
  induction w generalizing n with
  | zero => rfl
  | succ w ih => simp [toLE, ih]

@[simp] theorem length_toBE (w n : ℕ) : (toBE w n).length = w := by simp [toBE]

theorem ofLE_toLE (w n : ℕ) : ofLE (toLE w n) = n % 256 ^ w := by
  induction w generalizing n with
  | zero => simp [toLE, ofLE, Nat.mod_one]
  | succ w ih =>
    have hb : (UInt8.ofNat n).toNat = n % 256 := by simp
    rw [toLE, ofLE, ih, hb, pow_succ', Nat.mod_mul]

theorem ofLE_toLE_of_lt {w n : ℕ} (h : n < 256 ^ w) : ofLE (toLE w n) = n := by
  rw [ofLE_toLE, Nat.mod_eq_of_lt h]

theorem toLE_ofLE (bs : List UInt8) : toLE bs.length (ofLE bs) = bs := by
  induction bs with
  | nil => rfl
  | cons b bs ih =>
    have hb : b.toNat < 256 := b.toNat_lt
    have hlow : UInt8.ofNat (b.toNat + 256 * ofLE bs) = b := by
      apply UInt8.toNat_inj.mp
      rw [UInt8.toNat_ofNat']
      omega
    have hhigh : (b.toNat + 256 * ofLE bs) / 256 = ofLE bs := by omega
    rw [List.length_cons, ofLE, toLE, hlow, hhigh, ih]

theorem toLE_ofLE_of_length {w : ℕ} {bs : List UInt8} (h : bs.length = w) :
    toLE w (ofLE bs) = bs := by rw [← h, toLE_ofLE]

theorem ofLE_lt (bs : List UInt8) : ofLE bs < 256 ^ bs.length := by
  induction bs with
  | nil => simp [ofLE]
  | cons b bs ih =>
    have hb : b.toNat < 256 := b.toNat_lt
    rw [ofLE, List.length_cons, pow_succ]
    omega

theorem ofLE_append (xs ys : List UInt8) :
    ofLE (xs ++ ys) = ofLE xs + 256 ^ xs.length * ofLE ys := by
  induction xs with
  | nil => simp [ofLE]
  | cons b xs ih =>
    rw [List.cons_append, ofLE, ofLE, ih, List.length_cons, pow_succ]
    ring

theorem toLE_drop (j w n : ℕ) : (toLE w n).drop j = toLE (w - j) (n / 256 ^ j) := by
  induction j generalizing w n with
  | zero => simp
  | succ j ih =>
    cases w with
    | zero => simp [toLE]
    | succ w =>
      rw [toLE, List.drop_succ_cons, ih, Nat.add_sub_add_right, Nat.div_div_eq_div_mul, ← pow_succ']

theorem ofLE_replicate_zero (j : ℕ) : ofLE (List.replicate j 0) = 0 := by
  induction j with
  | zero => rfl
  | succ j ih =>
    rw [List.replicate_succ, ofLE, ih]
    rfl

theorem ofBE_toBE_of_lt {w n : ℕ} (h : n < 256 ^ w) : ofBE (toBE w n) = n := by
  rw [ofBE, toBE, List.reverse_reverse, ofLE_toLE_of_lt h]

theorem toBE_ofBE_of_length {w : ℕ} {bs : List UInt8} (h : bs.length = w) :
    toBE w (ofBE bs) = bs := by
  rw [toBE, ofBE, toLE_ofLE_of_length (by simpa using h), List.reverse_reverse]

theorem ofBE_lt (bs : List UInt8) : ofBE bs < 256 ^ bs.length := by
  simpa [ofBE] using ofLE_lt bs.reverse

theorem byteSwap_lt (w n : ℕ) : byteSwap w n < 256 ^ w := by
  simpa [byteSwap] using ofLE_lt (toLE w n).reverse

/-- Storing a swapped number least significant byte first stores the number most
significant byte first. -/
theorem toLE_byteSwap (w n : ℕ) : toLE w (byteSwap w n) = toBE w n :=
  toLE_ofLE_of_length (by simp)

theorem byteSwap_ofLE {w : ℕ} {bs : List UInt8} (h : bs.length = w) :
    byteSwap w (ofLE bs) = ofBE bs := by
  rw [byteSwap, toLE_ofLE_of_length h, ofBE]

end ByteOrder
