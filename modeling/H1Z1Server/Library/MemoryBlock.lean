import Mathlib.Tactic

/-! Allocated blocks of bytes, addressed by signed offsets from their first byte. What an
access outside the block finds there is part of the block: a byte, or no readable memory. -/
namespace MemoryBlock

structure Block where
  bytes : List UInt8
  beyond : ℤ → Option UInt8

namespace Block

def size (m : Block) : ℕ := m.bytes.length

/-- The byte at an offset, if it can be read. -/
def peek (m : Block) (o : ℤ) : Option UInt8 :=
  if 0 ≤ o ∧ o < m.size then m.bytes[o.toNat]? else m.beyond o

/-- The `n` bytes from an offset on, if all of them can be read. -/
def load (m : Block) (o : ℤ) : ℕ → Option (List UInt8)
  | 0 => some []
  | n + 1 => (m.peek o).bind fun b => (load m (o + 1) n).map (b :: ·)

/-- Replacement of consecutive bytes of the block. Writing outside of it has no meaning;
writing nothing touches no memory, wherever the pointer points. -/
def store (m : Block) (o : ℤ) (bs : List UInt8) : Option Block :=
  if bs = [] then some m
  else if 0 ≤ o ∧ o + bs.length ≤ m.size then
    some { m with
      bytes := m.bytes.take o.toNat ++ bs ++ m.bytes.drop (o.toNat + bs.length) }
  else none

/-- A block of zero bytes. -/
def zeroed (n : ℕ) (beyond : ℤ → Option UInt8) : Block := ⟨List.replicate n 0, beyond⟩

@[simp] theorem size_zeroed (n : ℕ) (beyond : ℤ → Option UInt8) : (zeroed n beyond).size = n := by
  simp [zeroed, size]

theorem peek_of_lt {m : Block} {k : ℕ} (h : k < m.size) : m.peek k = m.bytes[k]? := by
  have hin : (0 : ℤ) ≤ k ∧ (k : ℤ) < m.size := by omega
  simp [peek, hin]

theorem peek_of_outside {m : Block} {o : ℤ} (h : o < 0 ∨ (m.size : ℤ) ≤ o) :
    m.peek o = m.beyond o := by
  have hout : ¬(0 ≤ o ∧ o < m.size) := by omega
  simp [peek, hout]

/-- Inside the block, a read returns the bytes of the block. -/
theorem load_of_inside {m : Block} {k n : ℕ} (h : k + n ≤ m.size) :
    m.load k n = some ((m.bytes.drop k).take n) := by
  induction n generalizing k with
  | zero => simp [load]
  | succ n ih =>
    have hk : k < m.size := by omega
    have hlen : k < m.bytes.length := hk
    have hnext := ih (k := k + 1) (by omega)
    rw [Nat.cast_succ] at hnext
    rw [load, peek_of_lt hk, List.getElem?_eq_getElem hlen, List.drop_eq_getElem_cons hlen,
      List.take_succ_cons, hnext]
    rfl

theorem length_of_load {m : Block} {o : ℤ} {n : ℕ} {bs : List UInt8}
    (h : m.load o n = some bs) : bs.length = n := by
  induction n generalizing o bs with
  | zero => simp_all [load]
  | succ n ih =>
    obtain ⟨b, hb, htail⟩ := Option.bind_eq_some_iff.mp h
    obtain ⟨rest, hrest, rfl⟩ := Option.map_eq_some_iff.mp htail
    simp [ih hrest]

/-- Outside of a block around which nothing can be read, a read fails. -/
theorem load_of_outside {m : Block} (hbeyond : ∀ o, m.beyond o = none) {o : ℤ} {n : ℕ} (hn : 0 < n)
    (h : o < 0 ∨ (m.size : ℤ) < o + n) : m.load o n = none := by
  induction n generalizing o with
  | zero => omega
  | succ n ih =>
    by_cases hin : 0 ≤ o ∧ o < m.size
    · have htail : m.load (o + 1) n = none := ih (by omega) (by omega)
      simp [load, htail]
    · simp [load, peek, hin, hbeyond]

theorem store_of_inside {m : Block} {k : ℕ} {bs : List UInt8} (h : k + bs.length ≤ m.size) :
    m.store k bs = some { m with
      bytes := m.bytes.take k ++ bs ++ m.bytes.drop (k + bs.length) } := by
  by_cases hbs : bs = []
  · simp [store, hbs]
  · have hin : (0 : ℤ) ≤ k ∧ (k : ℤ) + bs.length ≤ m.size := by omega
    simp [store, hbs, hin]

theorem store_of_outside {m : Block} {o : ℤ} {bs : List UInt8} (hbs : bs ≠ [])
    (h : o < 0 ∨ (m.size : ℤ) < o + bs.length) : m.store o bs = none := by
  have hout : ¬(0 ≤ o ∧ o + bs.length ≤ m.size) := by omega
  simp [store, hbs, hout]

/-- What was stored can be told from the block that it leaves. -/
theorem eq_of_store_eq {m m' : Block} {o : ℤ} {bs bs' : List UInt8} (h : m.store o bs = some m')
    (h' : m.store o bs' = some m') (hlen : bs.length = bs'.length) : bs = bs' := by
  by_cases hin : 0 ≤ o ∧ o + bs.length ≤ m.size
  · obtain ⟨k, rfl⟩ := Int.eq_ofNat_of_zero_le hin.1
    have hfits : k + bs.length ≤ m.size := by exact_mod_cast hin.2
    rw [store_of_inside hfits] at h
    rw [store_of_inside (hlen ▸ hfits)] at h'
    have hbytes := congrArg Block.bytes (Option.some.inj (h.trans h'.symm))
    have hsame := List.append_inj_left hbytes (by simp only [List.length_append, hlen])
    exact List.append_cancel_left hsame
  · by_cases hnil : bs = []
    · rw [hnil, List.length_nil] at hlen
      rw [hnil, List.length_eq_zero_iff.mp hlen.symm]
    · have hout := store_of_outside (m := m) (o := o) hnil (by omega)
      rw [hout] at h
      cases h

theorem store_zeroed {n : ℕ} {beyond : ℤ → Option UInt8} {bs : List UInt8} (h : bs.length ≤ n) :
    (zeroed n beyond).store 0 bs = some ⟨bs ++ List.replicate (n - bs.length) 0, beyond⟩ := by
  have hin : 0 + bs.length ≤ (zeroed n beyond).size := by simpa using h
  simpa [zeroed] using store_of_inside hin

/-- Writing at the end of a known prefix extends the prefix. -/
theorem store_append {m : Block} {log rest bs : List UInt8} (hm : m.bytes = log ++ rest)
    (h : bs.length ≤ rest.length) :
    m.store log.length bs =
      some { m with bytes := log ++ bs ++ rest.drop bs.length } := by
  have hsize : log.length + bs.length ≤ m.size := by simp [size, hm]; omega
  rw [store_of_inside hsize, hm, List.take_left]
  simp

/-- Reading what follows a known prefix. -/
theorem load_append {m : Block} {log bs rest : List UInt8} (hm : m.bytes = log ++ bs ++ rest) :
    m.load log.length bs.length = some bs := by
  have hsize : log.length + bs.length ≤ m.size := by simp [size, hm]
  rw [load_of_inside hsize, hm]
  simp

end Block
end MemoryBlock
