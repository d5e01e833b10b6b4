import H1Z1Server.SonyNetworking.CRC4

/-! What the key schedule of `CRC4` leaves in the table and behind it. Its first 256 rounds are
those of RC4; the last four exchange table entries with the memory behind the table. -/
namespace H1Z1Server.CRC4
open RC4 (SBox)

/-- The table at the start of a memory. -/
def table (m : Memory) : SBox := fun b => m b.toNat

theorem table_comp_swap (m : Memory) {i j : ℕ} (hi : i < 256) (hj : j < 256) :
    table (m ∘ Equiv.swap i j) = RC4.exchange (table m) (UInt8.ofNat i) (UInt8.ofNat j) := by
  funext b
  have hb : b.toNat < 256 := b.toNat_lt
  have hcast : ∀ {k : ℕ}, k < 256 → (b.toNat = k ↔ b = UInt8.ofNat k) := by
    intro k hk
    rw [← UInt8.toNat_inj, UInt8.toNat_ofNat', Nat.mod_eq_of_lt hk]
  simp only [table, RC4.exchange, Function.comp_apply, Equiv.swap_apply_def, hcast hi, hcast hj]
  split
  · rw [UInt8.toNat_ofNat', Nat.mod_eq_of_lt hj]
  · split
    · rw [UInt8.toNat_ofNat', Nat.mod_eq_of_lt hi]
    · rfl

/-- An exchange with a byte behind the table overwrites one entry. -/
theorem table_comp_swap_behind (m : Memory) {i j : ℕ} (hi : 256 ≤ i) (hj : j < 256) :
    table (m ∘ Equiv.swap i j) = Function.update (table m) (UInt8.ofNat j) (m i) := by
  funext b
  have hb : b.toNat < 256 := b.toNat_lt
  have hcast : b.toNat = j ↔ b = UInt8.ofNat j := by
    rw [← UInt8.toNat_inj, UInt8.toNat_ofNat', Nat.mod_eq_of_lt hj]
  simp only [table, Function.comp_apply, Function.update_apply]
  by_cases hbj : b = UInt8.ofNat j
  · rw [if_pos hbj, hcast.mpr hbj, Equiv.swap_apply_right]
  · rw [if_neg hbj, Equiv.swap_apply_of_ne_of_ne (by omega) (mt hcast.mp hbj)]

theorem ofNat_index (j : ℕ) (k b : UInt8) :
    UInt8.ofNat ((j + k.toNat + b.toNat) % 256) = UInt8.ofNat j + k + b := by
  apply UInt8.toNat_inj.mp
  simp [UInt8.toNat_add]

/-- The rounds below 256 are those of RC4, and leave what lies behind the table alone. -/
theorem foldl_scheduleStep (key : List UInt8) {is : List ℕ} (his : ∀ i ∈ is, i < 256) {m : Memory}
    {j : ℕ} {S : SBox} {J : UInt8} (hm : table m = S) (hj : UInt8.ofNat j = J) :
    table (is.foldl (scheduleStep key) (m, j)).1 = (is.foldl (RC4.scheduleStep key) (S, J)).1 ∧
      UInt8.ofNat (is.foldl (scheduleStep key) (m, j)).2 =
        (is.foldl (RC4.scheduleStep key) (S, J)).2 ∧
      ∀ a, 256 ≤ a → (is.foldl (scheduleStep key) (m, j)).1 a = m a := by
  induction is generalizing m j S J with
  | nil => exact ⟨hm, hj, fun _ _ => rfl⟩
  | cons i is ih =>
    have hi := his i List.mem_cons_self
    have hlt : (j + (key.getD (i % key.length) 0).toNat + (m i).toNat) % 256 < 256 :=
      Nat.mod_lt _ (by norm_num)
    have hentry : table m (UInt8.ofNat i) = m i := by
      rw [table, UInt8.toNat_ofNat', Nat.mod_eq_of_lt hi]
    have hindex : UInt8.ofNat ((j + (key.getD (i % key.length) 0).toNat + (m i).toNat) % 256) =
        J + RC4.keyByte key i + S (UInt8.ofNat i) := by
      rw [← hm, hentry, ← hj, RC4.keyByte, ofNat_index]
    have htable := table_comp_swap m hi hlt
    rw [hm, hindex] at htable
    obtain ⟨h₁, h₂, h₃⟩ := ih (fun k hk => his k (List.mem_cons_of_mem _ hk)) htable hindex
    refine ⟨h₁, h₂, ?_⟩
    intro a ha
    rw [List.foldl_cons]
    refine (h₃ a ha).trans ?_
    rw [Function.comp_apply, Equiv.swap_apply_of_ne_of_ne (by omega) (by omega)]

/-- A round from 256 on overwrites the entry at its index with the byte behind the table. -/
theorem scheduleStep_behind (key : List UInt8) (m : Memory) (j : ℕ) {i : ℕ} (hi : 256 ≤ i) :
    table (scheduleStep key (m, j) i).1 =
        Function.update (table m) (UInt8.ofNat j + RC4.keyByte key i + m i) (m i) ∧
      UInt8.ofNat (scheduleStep key (m, j) i).2 = UInt8.ofNat j + RC4.keyByte key i + m i ∧
      (scheduleStep key (m, j) i).1 i = table m (UInt8.ofNat j + RC4.keyByte key i + m i) ∧
      ∀ a, 256 ≤ a → a ≠ i → (scheduleStep key (m, j) i).1 a = m a := by
  have hlt : (j + (key.getD (i % key.length) 0).toNat + (m i).toNat) % 256 < 256 :=
    Nat.mod_lt _ (by norm_num)
  have hindex := ofNat_index j (key.getD (i % key.length) 0) (m i)
  have htable := table_comp_swap_behind m hi hlt
  rw [hindex] at htable
  refine ⟨htable, hindex, ?_, ?_⟩
  · show m (Equiv.swap i _ i) = _
    rw [Equiv.swap_apply_left, RC4.keyByte, ← hindex, table, UInt8.toNat_ofNat', Nat.mod_eq_of_lt hlt]
  · intro a ha hne
    show m (Equiv.swap i _ a) = _
    rw [Equiv.swap_apply_of_ne_of_ne hne (by omega)]

/-- The index that round 256 ends with, when `sbox_free` was `u`. -/
def overrunIndex (key : List UInt8) (u : UInt8) : UInt8 :=
  (RC4.schedule key).2 + RC4.keyByte key 256 + u

/-- The table of RC4 after four more rounds: over `sbox_free`, and three bytes behind the object. -/
def overrun (key : List UInt8) (u : UInt8) (behind : Memory) : SBox :=
  let j₀ := overrunIndex key u
  let j₁ := j₀ + RC4.keyByte key 257 + behind 0
  let j₂ := j₁ + RC4.keyByte key 258 + behind 1
  let j₃ := j₂ + RC4.keyByte key 259 + behind 2
  Function.update (Function.update (Function.update (Function.update (RC4.schedule key).1
    j₀ u) j₁ (behind 0)) j₂ (behind 1)) j₃ (behind 2)

/-- The table that the schedule leaves, and the first byte behind the object. -/
theorem schedule_overrun (key : List UInt8) (m : Memory) :
    table (schedule key (fill m)).1 = overrun key (m 256) (fun a => m (a + 257)) ∧
      (schedule key (fill m)).1 257 =
        Function.update (RC4.schedule key).1 (overrunIndex key (m 256)) (m 256)
          (overrunIndex key (m 256) + RC4.keyByte key 257 + m 257) := by
  have hfill : table (fill m) = id := by
    funext b
    rw [table, fill, if_pos b.toNat_lt, UInt8.ofNat_toNat]
    rfl
  have hbehind : ∀ a, 256 ≤ a → fill m a = m a := fun a ha => if_neg (by omega)
  have hrange : List.range 260 = List.range 256 ++ [256, 257, 258, 259] := by
    rw [show (260 : ℕ) = 256 + 4 from rfl, List.range_add]
    rfl
  have hbelow : ∀ i ∈ List.range 256, i < 256 := fun i hi => List.mem_range.mp hi
  obtain ⟨htable, hindex, htail⟩ := foldl_scheduleStep (j := 0) key hbelow hfill rfl
  rw [schedule, hrange, List.foldl_append]
  generalize (List.range 256).foldl (scheduleStep key) (fill m, 0) = s at htable hindex htail
  obtain ⟨early, j⟩ := s
  have hearly : ∀ a, 256 ≤ a → early a = m a := fun a ha => (htail a ha).trans (hbehind a ha)
  simp only [List.foldl_cons, List.foldl_nil]
  obtain ⟨t₀, i₀, -, e₀⟩ := scheduleStep_behind key early j (i := 256) le_rfl
  generalize scheduleStep key (early, j) 256 = s₀ at t₀ i₀ e₀ ⊢
  obtain ⟨w₀, j₀⟩ := s₀
  obtain ⟨t₁, i₁, b₁, e₁⟩ := scheduleStep_behind key w₀ j₀ (i := 257) (by norm_num)
  generalize scheduleStep key (w₀, j₀) 257 = s₁ at t₁ i₁ b₁ e₁ ⊢
  obtain ⟨w₁, j₁⟩ := s₁
  obtain ⟨t₂, i₂, -, e₂⟩ := scheduleStep_behind key w₁ j₁ (i := 258) (by norm_num)
  generalize scheduleStep key (w₁, j₁) 258 = s₂ at t₂ i₂ e₂ ⊢
  obtain ⟨w₂, j₂⟩ := s₂
  obtain ⟨t₃, -, -, e₃⟩ := scheduleStep_behind key w₂ j₂ (i := 259) (by norm_num)
  have h₀ : early 256 = m 256 := hearly 256 le_rfl
  have h₁ : w₀ 257 = m 257 := (e₀ 257 (by norm_num) (by norm_num)).trans (hearly 257 (by norm_num))
  have h₂ : w₁ 258 = m 258 := ((e₁ 258 (by norm_num) (by norm_num)).trans
    (e₀ 258 (by norm_num) (by norm_num))).trans (hearly 258 (by norm_num))
  have h₃ : w₂ 259 = m 259 := (((e₂ 259 (by norm_num) (by norm_num)).trans
    (e₁ 259 (by norm_num) (by norm_num))).trans (e₀ 259 (by norm_num) (by norm_num))).trans
    (hearly 259 (by norm_num))
  simp only at t₀ i₀ t₁ i₁ b₁ t₂ i₂ e₂ e₃ hindex htable
  rw [htable, hindex, h₀] at t₀
  rw [hindex, h₀] at i₀
  rw [t₀, i₀, h₁] at t₁ b₁
  rw [i₀, h₁] at i₁
  rw [t₁, i₁, h₂] at t₂
  rw [i₁, h₂] at i₂
  rw [t₂, i₂, h₃] at t₃
  constructor
  · exact t₃
  · rw [e₃ 257 (by norm_num) (by norm_num), e₂ 257 (by norm_num) (by norm_num)]
    exact b₁

end H1Z1Server.CRC4
