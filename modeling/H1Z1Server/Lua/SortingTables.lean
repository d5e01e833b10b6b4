import H1Z1Server.Lua.Ordering

/-! What `table.sort` does to tables. -/
namespace H1Z1Server.LuaSort
open LuaApi (Value LuaNumber)
open LuaTable Outcome Segments

section Tables
variable {N W : Type} [LuaNumber N] [LuaMemory N] [LawfulLuaMemory N] {t : Table N} {n : ℤ} {w : W}
  {sort_comp : Value N → Value N → EStateM Halt (Table N × W) Bool} {f : Value N → Value N}

/-- The keys that a sort of `n` elements may assign to. -/
def IsCell (n : ℤ) (key : Value N) : Prop := 1 ≤ arrayindex key ∧ arrayindex key ≤ n + 1

/-- The indices have these values, and all other keys have those of `f`. -/
structure Cells (f : Value N → Value N) (n : ℤ) (a : ℤ → Value N) (s : Table N × W) : Prop where
  sound : s.1.Sound
  cell : ∀ k, 0 ≤ k → k ≤ n + 1 → s.1.lookup (.number (LuaNumber.ofInt k)) = a k
  others : ∀ key, ¬IsCell n key → s.1.lookup key = f key

/-- There is room for all keys that have a value and those of the cells. -/
def Room (f : Value N → Value N) (n : ℤ) : Prop :=
  ∃ ks : List (Value N), ks.length < 2 ^ MAXBITS ∧
    ∀ key, f key ≠ .nil ∨ IsCell n key → ∃ k ∈ ks, key.rawequal k = true

theorem lua_rawgeti_eq (t : Table N) {k : ℤ} (hlo : 0 ≤ k) (hlt : k < 2 ^ 31) :
    lua_rawgeti t k = t.lookup (.number (LuaNumber.ofInt k)) := by
  rw [Table.lookup, Table.luaH_get_number t (by omega) hlt]
  rfl

theorem rawequal_index {i k : ℤ} (hi : 0 < i) (hi' : i < 2 ^ 31) (hk : 0 ≤ k) (hk' : k < 2 ^ 31) :
    (Value.number (LuaNumber.ofInt i) : Value N).rawequal (.number (LuaNumber.ofInt k)) = true ↔ k = i := by
  have hindex : arrayindex (.number (LuaNumber.ofInt i) : Value N) = i := arrayindex_number (by omega) hi'
  have hindex' : arrayindex (.number (LuaNumber.ofInt k) : Value N) = k := arrayindex_number (by omega) hk'
  rw [rawequal_iff_arrayindex (by omega), hindex, hindex']

theorem lua_rawseti_spec (h : t.Sound) (hcount : t.entries.length < 2 ^ MAXBITS) {i : ℤ} (hi : 0 < i) (hi' : i < 2 ^ 31)
    (v : Value N) : ∃ t', lua_rawseti t i v = .ok t' ∧ t'.Sound ∧ ∀ key, t'.lookup key =
      if (Value.number (LuaNumber.ofInt i)).rawequal key then v else t.lookup key := by
  obtain ⟨t', p, hrun, hsets, -⟩ := h.luaH_set_spec (Table.valid_number hi hi') hcount v
  refine ⟨t'.write p v, ?_, hsets.sound, hsets.lookup⟩
  unfold lua_rawseti Table.luaH_setnum
  rw [Table.setnumWith_eq _ _ (by omega) hi']
  unfold Table.luaH_set at hrun
  rw [hrun]
  rfl

theorem room_of_length {n : ℕ} (h : t.Sound) (hn : n + 1 < 2 ^ 31) (hcount : t.entries.length + (n + 1) < 2 ^ MAXBITS) :
    Room t.lookup n := by
  refine ⟨t.keys ++ (List.range (n + 1)).map fun i => .number (LuaNumber.ofInt (i + 1 : ℕ)), ?_, ?_⟩
  · simpa [Table.keys] using hcount
  rintro key (hx | ⟨hpos, hle⟩)
  · obtain ⟨k, hk, hkey⟩ := h.mem_keys hx
    exact ⟨k, List.mem_append_left _ hk, hkey⟩
  · have hindex := Value.rawequal_symm _ _ (rawequal_of_arrayindex (v := key) (by omega))
    refine ⟨_, List.mem_append_right _ (List.mem_map.mpr ⟨(arrayindex key).toNat - 1, ?_, rfl⟩), ?_⟩
    · simp only [List.mem_range]
      omega
    · rwa [show (((arrayindex key).toNat - 1 + 1 : ℕ) : ℤ) = arrayindex key by omega]

/-- The room is enough whatever values the cells have. -/
theorem Cells.length_entries_lt {a : ℤ → Value N} {s : Table N × W} (h : Cells f n a s) (hroom : Room f n) :
    s.1.entries.length < 2 ^ MAXBITS := by
  obtain ⟨ks, hlength, hks⟩ := hroom
  apply (h.sound.length_entries_le ks _).trans_lt hlength
  intro key hx
  apply hks
  by_cases hcell : IsCell n key
  · exact .inr hcell
  · rw [h.others key hcell] at hx
    exact .inl hx

/-- The cells of a table can be read and written. -/
theorem tableGround_represents (hn : n + 1 < 2 ^ 31) (hroom : Room f n) :
    (tableGround sort_comp).Represents (Cells f n) 1 (n + 1) where
  rawgeti a s i hR hl hi := by
    have hcell := hR.cell i (by omega) hi
    exact ⟨by rw [← hcell, ← lua_rawgeti_eq _ (by omega) (by omega)], hR⟩
  rawseti a s i v hR hl hi := by
    obtain ⟨t', hrun, hsound, hlookup⟩ :=
      lua_rawseti_spec hR.sound (hR.length_entries_lt hroom) (by omega) (by omega : i < 2 ^ 31) v
    have hends : ((tableGround sort_comp).rawseti i v).run s = .ok () (t', s.2) := by
      unfold tableGround
      dsimp only
      rw [EStateM.run_bind, EStateM.run_get]
      dsimp only
      rw [hrun]
      rfl
    rw [hends]
    refine ⟨hsound, ?_, ?_⟩
    · intro k hk hkn
      rw [hlookup]
      by_cases heq : k = i
      · rw [if_pos ((rawequal_index (by omega) (by omega) hk (by omega)).mpr heq), heq, Function.update_self]
      · rw [if_neg fun hsame => heq ((rawequal_index (by omega) (by omega) hk (by omega)).mp hsame),
          Function.update_of_ne heq]
        exact hR.cell k hk hkn
    · intro key hkey
      rw [hlookup, if_neg, hR.others key hkey]
      intro hsame
      have hindex : arrayindex (.number (LuaNumber.ofInt i) : Value N) = i := arrayindex_number (by omega) (by omega)
      apply hkey
      rw [IsCell, ← arrayindex_congr hsame, hindex]
      exact ⟨hl, hi⟩

/-- The values of the indices from 1 to `m` have changed places, and all else is as it was. -/
structure Rearranged (m : ℤ) (t t' : Table N) : Prop where
  sound : t'.Sound
  permuted : ∃ σ : Equiv.Perm ℤ, (∀ k, k < 1 ∨ m < k → σ k = k) ∧
    ∀ k, 1 ≤ k → k ≤ m → lua_rawgeti t' k = lua_rawgeti t (σ k)
  others : ∀ key, ¬(1 ≤ arrayindex key ∧ arrayindex key ≤ m) → t'.lookup key = t.lookup key

omit [LawfulLuaMemory N] in
theorem Cells.start (h : t.Sound) : Cells t.lookup n (fun k => t.lookup (.number (LuaNumber.ofInt k))) (t, w) :=
  ⟨h, fun _ _ _ => rfl, fun _ _ => rfl⟩

omit [LawfulLuaMemory N] in
theorem Cells.congr {a : ℤ → Value N} {s s' : Table N × W} (h : Cells f n a s) (hs : s'.1 = s.1) :
    Cells f n a s' := ⟨hs ▸ h.sound, hs ▸ h.cell, hs ▸ h.others⟩

theorem Cells.rearranged {m : ℤ} {s : Table N × W} (hn : n + 1 < 2 ^ 31) (hm : m ≤ n + 1)
    (hs : Permuted (Cells t.lookup n) 1 m (fun k => t.lookup (.number (LuaNumber.ofInt k))) s) :
    Rearranged m t s.1 := by
  obtain ⟨b, hb, hcells⟩ := hs
  refine ⟨hcells.sound, ?_, ?_⟩
  · obtain ⟨σ, hσ, rfl⟩ := hb
    refine ⟨σ, hσ, ?_⟩
    intro k hk hkm
    obtain ⟨hlo, hhi⟩ := image_mem hσ hk hkm
    rw [lua_rawgeti_eq _ (by omega) (by omega), lua_rawgeti_eq _ (by omega) (by omega)]
    exact hcells.cell k (by omega) (by omega)
  · intro key hkey
    by_cases hcell : IsCell n key
    · obtain ⟨hpos, hle⟩ := hcell
      -- a key is found where the number of its index is
      have hget : ∀ t : Table N, t.lookup key = t.lookup (.number (LuaNumber.ofInt (arrayindex key))) := fun t => by
        rw [Table.lookup, Table.lookup, Table.luaH_get_congr (rawequal_of_arrayindex (v := key) (by omega))]
      rw [hget, hget, hcells.cell _ (by omega) hle, hb.outside (by omega)]
    · exact hcells.others key hcell

/-- Whatever the order function answers, and also when it fails: if it does not assign to the table, `sort` gives
the indices up to one behind the last their values in another order, and changes nothing else. -/
theorem sort_rearranges (h : t.Sound) (hlength : t.luaH_getn + 1 < 2 ^ 31) (hroom : Room t.lookup t.luaH_getn)
    (hcomp : ∀ s x y, Ends ((sort_comp x y).run s) (fun _ s' => s'.1 = s.1) fun _ s' => s'.1 = s.1)
    (fuel depth : ℕ) : Ends ((sort sort_comp fuel depth).run (t, w))
      (fun _ s' => Rearranged (t.luaH_getn + 1) t s'.1) fun _ s' => Rearranged (t.luaH_getn + 1) t s'.1 := by
  have hn : (t.luaH_getn : ℤ) + 1 < 2 ^ 31 := by exact_mod_cast hlength
  have hquiet : (tableGround sort_comp).Quiet (Cells t.lookup t.luaH_getn) := by
    intro a s x y hR
    exact (hcomp s x y).mono (fun _ _ => hR.congr) fun _ _ => hR.congr
  have hends := (tableGround_represents hn hroom).auxsort_quiet hquiet fuel depth (u := t.luaH_getn)
    (Cells.start (w := w) h) le_rfl le_rfl
  exact hends.mono (fun _ _ => Cells.rearranged hn le_rfl) fun _ _ => Cells.rearranged hn le_rfl

omit [LawfulLuaMemory N] in
/-- Calls of `auxsort` are nested no deeper than the logarithm of the length, whatever the order function does. -/
theorem sort_depth {depth depth' : ℕ} (hdepth : t.luaH_getn < 2 ^ (depth + 1)) (hle : depth ≤ depth') (fuel : ℕ) :
    (sort sort_comp fuel depth').run (t, w) = (sort sort_comp fuel depth).run (t, w) := by
  have hnested : (t.luaH_getn : ℤ) < 2 ^ (depth + 1) := by exact_mod_cast hdepth
  exact (tableGround sort_comp).auxsort_depth 1 t.luaH_getn (t, w) fuel (by omega) hle

/-- With an order of the values, `sort` comes to its end and leaves them sorted. -/
theorem sort_sorts {D : Value N → Prop} {r : Value N → Value N → Bool} (h : t.Sound) (hlength : t.luaH_getn < 2 ^ 30)
    (hroom : Room t.lookup t.luaH_getn) (hr : WeakOrder D r)
    (hD : ∀ k : ℤ, 1 ≤ k → k ≤ t.luaH_getn → D (lua_rawgeti t k))
    (hcomp : ∀ s x y, D x → D y → Ends ((sort_comp x y).run s) (fun b s' => b = r x y ∧ s'.1 = s.1) fun _ _ => False)
    {fuel depth : ℕ} (hfuel : t.luaH_getn < fuel) (hdepth : t.luaH_getn < 2 ^ (depth + 1)) :
    Ends ((sort sort_comp fuel depth).run (t, w)) (fun _ s' => Rearranged t.luaH_getn t s'.1 ∧
      Sorted r 1 t.luaH_getn (lua_rawgeti s'.1)) fun _ _ => False := by
  have hn : (t.luaH_getn : ℤ) < 2 ^ 30 := by exact_mod_cast hlength
  have hnested : (t.luaH_getn : ℤ) < 2 ^ (depth + 1) := by exact_mod_cast hdepth
  have hfollows : (tableGround sort_comp).Follows (Cells t.lookup t.luaH_getn) D r := by
    intro a s x y hR hx hy
    exact (hcomp s x y hx hy).mono_ok fun b s' hb => ⟨hb.1, hR.congr hb.2⟩
  have hknown : ∀ k : ℤ, 1 ≤ k → k ≤ t.luaH_getn → D (t.lookup (.number (LuaNumber.ofInt k))) := by
    intro k hk hkn
    rw [← lua_rawgeti_eq t (by omega) (by omega)]
    exact hD k hk hkn
  have hends := (tableGround_represents (by omega) hroom).auxsort_spec hfollows hr (l := 1) (u := t.luaH_getn)
    (show (t.luaH_getn : ℤ) - 1 < fuel by omega) (by omega) (show (t.luaH_getn : ℤ) - 1 + 1 < 2 ^ (depth + 1) by omega)
    (Cells.start (w := w) h) le_rfl (by omega) hn hknown
  apply hends.mono_ok
  rintro _ s' ⟨b, hb, hcells, hsorted⟩
  refine ⟨Cells.rearranged (by omega) (by omega) ⟨b, hb, hcells⟩, hsorted.congr ?_⟩
  intro k hk hkn
  rw [lua_rawgeti_eq _ (by omega) (by omega)]
  exact hcells.cell k (by omega) (by omega)

end Tables

/-! Five elements, the fewest but one that are parted around a pivot. -/

def five : Table ℤ := ⟨[.number 5, .number 3, .number 1, .number 4, .number 2], [emptyNode], 0, true, 0⟩

theorem five_sound : five.Sound := by
  have hfits : Table.Fits (fun _ : Value ℤ => .nil) [.setnum 1 (.number 5), .setnum 2 (.number 3),
      .setnum 3 (.number 1), .setnum 4 (.number 4), .setnum 5 (.number 2)] := by
    apply Table.fits_of_length []
    · simp [Table.Operation.Admissible]
    · decide
  have hreach : five.Reachable :=
    ⟨5, 0, by decide, Nat.zero_le _, _, rfl, _, hfits, rfl⟩
  exact hreach.sound

theorem five_room : Room five.lookup five.luaH_getn := room_of_length five_sound (by decide) (by decide)

/-- An order function that always says yes. -/
theorem sort_rearranges_example :
    Ends ((sort (W := Unit) (fun _ _ => pure true) 6 2).run (five, ())) (fun _ s' => Rearranged 6 five s'.1)
      fun _ s' => Rearranged 6 five s'.1 :=
  sort_rearranges five_sound (by decide) five_room (fun _ _ _ => ends_pure rfl) 6 2

def IsNumber (v : Value ℤ) : Prop := ∃ n, v = .number n

def numless : Value ℤ → Value ℤ → Bool
  | .number a, .number b => a < b
  | _, _ => false

theorem sort_depth_example : (sort (W := Unit) (fun x y => pure (numless x y)) 6 39).run (five, ()) =
    (sort (W := Unit) (fun x y => pure (numless x y)) 6 2).run (five, ()) :=
  sort_depth (by decide) (by decide) 6

theorem weakOrder_numless : WeakOrder IsNumber numless where
  asymm := by
    rintro _ _ ⟨a, rfl⟩ ⟨b, rfl⟩ hab
    simp only [numless, decide_eq_true_eq, decide_eq_false_iff_not] at hab ⊢
    omega
  trans := by
    rintro _ _ _ ⟨a, rfl⟩ ⟨b, rfl⟩ ⟨c, rfl⟩ hab hbc
    simp only [numless, decide_eq_false_iff_not] at hab hbc ⊢
    omega

theorem sort_sorts_example : Ends ((sort (W := Unit) (fun x y => pure (numless x y)) 6 2).run (five, ()))
    (fun _ s' => Rearranged 5 five s'.1 ∧ Sorted numless 1 5 (lua_rawgeti s'.1)) fun _ _ => False := by
  apply sort_sorts five_sound (by decide) five_room weakOrder_numless _ (fun _ _ _ _ _ => ends_pure ⟨rfl, rfl⟩)
    (by decide) (by decide)
  intro k hk hk5
  have hk5 : k ≤ 5 := hk5
  interval_cases k
  · exact ⟨5, rfl⟩
  · exact ⟨3, rfl⟩
  · exact ⟨1, rfl⟩
  · exact ⟨4, rfl⟩
  · exact ⟨2, rfl⟩

end H1Z1Server.LuaSort
