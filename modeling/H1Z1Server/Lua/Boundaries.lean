import H1Z1Server.Lua.Traversing

/-! The lengths of tables: what `luaH_getn` returns is a boundary, and what the faithful tables are to the
functions of the API. -/
namespace H1Z1Server.LuaTable
open LuaApi

namespace Table

section Searches
variable {present : ℕ → Bool}

/-- Something is there, if it is not the start, and nothing behind it. -/
def Border (present : ℕ → Bool) (n : ℕ) : Prop := (n = 0 ∨ present n = true) ∧ present (n + 1) = false

theorem binarySearch_spec (fuel i j : ℕ) (hfuel : j - i ≤ fuel + 1) (hlt : i < j)
    (hi : i = 0 ∨ present i = true) (hj : present j = false) :
    Border present (binarySearch present fuel i j) ∧ binarySearch present fuel i j < j := by
  have hstop : j - i ≤ 1 → Border present i ∧ i < j := by
    intro hle
    have hnext : j = i + 1 := by omega
    exact ⟨⟨hi, hnext ▸ hj⟩, hlt⟩
  induction fuel generalizing i j with
  | zero => exact hstop hfuel
  | succ fuel ih =>
    rw [binarySearch]
    split
    case isFalse hle => exact hstop (not_lt.mp hle)
    case isTrue hmore =>
      dsimp only
      split
      case isTrue hm =>
        exact ih ((i + j) / 2) j (by omega) (by omega) (.inr hm) hj fun hle =>
          ⟨⟨.inr hm, (show j = (i + j) / 2 + 1 by omega) ▸ hj⟩, by omega⟩
      case isFalse hm =>
        have hm : present ((i + j) / 2) = false := Bool.eq_false_iff.mpr hm
        obtain ⟨hborder, hle⟩ := ih i ((i + j) / 2) (by omega) (by omega) hi hm fun hle =>
          ⟨⟨hi, (show (i + j) / 2 = i + 1 by omega) ▸ hm⟩, by omega⟩
        exact ⟨hborder, by omega⟩

/-- The linear search stops before it has passed more places than there are things. -/
theorem linearSearch_spec (most fuel i : ℕ) (hpos : 1 ≤ i) (hbefore : ∀ k, 1 ≤ k → k < i → present k = true)
    (hmost : ∀ n, (∀ k, 1 ≤ k → k ≤ n → present k = true) → n ≤ most) (hfuel : most + 1 < fuel + i) :
    Border present (linearSearch present fuel i) ∧ linearSearch present fuel i ≤ most := by
  induction fuel generalizing i with
  | zero =>
    have hle := hmost (i - 1) fun k hk hki => hbefore k hk (by omega)
    omega
  | succ fuel ih =>
    rw [linearSearch]
    split
    case isTrue hi =>
      apply ih (i + 1) (by omega) _ (by omega)
      intro k hk hki
      rcases Nat.lt_succ_iff_lt_or_eq.mp hki with hki | rfl
      · exact hbefore k hk hki
      · exact hi
    case isFalse hi =>
      refine ⟨⟨?_, ?_⟩, hmost (i - 1) fun k hk hki => hbefore k hk (by omega)⟩
      · rcases Nat.eq_or_lt_of_le hpos with rfl | hlt
        · exact .inl rfl
        · exact .inr (hbefore (i - 1) (by omega) (by omega))
      · rw [Nat.sub_add_cancel hpos]
        exact Bool.eq_false_iff.mpr hi

end Searches

variable {N : Type} [LuaNumber N] [LuaMemory N] [LawfulLuaMemory N] {t : Table N}

theorem present_eq (t : Table N) {j : ℕ} (hj : j < 2 ^ 31) :
    t.present j = !ttisnil (t.lookup (.number (LuaNumber.ofInt j))) := by
  rw [lookup, luaH_get_number t (by omega) (by exact_mod_cast hj)]
  rfl

omit [LawfulLuaMemory N] in
theorem Sound.length_le (h : t.Sound) : t.sizearray + t.sizenode ≤ 2 ^ 27 := by
  have hfits : t.sizearray ≤ 2 ^ 26 := h.fits
  have hsmall : t.sizenode ≤ 2 ^ 26 := Nat.pow_le_pow_right two_pos h.small
  omega

/-- There are no more indices in a row than places. -/
theorem Sound.length_row (h : t.Sound) {n : ℕ} (hrow : ∀ k, 1 ≤ k → k ≤ n → t.present k = true) :
    n ≤ t.sizearray + t.sizenode := by
  have hmany := h.length_le
  by_contra hmore
  have hindex : ∀ k ∈ List.range' 1 (t.sizearray + t.sizenode + 1), 1 ≤ k ∧ k ≤ n ∧ k < 2 ^ 31 ∧
      arrayindex (.number (LuaNumber.ofInt k) : Value N) = k := by
    intro k hk
    rw [List.mem_range'_1] at hk
    exact ⟨hk.1, by omega, by omega, arrayindex_number (by omega) (by omega)⟩
  have hplaces : t.entries.length ≤ t.sizearray + t.sizenode := by
    rw [entries_eq, entriesFrom, List.length_map, ← h.length]
    exact (List.length_filter_le _ _).trans List.length_range'.le
  have hkeys : ((List.range' 1 (t.sizearray + t.sizenode + 1)).map fun k : ℕ =>
      (Value.number (LuaNumber.ofInt k) : Value N)).length ≤ t.keys.length := by
    apply length_le_of_related fun k l : Value N => k.rawequal l = true
    · exact fun a b c hac hbc => Value.rawequal_trans a c b hac (Value.rawequal_symm b c hbc)
    · have hnodup : (List.range' 1 (t.sizearray + t.sizenode + 1)).Nodup := List.nodup_range'
      rw [List.pairwise_map]
      refine hnodup.imp_of_mem ?_
      intro k l hk hl hne hsame
      have hsame := arrayindex_congr hsame
      rw [(hindex k hk).2.2.2, (hindex l hl).2.2.2] at hsame
      exact hne (by exact_mod_cast hsame)
    · intro v hv
      obtain ⟨k, hk, rfl⟩ := List.mem_map.mp hv
      obtain ⟨hpos, hle, hlt, -⟩ := hindex k hk
      have hpresent := hrow k hpos hle
      rw [present_eq t hlt, Bool.not_eq_true', ttisnil_eq_false] at hpresent
      exact h.mem_keys hpresent
  rw [List.length_map, List.length_range', keys, List.length_map] at hkeys
  omega

omit [LawfulLuaMemory N] in
/-- An array whose last place is empty has a boundary in it. -/
theorem getn_of_array (hpos : 0 < t.sizearray)
    (hnil : t.array.getD (t.sizearray - 1) .nil = .nil) :
    Border (fun m => !ttisnil (t.array.getD (m - 1) .nil)) t.luaH_getn ∧ t.luaH_getn < t.sizearray := by
  unfold luaH_getn
  dsimp only
  rw [if_pos (by rw [ttisnil_iff.mpr hnil, decide_eq_true hpos]; rfl)]
  apply binarySearch_spec _ _ _ (by omega) hpos (.inl rfl)
  rw [hnil]
  rfl

/-- `unbound_search` finds a boundary, by doubling or by going through all indices. -/
theorem Sound.doubling_spec (h : t.Sound) (fuel i j : ℕ) (hi : i = 0 ∨ t.present i = true) (hij : i < j)
    (hj : j ≤ MAX_INT) (hfuel : MAX_INT < j * 2 ^ fuel) :
    Border t.present (t.doubling fuel i j) ∧ t.doubling fuel i j < MAX_INT := by
  induction fuel generalizing i j with
  | zero => omega
  | succ fuel ih =>
    rw [doubling]
    split
    case isFalse hnone =>
      obtain ⟨hborder, hlt⟩ := binarySearch_spec j i j (by omega) hij hi (Bool.eq_false_iff.mpr hnone)
      exact ⟨hborder, by omega⟩
    case isTrue hsome =>
      split
      case isTrue =>
        obtain ⟨hborder, hle⟩ := linearSearch_spec (t.sizearray + t.sizenode) (t.sizearray + t.sizenode + 1) 1 le_rfl
          (fun k hk hk' => absurd hk' (by omega)) (fun n hrow => h.length_row hrow) (by omega)
        have hmany := h.length_le
        have hmax : 2 ^ 27 < MAX_INT := by decide
        exact ⟨hborder, by omega⟩
      case isFalse hmore =>
        apply ih j (j * 2) (.inr hsome) (by omega) (not_lt.mp hmore)
        rw [Nat.mul_assoc, ← Nat.pow_succ']
        exact hfuel

/-- The length of a table is a boundary: something is at that index, unless it is zero, and nothing is at the
next one. -/
theorem luaH_getn_border (h : t.Reachable) :
    (t.luaH_getn = 0 ∨ t.lookup (.number (LuaNumber.ofInt t.luaH_getn)) ≠ .nil) ∧
      t.lookup (.number (LuaNumber.ofInt (t.luaH_getn + 1 : ℕ))) = .nil := by
  have hsound := h.sound
  have hmany := hsound.length_le
  have hmax : 2 ^ 27 < MAX_INT := by decide
  have hmax' : MAX_INT < 2 ^ 31 - 1 := by decide
  have hin : ∀ m, 1 ≤ m → m ≤ t.sizearray → t.lookup (.number (LuaNumber.ofInt m)) = t.array.getD (m - 1) .nil := by
    intro m hpos hle
    have hindex := hsound.arrayindex_entry hpos hle
    rw [lookup_of_inArray ⟨by omega, by omega⟩, hindex]
    congr 1
    omega
  by_cases harray : 0 < t.sizearray ∧ t.array.getD (t.sizearray - 1) .nil = .nil
  · obtain ⟨⟨hsome, hnone⟩, hlt⟩ := getn_of_array harray.1 harray.2
    rw [hin _ (Nat.succ_pos _) hlt]
    dsimp only at hsome hnone
    rw [Bool.not_eq_true', ttisnil_eq_false] at hsome
    rw [Bool.not_eq_false', ttisnil_iff] at hnone
    refine ⟨?_, hnone⟩
    rcases Nat.eq_zero_or_pos t.luaH_getn with hzero | hpos
    · exact .inl hzero
    · rw [hin _ hpos hlt.le]
      exact hsome
  · have hlast : t.sizearray = 0 ∨ t.present t.sizearray = true := by
      rcases Nat.eq_zero_or_pos t.sizearray with hzero | hpos
      · exact .inl hzero
      · rw [present_eq t (by omega), hin _ hpos le_rfl, Bool.not_eq_true', ttisnil_eq_false]
        exact .inr fun hnil => harray ⟨hpos, hnil⟩
    have hborder : Border t.present t.luaH_getn ∧ t.luaH_getn < MAX_INT := by
      have hbranch : (decide (0 < t.sizearray) && ttisnil (t.array.getD (t.sizearray - 1) .nil)) = false := by
        rw [Bool.eq_false_iff]
        intro htrue
        rw [Bool.and_eq_true, decide_eq_true_iff, ttisnil_iff] at htrue
        exact harray htrue
      unfold luaH_getn
      dsimp only
      rw [if_neg (Bool.eq_false_iff.mp hbranch)]
      split
      case isTrue hdummy =>
        refine ⟨⟨hlast, ?_⟩, by omega⟩
        rw [present_eq t (by omega), Bool.not_eq_false', ttisnil_iff]
        by_contra hx
        have hout : ¬t.InArray (.number (LuaNumber.ofInt (t.sizearray + 1 : ℕ))) := by
          have hindex : arrayindex (.number (LuaNumber.ofInt (t.sizearray + 1 : ℕ)) : Value N) =
              (t.sizearray + 1 : ℕ) := arrayindex_number (by omega) (by omega)
          unfold InArray
          omega
        have hkey : (Value.number (LuaNumber.ofInt (t.sizearray + 1 : ℕ)) : Value N) ≠ .nil := nofun
        obtain ⟨v, -, i, hv, hval⟩ := (hsound.lookup_eq_iff hkey hout hx).mp rfl
        have hnode := (hsound.dummy hdummy).1
        have hempty : (t.gnode i).val = .nil := by
          unfold gnode
          rw [hnode]
          cases i <;> rfl
        exact hx (hval.symm.trans hempty)
      case isFalse =>
        apply hsound.doubling_spec 33 t.sizearray (t.sizearray + 1) hlast (Nat.lt_succ_self _) (by omega)
        calc MAX_INT < 2 ^ 33 := by decide
          _ ≤ (t.sizearray + 1) * 2 ^ 33 := Nat.le_mul_of_pos_left _ (Nat.succ_pos _)
    obtain ⟨⟨hsome, hnone⟩, hlt⟩ := hborder
    rw [present_eq t (by omega), Bool.not_eq_true', ttisnil_eq_false] at hsome
    rw [present_eq t (by omega), Bool.not_eq_false', ttisnil_iff] at hnone
    exact ⟨hsome, hnone⟩

/-- The search in the array, the doubling one in the nodes, and the linear one that a table with a key at
every power of two ends in. -/
theorem luaH_getn_border_example : (∃ t : Table ℤ, t.Reachable ∧ t.sizearray = 4 ∧ t.luaH_getn = 3 ∧
      t.lookup (.number 3) ≠ .nil ∧ t.lookup (.number 4) = .nil) ∧
    (∃ t : Table ℤ, t.Reachable ∧ t.sizearray = 0 ∧ t.luaH_getn = 3 ∧
      t.lookup (.number 3) ≠ .nil ∧ t.lookup (.number 4) = .nil) ∧
    ∃ t : Table ℤ, t.Reachable ∧ t.present (2 ^ 30) = true ∧ t.luaH_getn = 2 ∧
      t.lookup (.number 2) ≠ .nil ∧ t.lookup (.number 3) = .nil := by
  have hset : ∀ n v : ℤ, (Operation.set (.number n) (.number v)).Admissible := by
    intro n v
    exact ⟨nofun, decide_eq_true rfl⟩
  have hthree : ∀ op ∈ [Operation.set (.number (1 : ℤ)) (.number 10), .set (.number 2) (.number 20),
      .set (.number 3) (.number 30)], op.Admissible := by
    simp only [List.forall_mem_cons]
    exact ⟨hset _ _, hset _ _, hset _ _, nofun⟩
  have hpowers : ∀ op ∈ (List.range 31).map fun k => Operation.set (.number ((2 : ℤ) ^ k)) (.number 10),
      op.Admissible := by
    rw [List.forall_mem_map]
    exact fun k _ => hset _ _
  refine ⟨?_, ?_, ?_⟩
  · obtain ⟨t, hrun, hreach, -⟩ := reachable_run (by decide : 4 ≤ MAXASIZE) (Nat.zero_le _) hthree (by decide)
    have hgetn : t.luaH_getn = 3 := eq_of_run luaH_getn hrun rfl
    obtain ⟨hsome, hnone⟩ := luaH_getn_border hreach
    rw [hgetn] at hsome hnone
    exact ⟨t, hreach, eq_of_run sizearray hrun rfl, hgetn, hsome.resolve_left (by decide), hnone⟩
  · obtain ⟨t, hrun, hreach, -⟩ := reachable_run (Nat.zero_le _) (by decide : 4 ≤ 2 ^ MAXBITS) hthree (by decide)
    have hgetn : t.luaH_getn = 3 := eq_of_run luaH_getn hrun rfl
    obtain ⟨hsome, hnone⟩ := luaH_getn_border hreach
    rw [hgetn] at hsome hnone
    exact ⟨t, hreach, eq_of_run sizearray hrun rfl, hgetn, hsome.resolve_left (by decide), hnone⟩
  · obtain ⟨t, hrun, hreach, -⟩ := reachable_run (Nat.zero_le _) (by decide : 32 ≤ 2 ^ MAXBITS) hpowers (by decide)
    have hgetn : t.luaH_getn = 2 := eq_of_run luaH_getn hrun rfl
    obtain ⟨hsome, hnone⟩ := luaH_getn_border hreach
    rw [hgetn] at hsome hnone
    exact ⟨t, hreach, eq_of_run (present · (2 ^ 30)) hrun rfl, hgetn, hsome.resolve_left (by decide), hnone⟩

/-! What a table is to the functions of the API. -/

/-- The table of the API that a table stands for. -/
def Sound.toApi (h : t.Sound) : LuaApi.Table N where
  entries := t.entries
  getn := t.luaH_getn
  apart := h.entries_apart
  found _ he := (h.valid_entry he).1.2
  keyed _ he := (h.valid_entry he).1.1
  valued _ he := (h.valid_entry he).2

/-- A search in the nodes finds what a search among the entries finds. -/
theorem Sound.get_toApi (h : t.Sound) (key : Value N) : h.toApi.get key = t.lookup key := by
  unfold LuaApi.Table.get
  cases hfind : h.toApi.entries.find? fun e => e.1.rawequal key with
  | some e =>
    have hsame := List.find?_some hfind
    exact (h.lookup_entry (List.mem_of_find?_eq_some hfind) hsame).symm
  | none =>
    rw [List.find?_eq_none] at hfind
    by_contra hx
    obtain ⟨e, he, hkey, -⟩ := h.exists_entry (Ne.symm hx)
    exact hfind e he hkey

omit [LuaMemory N] [LawfulLuaMemory N] in
/-- Keys that are the same to every entry have the same next one. -/
theorem next_congr {api : LuaApi.Table N} {k l : Value N} (hk : k ≠ .nil) (hl : l ≠ .nil)
    (hsame : (fun d : Value N × Value N => d.1.rawequal k) = fun d => d.1.rawequal l) : api.next k = api.next l := by
  cases k <;> cases l <;> first | contradiction | simp only [LuaApi.Table.next, hsame]

/-- `luaH_next` goes through the entries in their order. -/
theorem Sound.next_toApi (h : t.Sound) {key : Value N} (hkey : key = .nil ∨ t.lookup key ≠ .nil) :
    h.toApi.next key = t.luaH_next key := by
  rcases hkey with rfl | hx
  · rw [h.luaH_next_spec (.inl ⟨rfl, rfl⟩), ← entries_eq, List.head?_eq_getElem?]
    rfl
  · obtain ⟨e, he, hsame, -⟩ := h.exists_entry hx
    obtain ⟨i, hi⟩ := List.mem_iff_getElem?.mp he
    have hnext := h.toApi.next_key hi
    have hkey : key ≠ .nil := by
      rintro rfl
      exact hx rfl
    have hfound : h.toApi.next key = h.toApi.next e.1 := by
      have hsearch : (fun d : Value N × Value N => d.1.rawequal key) = fun d => d.1.rawequal e.1 := by
        funext d
        rw [Bool.eq_iff_iff]
        exact ⟨fun hd => Value.rawequal_trans d.1 key e.1 hd (Value.rawequal_symm e.1 key hsame),
          fun hd => Value.rawequal_trans d.1 e.1 key hd hsame⟩
      exact next_congr hkey (h.toApi.keyed e he) hsearch
    rw [entries_eq] at hi
    obtain ⟨q, hval, rfl, hdrop⟩ := drop_entriesFrom i hi
    rw [h.luaH_next_spec (h.behind_of_valAt hval hsame), ← hdrop, ← entries_eq, List.head?_drop, hfound]
    exact hnext

/-- Every table stands for a table of the API: they find the same, and go through it in the same order. -/
theorem refines_api (h : t.Reachable) : ∃ api : LuaApi.Table N, api.entries = t.entries ∧ api.getn = t.luaH_getn ∧
    (∀ key, api.get key = t.value (t.luaH_get key)) ∧
    ∀ key, key = .nil ∨ api.get key ≠ .nil → api.next key = t.luaH_next key := by
  refine ⟨h.sound.toApi, rfl, rfl, h.sound.get_toApi, ?_⟩
  intro key hkey
  rw [h.sound.get_toApi] at hkey
  exact h.sound.next_toApi hkey

/-- A table with one key in its array and one in its nodes. -/
theorem refines_api_example : ∃ (t : Table ℤ) (api : LuaApi.Table ℤ), t.Reachable ∧
    api.get (.string [97]) = .number 20 ∧ api.getn = 1 ∧ api.next .nil = .ok (some (.number 1, .number 10)) ∧
      api.next (.number 1) = .ok (some (.string [97], .number 20)) ∧ api.next (.string [97]) = .ok none := by
  have hops : ∀ op ∈ [Operation.set (.number (1 : ℤ)) (.number 10), .set (.string [97]) (.number 20)],
      op.Admissible := by
    simp only [List.forall_mem_cons]
    exact ⟨⟨nofun, rfl⟩, ⟨nofun, rfl⟩, nofun⟩
  obtain ⟨t, hrun, hreach, -⟩ := reachable_run (by decide : 1 ≤ MAXASIZE) (by decide : 1 ≤ 2 ^ MAXBITS) hops (by decide)
  obtain ⟨api, -, hgetn, hget, hnext⟩ := refines_api hreach
  have hone : api.get (.number 1) = .number 10 :=
    (hget _).trans (eq_of_run (fun t => t.value (t.luaH_get (.number 1))) hrun rfl)
  have htext : api.get (.string [97]) = .number 20 :=
    (hget _).trans (eq_of_run (fun t => t.value (t.luaH_get (.string [97]))) hrun rfl)
  refine ⟨t, api, hreach, htext, hgetn.trans (eq_of_run luaH_getn hrun rfl), ?_, ?_, ?_⟩
  · exact (hnext _ (.inl rfl)).trans (eq_of_run (luaH_next · .nil) hrun rfl)
  · exact (hnext _ (.inr (hone ▸ nofun))).trans (eq_of_run (luaH_next · (.number 1)) hrun rfl)
  · exact (hnext _ (.inr (htext ▸ nofun))).trans (eq_of_run (luaH_next · (.string [97])) hrun rfl)

end Table
end H1Z1Server.LuaTable
