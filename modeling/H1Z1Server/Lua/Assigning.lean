import H1Z1Server.Lua.NewKey

/-! Assignments to tables that have room. -/
namespace H1Z1Server.LuaTable
open LuaApi

variable {N : Type}

namespace Table
variable {t t' : Table N} {i : ℕ} {key key' v x : Value N} {p : Slot}

theorem gnode_write_node (hi : i < t.node.length) (v : Value N) :
    (t.write (.node i) v).gnode = Function.update t.gnode i { t.gnode i with val := v } := gnode_setNode hi _

@[simp] theorem lsizenode_write (t : Table N) (p : Slot) (v : Value N) : (t.write p v).lsizenode = t.lsizenode := by
  cases p <;> rfl

@[simp] theorem dummy_write (t : Table N) (p : Slot) (v : Value N) : (t.write p v).dummy = t.dummy := by
  cases p <;> rfl

@[simp] theorem lastfree_write (t : Table N) (p : Slot) (v : Value N) : (t.write p v).lastfree = t.lastfree := by
  cases p <;> rfl

@[simp] theorem sizearray_write (t : Table N) (p : Slot) (v : Value N) : (t.write p v).sizearray = t.sizearray := by
  cases p with
  | array i => exact List.length_set
  | node i => rfl

@[simp] theorem length_write (t : Table N) (p : Slot) (v : Value N) :
    (t.write p v).node.length = t.node.length := by
  cases p with
  | array i => rfl
  | node i => exact length_setNode ..

/-- A write touches neither keys nor chains. -/
theorem gnode_write (t : Table N) (p : Slot) (v : Value N) (j : ℕ) :
    ((t.write p v).gnode j).key = (t.gnode j).key ∧ ((t.write p v).gnode j).next = (t.gnode j).next := by
  cases p with
  | array i => exact ⟨rfl, rfl⟩
  | node i =>
    by_cases hi : i < t.node.length
    · rw [gnode_write_node hi]
      by_cases hj : j = i
      · subst hj
        simp
      · simp [hj]
    · have hsame : (t.write (.node i) v).gnode = t.gnode := by
        funext k
        simp [write, setNode, gnode, List.set_eq_of_length_le (not_lt.mp hi)]
      rw [hsame]
      exact ⟨rfl, rfl⟩

@[simp] theorem scatter_write (t : Table N) (p : Slot) (v : Value N) : (t.write p v).scatter = t.scatter := by
  have hg := gnode_write t p v
  ext1
  · funext j
    simp only [scatter, (hg j).1]
  · funext j
    simp only [scatter, (hg j).1]
  · funext j
    exact (hg j).2

@[simp] theorem free_write (t : Table N) (p : Slot) (v : Value N) : (t.write p v).free = t.free := by
  unfold free sizenode
  simp only [lsizenode_write, (gnode_write t p v _).1]

variable [LuaNumber N] [LuaMemory N]

theorem mainposition_eq (h : t'.lsizenode = t.lsizenode) : t'.mainposition = t.mainposition := by
  funext k
  unfold mainposition hashnum hashmod hashpow2 sizenode
  rw [h]

omit [LuaMemory N] in
theorem inArray_iff (h : t'.sizearray = t.sizearray) (key : Value N) : t'.InArray key ↔ t.InArray key := by
  unfold InArray
  rw [h]

variable [LawfulLuaMemory N]

/-- What a search returns depends on the keys and the chains only. -/
theorem luaH_get_write (t : Table N) (p : Slot) (v key : Value N) :
    (t.write p v).luaH_get key = t.luaH_get key := by
  by_cases hkey : key = .nil
  · rw [hkey]
    rfl
  · simp only [luaH_get_eq hkey, scatter_write, inArray_iff (sizearray_write t p v),
      mainposition_eq (lsizenode_write t p v), sizenode, lsizenode_write]

theorem luaH_get_congr (h : key.rawequal key' = true) : t.luaH_get key = t.luaH_get key' := by
  by_cases hkey : key = .nil
  · subst hkey
    have hkey' : key' = .nil := by cases key' <;> simp_all [Value.rawequal]
    rw [hkey']
  have hkey' : key' ≠ .nil := by
    rintro rfl
    cases key <;> simp_all [Value.rawequal]
  have hhit : t.scatter.hit Value.rawequal key = t.scatter.hit Value.rawequal key' := by
    funext i
    rw [scatter_hit hkey, scatter_hit hkey', (t.gnode i).key.rawequal_congr h]
  have hin : t.InArray key ↔ t.InArray key' := by
    unfold InArray
    rw [arrayindex_congr h]
  simp only [luaH_get_eq hkey, luaH_get_eq hkey', hhit, hin, arrayindex_congr h, t.mainposition_congr h]

/-- Where a key is found. -/
theorem Sound.luaH_get_some (h : t.Sound) (hp : t.luaH_get key = some p) :
    (∃ i < t.sizearray, p = .array i ∧ arrayindex key = i + 1) ∨
      ∃ i v, i < t.node.length ∧ p = .node i ∧ ¬t.InArray key ∧ (t.gnode i).key = .value v ∧ v ≠ .nil ∧
        v.rawequal key = true := by
  have hkey : key ≠ .nil := by
    rintro rfl
    cases hp
  rw [luaH_get_eq hkey] at hp
  split at hp
  case isTrue hin =>
    cases hp
    obtain ⟨hlo, hhi⟩ := hin
    exact .inl ⟨(arrayindex key - 1).toNat, by omega, rfl, by omega⟩
  case isFalse hout =>
    obtain ⟨i, hfind, rfl⟩ := Option.map_eq_some_iff.mp hp
    obtain ⟨-, hi⟩ := Chains.reaches_of_find h.scatter.bounded h.scatter.chains (t.mainposition_lt key) hfind
    obtain ⟨-, l, hl, -⟩ := Scatter.hit_iff.mp hi
    obtain ⟨v, hv, hsame⟩ := value_of_hit hi
    obtain ⟨-, hlv⟩ := scatter_key_iff.mp hl
    rw [hv] at hlv
    obtain rfl : v = l := hlv
    exact .inr ⟨i, v, h.length ▸ h.scatter.within i v hl, rfl, hout, hv, (h.keyed i v hl).1, hsame⟩

theorem Sound.rawequal_of_get (h : t.Sound) (hp : t.luaH_get key = some p) (hp' : t.luaH_get key' = some p) :
    key.rawequal key' = true := by
  rcases h.luaH_get_some hp with ⟨i, -, rfl, hi⟩ | ⟨i, v, -, rfl, -, hv, -, hsame⟩
  · rcases h.luaH_get_some hp' with ⟨j, -, heq, hj⟩ | ⟨j, w, -, heq, -⟩
    · cases heq
      rw [rawequal_iff_arrayindex (by omega), hi, hj]
    · cases heq
  · rcases h.luaH_get_some hp' with ⟨j, -, heq, hj⟩ | ⟨j, w, -, heq, -, hw, -, hsame'⟩
    · cases heq
    · cases heq
      rw [hv] at hw
      cases hw
      exact Value.rawequal_trans key v key' (Value.rawequal_symm v key hsame) hsame'

/-- What is written under a key is found under the keys that are equal to it, and nothing else changes. -/
theorem Sound.lookup_write (h : t.Sound) (hp : t.luaH_get key = some p) (v key' : Value N) :
    (t.write p v).lookup key' = if key.rawequal key' then v else t.lookup key' := by
  have hread : (t.write p v).read p = v := by
    rcases h.luaH_get_some hp with ⟨i, hi, rfl, -⟩ | ⟨i, -, hi, rfl, -⟩
    · have hlt : i < t.array.length := hi
      simp [read, write, hlt]
    · simp [read, gnode_write_node hi]
  have hother : ∀ q, q ≠ p → (t.write p v).read q = t.read q := by
    intro q hq
    rcases h.luaH_get_some hp with ⟨i, -, rfl, -⟩ | ⟨i, -, hi, rfl, -⟩
    · cases q with
      | array j =>
        have hj : i ≠ j := fun heq => hq (by rw [heq])
        simp [read, write, List.getD_eq_getElem?_getD, hj]
      | node j => rfl
    · cases q with
      | array j => rfl
      | node j =>
        have hj : j ≠ i := fun heq => hq (by rw [heq])
        simp [read, gnode_write_node hi, hj]
  unfold lookup value
  rw [luaH_get_write]
  by_cases hsame : key.rawequal key' = true
  · rw [if_pos hsame, ← luaH_get_congr hsame, hp]
    exact hread
  · rw [if_neg hsame]
    cases hq : t.luaH_get key' with
    | none => rfl
    | some q =>
      apply hother
      rintro rfl
      exact hsame (h.rawequal_of_get hp hq)

theorem Sound.write (h : t.Sound) (hp : t.luaH_get key = some p) (v : Value N) : (t.write p v).Sound where
  length := by
    rw [length_write, h.length, sizenode, sizenode, lsizenode_write]
  scatter := by
    rw [scatter_write, sizenode, lsizenode_write, mainposition_eq (lsizenode_write t p v)]
    exact h.scatter
  small := by
    rw [lsizenode_write]
    exact h.small
  fits := by
    rw [sizearray_write]
    exact h.fits
  lastfree := by
    rw [lastfree_write, sizenode, lsizenode_write]
    exact h.lastfree
  used := by
    intro hd j hle hj
    rw [(gnode_write t p v j).1]
    rw [dummy_write] at hd
    rw [lastfree_write] at hle
    rw [sizenode, lsizenode_write] at hj
    exact h.used hd j hle hj
  dummy := by
    intro hd
    rw [dummy_write] at hd
    rcases h.luaH_get_some hp with ⟨i, -, rfl, -⟩ | ⟨i, w, hi, rfl, -, hw, hwnil, -⟩
    · exact h.dummy hd
    · have hnode := (h.dummy hd).1
      rw [gnode, hnode] at hw
      rw [hnode] at hi
      have hi0 : i = 0 := by simpa using hi
      subst hi0
      cases hw
      exact absurd rfl hwnil
  valued := by
    intro j hj
    rw [(gnode_write t p v j).1]
    rcases h.luaH_get_some hp with ⟨i, -, rfl, -⟩ | ⟨i, w, hi, rfl, -, hw, hwnil, -⟩
    · exact h.valued j hj
    · rw [gnode_write_node hi] at hj
      by_cases hji : j = i
      · subst hji
        exact ⟨w, hw, hwnil⟩
      · rw [Function.update_of_ne hji] at hj
        exact h.valued j hj
  keyed := by
    intro j w hw
    rw [scatter_write] at hw
    rw [inArray_iff (sizearray_write t p v)]
    exact h.keyed j w hw

/-! What `luaH_set` and a write to the place that it returns do. -/

/-- The table `t''` is `t` with a value assigned to a key, and has as much room but for one node. -/
structure Assigns (t t'' : Table N) (key v : Value N) : Prop where
  sound : t''.Sound
  lookup : ∀ key', t''.lookup key' = if key.rawequal key' then v else t.lookup key'
  sizearray : t''.sizearray = t.sizearray
  lsizenode : t''.lsizenode = t.lsizenode
  dummy : t''.dummy = t.dummy
  free : t.free ≤ t''.free + if t.InArray key then 0 else 1

theorem Sound.assigns_write (h : t.Sound) (hp : t.luaH_get key = some p) (v : Value N) :
    Assigns t (t.write p v) key v where
  sound := h.write hp v
  lookup := h.lookup_write hp v
  sizearray := sizearray_write ..
  lsizenode := lsizenode_write ..
  dummy := dummy_write ..
  free := by
    rw [free_write]
    exact Nat.le_add_right _ _

/-- The value is written into the node that has been found for the key. -/
theorem Inserts.assigns (h : t.Sound) (hnew : t.New key) (hins : Inserts t t' key i) (v : Value N) :
    Assigns t (t'.write (.node i) v) key v := by
  have hsize : t'.sizearray = t.sizearray := congrArg List.length hins.array
  have hget : t'.luaH_get key = some (.node i) := by
    apply hins.sound.luaH_get_of_hit hnew.keyed
    · rw [inArray_iff hsize]
      exact hnew.outside
    · exact hit_of_value hins.key hnew.keyed hnew.equal
  have hwrite := hins.sound.assigns_write hget v
  refine ⟨hwrite.sound, ?_, hwrite.sizearray.trans hsize, hwrite.lsizenode.trans hins.lsizenode,
    hwrite.dummy.trans hins.dummy, ?_⟩
  · intro key'
    rw [hwrite.lookup, h.lookup_congr hins.sound hins.array hins.holds]
  · rw [if_neg hnew.outside, free_write]
    exact hins.free

/-- A key that Lua takes: neither nil nor NaN. -/
def Valid (key : Value N) : Prop := key ≠ .nil ∧ key.rawequal key = true

omit [LawfulLuaMemory N] in
/-- A key that is not found goes to `newkey`. -/
theorem setWith_of_none (newkey : Table N → Value N → Except Abort (Table N × Slot)) (hkey : Valid key)
    (hget : t.luaH_get key = none) : t.setWith newkey key = newkey t key := by
  unfold setWith
  rw [hget]
  obtain ⟨hnil, hself⟩ := hkey
  cases key with
  | nil => exact absurd rfl hnil
  | number n =>
    have hn : LuaNumber.eq n n = true := hself
    simp only [hn, if_true]
  | _ => rfl

theorem Sound.new_of_none (h : t.Sound) (hkey : Valid key) (hget : t.luaH_get key = none) : t.New key :=
  have hmiss := (h.luaH_get_eq_none hkey.1).mp hget
  ⟨hkey.1, hkey.2, hmiss.1, hmiss.2⟩

/-- While there is room, a value is assigned without a rehash. -/
theorem Sound.setWith_spec (h : t.Sound) (hkey : Valid key) (depth : ℕ)
    (hroom : ¬t.InArray key → t.dummy = false ∧ 0 < t.free) (v : Value N) :
    ∃ t' p, t.setWith (newkey (depth + 1)) key = .ok (t', p) ∧ Assigns t (t'.write p v) key v := by
  cases hget : t.luaH_get key with
  | some p =>
    refine ⟨t, p, ?_, h.assigns_write hget v⟩
    unfold setWith
    rw [hget]
  | none =>
    have hnew := h.new_of_none hkey hget
    obtain ⟨hdummy, hfree⟩ := hroom hnew.outside
    obtain ⟨t', i, hrun, hins⟩ := h.newkey_spec hnew hdummy (.inr hfree) depth
    exact ⟨t', .node i, (setWith_of_none _ hkey hget).trans hrun, hins.assigns h hnew v⟩

/-- `luaH_getnum` is `luaH_get` for numbers that are integers. -/
theorem luaH_get_number (t : Table N) {k : ℤ} (hlo : -2 ^ 31 ≤ k) (hlt : k < 2 ^ 31) :
    t.luaH_get (.number (LuaNumber.ofInt k)) = t.luaH_getnum k := by
  have hk : (Int32.ofInt k).toInt = k := Int32.toInt_ofInt_of_le hlo hlt
  have hint := LawfulLuaMemory.toInteger_ofInt (N := N) (Int32.ofInt k)
  have heq := LawfulLuaMemory.eq_ofInt (N := N) (Int32.ofInt k)
  rw [hk] at hint heq
  simp only [luaH_get, hint, hk, heq, if_true]

/-- `luaH_setnum` is `luaH_set` for numbers that are integers. -/
theorem setnumWith_eq (newkey : Table N → Value N → Except Abort (Table N × Slot)) (t : Table N) {k : ℤ}
    (hlo : -2 ^ 31 ≤ k) (hlt : k < 2 ^ 31) :
    t.setnumWith newkey k = t.setWith newkey (.number (LuaNumber.ofInt k)) := by
  have hk : (Int32.ofInt k).toInt = k := Int32.toInt_ofInt_of_le hlo hlt
  have heq := LawfulLuaMemory.eq_ofInt (N := N) (Int32.ofInt k)
  rw [hk] at heq
  unfold setnumWith setWith
  rw [luaH_get_number t hlo hlt]
  cases t.luaH_getnum k with
  | some p => rfl
  | none => simp only [heq, if_true]

theorem valid_number {k : ℤ} (hpos : 0 < k) (hlt : k < 2 ^ 31) :
    Valid (.number (LuaNumber.ofInt k) : Value N) := by
  have hk : (Int32.ofInt k).toInt = k := Int32.toInt_ofInt_of_le (by omega) hlt
  have heq := LawfulLuaMemory.eq_ofInt (N := N) (Int32.ofInt k)
  rw [hk] at heq
  exact ⟨nofun, heq⟩

end Table
end H1Z1Server.LuaTable
