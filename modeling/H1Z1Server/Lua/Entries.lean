import H1Z1Server.Lua.Assigning

/-! The entries of a table, in the order in which they lie there. -/
namespace H1Z1Server.LuaTable
open LuaApi

variable {N : Type}

namespace Table

/-- The places of the array, from `i` on, that hold a value. Places count from 1. -/
def usedFrom (t : Table N) (i : ℕ) : List ℕ :=
  (List.range' i (t.sizearray + 1 - i)).filter fun i => !ttisnil (t.array.getD (i - 1) .nil)

/-- The nodes, from `i` on, that hold a value. -/
def liveFrom (t : Table N) (i : ℕ) : List ℕ :=
  (List.range' i (t.node.length - i)).filter fun i => !ttisnil (t.gnode i).val

def nodeEntries (t : Table N) (i : ℕ) : List (Value N × Value N) :=
  (t.liveFrom i).map fun i => ((t.gnode i).key.key2tval, (t.gnode i).val)

theorem mem_usedFrom {t : Table N} {i m : ℕ} : m ∈ t.usedFrom i ↔
    i ≤ m ∧ m ≤ t.sizearray ∧ t.array.getD (m - 1) .nil ≠ .nil := by
  have hrange : i ≤ m ∧ m < i + (t.sizearray + 1 - i) ↔ i ≤ m ∧ m ≤ t.sizearray := by omega
  rw [usedFrom, List.mem_filter, List.mem_range'_1, Bool.not_eq_true', ttisnil_eq_false, hrange, and_assoc]

theorem mem_liveFrom {t : Table N} {i j : ℕ} : j ∈ t.liveFrom i ↔ i ≤ j ∧ (t.gnode j).val ≠ .nil := by
  have hlive : (t.gnode j).val ≠ .nil → j < t.node.length := by
    intro hval
    by_contra hle
    rw [gnode_of_le (not_lt.mp hle)] at hval
    exact hval rfl
  rw [liveFrom, List.mem_filter, List.mem_range'_1, Bool.not_eq_true', ttisnil_eq_false]
  constructor
  · rintro ⟨⟨hle, -⟩, hval⟩
    exact ⟨hle, hval⟩
  · rintro ⟨hle, hval⟩
    have hlt := hlive hval
    exact ⟨⟨hle, by omega⟩, hval⟩

theorem nodup_usedFrom (t : Table N) (i : ℕ) : (t.usedFrom i).Nodup :=
  List.Nodup.filter _ List.nodup_range'

theorem nodup_liveFrom (t : Table N) (i : ℕ) : (t.liveFrom i).Nodup :=
  List.Nodup.filter _ List.nodup_range'

theorem nodeEntries_zero (t : Table N) :
    t.nodeEntries 0 = (t.node.filter fun n => !ttisnil n.val).map fun n => (n.key.key2tval, n.val) := by
  have hnode : t.node = (List.range' 0 (t.node.length - 0)).map t.gnode := by
    apply List.ext_getElem
    · simp
    · intro i hi hi'
      simp [gnode, hi]
  rw [nodeEntries, liveFrom]
  conv_rhs => rw [hnode, List.filter_map, List.map_map]
  rfl

variable [LuaNumber N]

def arrayEntries (t : Table N) (i : ℕ) : List (Value N × Value N) :=
  (t.usedFrom i).map fun m : ℕ => (.number (LuaNumber.ofInt m), t.array.getD (m - 1) .nil)

/-- All entries, in the order of a traversal. -/
def entries (t : Table N) : List (Value N × Value N) := t.arrayEntries 1 ++ t.nodeEntries 0

/-- Two entries with different keys. -/
def Apart (e e' : Value N × Value N) : Prop := e.1.rawequal e'.1 = false

variable {t : Table N} {i j m : ℕ} {key v x : Value N} {e : Value N × Value N}

theorem mem_arrayEntries : e ∈ t.arrayEntries i ↔ ∃ m, i ≤ m ∧ m ≤ t.sizearray ∧
    e = (.number (LuaNumber.ofInt m), t.array.getD (m - 1) .nil) ∧ e.2 ≠ .nil := by
  unfold arrayEntries
  simp only [List.mem_map, mem_usedFrom]
  constructor
  · rintro ⟨m, ⟨hle, hsize, hval⟩, rfl⟩
    exact ⟨m, hle, hsize, rfl, hval⟩
  · rintro ⟨m, hle, hsize, rfl, hval⟩
    exact ⟨m, ⟨hle, hsize, hval⟩, rfl⟩

omit [LuaNumber N] in
theorem mem_nodeEntries : e ∈ t.nodeEntries i ↔ ∃ j, i ≤ j ∧
    e = ((t.gnode j).key.key2tval, (t.gnode j).val) ∧ e.2 ≠ .nil := by
  unfold nodeEntries
  simp only [List.mem_map, mem_liveFrom]
  constructor
  · rintro ⟨j, ⟨hle, hval⟩, rfl⟩
    exact ⟨j, hle, rfl, hval⟩
  · rintro ⟨j, hle, rfl, hval⟩
    exact ⟨j, ⟨hle, hval⟩, rfl⟩

variable [LuaMemory N] [LawfulLuaMemory N]

omit [LawfulLuaMemory N] in
theorem Sound.index_lt (h : t.Sound) (hm : m ≤ t.sizearray) : (m : ℤ) < 2 ^ 31 := by
  have hfits : m ≤ 2 ^ 26 := hm.trans h.fits
  exact_mod_cast lt_of_le_of_lt hfits (by norm_num)

theorem Sound.arrayindex_entry (h : t.Sound) (hpos : 1 ≤ m) (hm : m ≤ t.sizearray) :
    arrayindex (.number (LuaNumber.ofInt m) : Value N) = m :=
  arrayindex_number (by omega) (h.index_lt hm)

omit [LawfulLuaMemory N] in
/-- A node that holds a value has a key. -/
theorem Sound.node_entry (h : t.Sound) (hval : (t.gnode j).val ≠ .nil) :
    ∃ v, (t.gnode j).key = .value v ∧ v ≠ .nil ∧ v.rawequal v = true ∧ ¬t.InArray v := by
  obtain ⟨v, hv, hnil⟩ := h.valued j hval
  obtain ⟨-, hself, hout⟩ := h.keyed j v (scatter_key_of_value hv hnil)
  exact ⟨v, hv, hnil, hself, hout⟩

theorem Sound.valid_entry (h : t.Sound) (he : e ∈ t.entries) : Valid e.1 ∧ e.2 ≠ .nil := by
  rcases List.mem_append.mp he with he | he
  · obtain ⟨m, hpos, hm, rfl, hval⟩ := mem_arrayEntries.mp he
    exact ⟨valid_number (by omega) (h.index_lt hm), hval⟩
  · obtain ⟨j, -, rfl, hval⟩ := mem_nodeEntries.mp he
    obtain ⟨v, hv, hnil, hself, -⟩ := h.node_entry hval
    dsimp only
    rw [hv]
    exact ⟨⟨hnil, hself⟩, hval⟩

/-- What an entry says is what a search finds. -/
theorem Sound.lookup_entry (h : t.Sound) (he : e ∈ t.entries) (hkey : e.1.rawequal key = true) :
    t.lookup key = e.2 := by
  have hnil : key ≠ .nil := by
    rintro rfl
    obtain ⟨⟨hnil, -⟩, -⟩ := h.valid_entry he
    generalize e.1 = k at *
    cases k <;> simp_all [Value.rawequal]
  rcases List.mem_append.mp he with he | he
  · obtain ⟨m, hpos, hm, rfl, -⟩ := mem_arrayEntries.mp he
    have hindex : arrayindex key = m := (arrayindex_congr hkey).symm.trans (h.arrayindex_entry hpos hm)
    rw [lookup_of_inArray ⟨by omega, by omega⟩, hindex]
    congr 1
    omega
  · obtain ⟨j, -, rfl, hval⟩ := mem_nodeEntries.mp he
    obtain ⟨v, hv, -, -, hout⟩ := h.node_entry hval
    dsimp only at hkey ⊢
    rw [hv] at hkey
    have hout : ¬t.InArray key := by
      unfold InArray at hout ⊢
      rwa [← arrayindex_congr hkey]
    exact (h.lookup_eq_iff hnil hout hval).mpr ⟨v, hkey, j, hv, rfl⟩

theorem Sound.exists_entry (h : t.Sound) (hx : t.lookup key ≠ .nil) :
    ∃ e ∈ t.entries, e.1.rawequal key = true ∧ e.2 = t.lookup key := by
  have hnil : key ≠ .nil := by
    rintro rfl
    exact hx rfl
  by_cases hin : t.InArray key
  · have hlookup := lookup_of_inArray hin
    obtain ⟨hlo, hhi⟩ := hin
    obtain ⟨m, hm⟩ := Int.eq_ofNat_of_zero_le (show 0 ≤ arrayindex key by omega)
    rw [hm, show ((m : ℤ) - 1).toNat = m - 1 by omega] at hlookup
    refine ⟨(.number (LuaNumber.ofInt m), t.array.getD (m - 1) .nil), ?_, ?_, hlookup.symm⟩
    · apply List.mem_append_left
      exact mem_arrayEntries.mpr ⟨m, by omega, by omega, rfl, hlookup ▸ hx⟩
    · have hsame := rawequal_of_arrayindex (v := key) (by omega)
      rwa [hm] at hsame
  · obtain ⟨v, hsame, j, hv, hval⟩ := (h.lookup_eq_iff hnil hin hx).mp rfl
    refine ⟨((t.gnode j).key.key2tval, (t.gnode j).val), ?_, ?_, hval⟩
    · apply List.mem_append_right
      exact mem_nodeEntries.mpr ⟨j, Nat.zero_le j, rfl, hval ▸ hx⟩
    · rw [hv]
      exact hsame

/-- No two entries have the same key. -/
theorem Sound.entries_apart (h : t.Sound) : t.entries.Pairwise Apart := by
  unfold entries arrayEntries nodeEntries
  rw [List.pairwise_append, List.pairwise_map, List.pairwise_map]
  refine ⟨?_, ?_, ?_⟩
  · refine (t.nodup_usedFrom 1).imp_of_mem ?_
    intro a b ha hb hne
    obtain ⟨hpos, hm, -⟩ := mem_usedFrom.mp ha
    obtain ⟨hpos', hm', -⟩ := mem_usedFrom.mp hb
    apply Bool.eq_false_iff.mpr
    intro hsame
    have hindex := arrayindex_congr hsame
    rw [h.arrayindex_entry hpos hm, h.arrayindex_entry hpos' hm'] at hindex
    exact hne (by exact_mod_cast hindex)
  · refine (t.nodup_liveFrom 0).imp_of_mem ?_
    intro a b ha hb hne
    obtain ⟨v, hv, hnil, -⟩ := h.node_entry (mem_liveFrom.mp ha).2
    obtain ⟨w, hw, hnil', -⟩ := h.node_entry (mem_liveFrom.mp hb).2
    apply Bool.eq_false_iff.mpr
    intro hsame
    dsimp only at hsame
    rw [hv, hw] at hsame
    exact hne (h.scatter.unique a b v w (scatter_key_of_value hv hnil) (scatter_key_of_value hw hnil')
      (scatter_alive hv) (scatter_alive hw) hsame)
  · intro e he e' he'
    obtain ⟨m, hm, rfl⟩ := List.mem_map.mp he
    obtain ⟨j, hj, rfl⟩ := List.mem_map.mp he'
    obtain ⟨hpos, hm, -⟩ := mem_usedFrom.mp hm
    obtain ⟨v, hv, -, -, hout⟩ := h.node_entry (mem_liveFrom.mp hj).2
    apply Bool.eq_false_iff.mpr
    intro hsame
    dsimp only at hsame
    rw [hv] at hsame
    have hindex : arrayindex v = m := (arrayindex_congr hsame).symm.trans (h.arrayindex_entry hpos hm)
    exact hout ⟨by omega, by omega⟩

theorem apart_symm {e e' : Value N × Value N} (h : Apart e e') : Apart e' e :=
  Bool.eq_false_iff.mpr fun hsame => Bool.eq_false_iff.mp h (Value.rawequal_symm _ _ hsame)

theorem Sound.entry_unique (h : t.Sound) {e e' : Value N × Value N} (he : e ∈ t.entries) (he' : e' ∈ t.entries)
    (hkey : e.1.rawequal key = true) (hkey' : e'.1.rawequal key = true) : e = e' := by
  by_contra hne
  have : Std.Symm (Apart (N := N)) := ⟨fun _ _ => apart_symm⟩
  have hapart := h.entries_apart.forall he he' hne
  exact Bool.eq_false_iff.mp hapart
    (Value.rawequal_trans e.1 key e'.1 hkey (Value.rawequal_symm e'.1 key hkey'))

end Table
end H1Z1Server.LuaTable
