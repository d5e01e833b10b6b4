import H1Z1Server.Lua.Rehashing

/-! Tables over whole runs of what a program and the collector do to them. -/
namespace H1Z1Server.LuaTable
open LuaApi

/-- No more are apart from each other than there are representatives. -/
theorem length_le_of_related {α : Type} (r : α → α → Prop) {l l' : List α}
    (hsame : ∀ a b c, r a c → r b c → r a b) (hapart : l.Pairwise fun a b => ¬r a b)
    (h : ∀ a ∈ l, ∃ b ∈ l', r a b) : l.length ≤ l'.length := by
  induction l generalizing l' with
  | nil => exact Nat.zero_le _
  | cons a l ih =>
    rw [List.pairwise_cons] at hapart
    obtain ⟨b, hb, hab⟩ := h a (List.mem_cons_self ..)
    obtain ⟨front, back, rfl⟩ := List.append_of_mem hb
    have hrest : l.length ≤ (front ++ back).length := by
      apply ih hapart.2
      intro c hc
      obtain ⟨d, hd, hcd⟩ := h c (List.mem_cons_of_mem _ hc)
      refine ⟨d, ?_, hcd⟩
      rcases List.mem_append.mp hd with hd | hd
      · exact List.mem_append_left _ hd
      rcases List.mem_cons.mp hd with rfl | hd
      · exact absurd (hsame a c d hab hcd) (hapart.1 c hc)
      · exact List.mem_append_right _ hd
    simp only [List.length_append, List.length_cons] at hrest ⊢
    omega

variable {N : Type}

namespace Table

section Counting
variable [LuaNumber N] [LuaMemory N] [LawfulLuaMemory N] {t t' t'' : Table N} {key v : Value N}

/-- A table has no more entries than there are keys under which it may have found something. -/
theorem Sound.length_entries_le (h : t.Sound) (ks : List (Value N))
    (hks : ∀ key, t.lookup key ≠ .nil → ∃ k ∈ ks, key.rawequal k = true) : t.entries.length ≤ ks.length := by
  rw [← List.length_map (f := Prod.fst)]
  apply length_le_of_related (fun k l : Value N => k.rawequal l = true)
  · exact fun a b c hac hbc => Value.rawequal_trans a c b hac (Value.rawequal_symm b c hbc)
  · rw [List.pairwise_map]
    exact h.entries_apart.imp Bool.eq_false_iff.mp
  · intro k hk
    obtain ⟨e, he, rfl⟩ := List.mem_map.mp hk
    obtain ⟨⟨-, hself⟩, hval⟩ := h.valid_entry he
    exact hks e.1 (h.lookup_entry he hself ▸ hval)

theorem Sound.mem_keys (h : t.Sound) (hx : t.lookup key ≠ .nil) : ∃ k ∈ t.keys, key.rawequal k = true := by
  obtain ⟨e, he, hkey, -⟩ := h.exists_entry hx
  exact ⟨e.1, List.mem_map_of_mem he, Value.rawequal_symm e.1 key hkey⟩

/-- An assignment makes one entry more at most. -/
theorem Sets.length_le (hset : Sets t t'' key v) (h : t.Sound) : t''.entries.length ≤ t.entries.length + 1 := by
  have hle := hset.sound.length_entries_le (key :: t.keys) (by
    intro key' hx
    rw [hset.lookup] at hx
    split at hx
    case isTrue hsame => exact ⟨key, List.mem_cons_self .., Value.rawequal_symm key key' hsame⟩
    case isFalse =>
      obtain ⟨k, hk, hkey⟩ := h.mem_keys hx
      exact ⟨k, List.mem_cons_of_mem _ hk, hkey⟩)
  rwa [List.length_cons, keys, List.length_map] at hle

end Counting

section Resizing
variable [LuaNumber N] [LuaMemory N] [LawfulLuaMemory N] {t : Table N} {nasize nhsize : ℕ}

/-- Assignments that may rehash in between. -/
theorem Sound.setAll (h : t.Sound) (es : List (Value N × Value N)) (hvalid : ∀ e ∈ es, Valid e.1)
    (hcount : t.entries.length + es.length ≤ 2 ^ MAXBITS) (depth : ℕ) :
    ∃ t', es.foldlM (assignWith (newkey (depth + 2))) t = .ok t' ∧ t'.Sound ∧ t'.lookup = overwrite t.lookup es := by
  induction es generalizing t with
  | nil => exact ⟨t, rfl, h, rfl⟩
  | cons e es ih =>
    rw [List.length_cons] at hcount
    obtain ⟨t₁, p, hset, hassign, -⟩ := h.setWith_newkey (hvalid e (List.mem_cons_self ..)) (by omega) depth e.2
    have hle := hassign.length_le h
    obtain ⟨t', hrun, hsound, hlookup⟩ :=
      ih hassign.sound (fun e he => hvalid e (List.mem_cons_of_mem _ he)) (by omega)
    refine ⟨t', ?_, hsound, ?_⟩
    · rw [List.foldlM_cons, assignWith, hset]
      exact hrun
    · rw [hlookup, overwrite, overwrite, List.foldl_cons]
      congr 1
      funext key
      exact hassign.lookup key

/-- A table keeps what is in it when its array grows. What does not go to the array is set anew, with a rehash
when that is necessary. -/
theorem Sound.resize_spec (h : t.Sound) (hgrows : t.sizearray ≤ nasize) (hna : nasize ≤ MAXASIZE)
    (hnh : nhsize ≤ 2 ^ MAXBITS) (hcount : t.entries.length ≤ 2 ^ MAXBITS) :
    ∃ t', t.resize nasize nhsize = .ok t' ∧ t'.Sound ∧ t'.lookup = t.lookup := by
  obtain ⟨fresh, hrun, hfresh, -, -, -, hfew, hkept⟩ := h.resizeWith_eq hna hnh
  have hnone : t.arrayEntries (nasize + 1) = [] := by
    rw [arrayEntries, usedFrom, Nat.sub_eq_zero_of_le (by omega)]
    rfl
  rw [moved, hnone, List.nil_append] at hfew hkept
  have hvalid : ∀ e ∈ (t.nodeEntries 0).reverse, Valid e.1 := fun e he =>
    (h.valid_entry (List.mem_append_right _ (List.mem_reverse.mp he))).1
  obtain ⟨t', hmove, hsound, hlookup⟩ := hfresh.setAll _ hvalid (by omega) 0
  refine ⟨t', (hrun _).trans ?_, hsound, hlookup.trans hkept⟩
  rw [hnone]
  exact hmove

theorem Sound.preallocate_spec (h : t.Sound) {last : ℕ} (hlast : last ≤ MAXASIZE)
    (hcount : t.entries.length ≤ 2 ^ MAXBITS) :
    ∃ t', t.preallocate last = .ok t' ∧ t'.Sound ∧ t'.lookup = t.lookup := by
  unfold preallocate
  split
  case isTrue hgrows =>
    apply h.resize_spec hgrows.le hlast _ hcount
    split
    · exact Nat.zero_le _
    · exact Nat.pow_le_pow_right two_pos h.small
  case isFalse => exact ⟨t, rfl, h, rfl⟩

theorem luaH_new_spec {narray nhash : ℕ} (hna : narray ≤ MAXASIZE) (hnh : nhash ≤ 2 ^ MAXBITS) :
    ∃ t : Table N, luaH_new narray nhash = .ok t ∧ t.Sound ∧ ∀ key, t.lookup key = .nil := by
  obtain ⟨t, hset, hfresh, harray, -⟩ :=
    (setarrayvector (⟨[], [emptyNode], 0, true, 0⟩ : Table N) narray).setnodevector_spec hnh
  have harray' : t.array = List.replicate narray .nil := by
    rw [harray, setarrayvector, List.take_nil, List.nil_append]
    rfl
  have hsize : t.sizearray = narray := by rw [sizearray, harray', List.length_replicate]
  refine ⟨t, hset, hfresh.sound (hsize.le.trans hna), ?_⟩
  intro key
  rw [hfresh.lookup (hsize.le.trans hna), harray', List.getD_eq_getElem?_getD, List.getElem?_replicate]
  split
  · split <;> rfl
  · rfl

end Resizing

section Collecting
variable {t : Table N} {i : ℕ} {v : Value N}

/-- A key that is killed has no value. -/
theorem clearNode_spec (t : Table N) (i : ℕ) : t.clearNode i = t ∨
    ∃ v, (t.gnode i).key = .value v ∧ iscollectable v = true ∧ (t.gnode i).val = .nil ∧ i < t.node.length ∧
      t.clearNode i = t.setNode i { t.gnode i with key := .deadkey v } := by
  unfold clearNode
  split
  case isFalse => exact .inl rfl
  case isTrue hnil =>
    unfold removeentry
    split
    case h_2 => exact .inl rfl
    case h_1 v hv =>
      split
      case isFalse => exact .inl rfl
      case isTrue hcoll =>
        refine .inr ⟨v, hv, hcoll, ttisnil_iff.mp hnil, ?_, rfl⟩
        by_contra hle
        rw [gnode_of_le (not_lt.mp hle)] at hv
        cases hv
        cases hcoll

theorem scatter_killed (hi : i < t.node.length) (hv : (t.gnode i).key = .value v) (hnil : v ≠ .nil) :
    (t.setNode i { t.gnode i with key := .deadkey v }).scatter = t.scatter.kill i := by
  have hnode := gnode_setNode hi { t.gnode i with key := .deadkey v }
  ext1
  · funext j
    unfold Table.scatter Scatter.kill
    dsimp only
    rw [hnode]
    by_cases hj : j = i
    · subst hj
      rw [Function.update_self, hv]
      cases v <;> simp_all [NodeKey.isnil, NodeKey.key2tval]
    · rw [Function.update_of_ne hj]
  · funext j
    unfold Table.scatter Scatter.kill
    dsimp only
    rw [hnode]
    by_cases hj : j = i
    · subst hj
      rw [Function.update_self, Function.update_self]
    · rw [Function.update_of_ne hj, Function.update_of_ne hj]
  · funext j
    unfold Table.scatter Scatter.kill gnext
    dsimp only
    rw [hnode]
    by_cases hj : j = i
    · subst hj
      rw [Function.update_self]
    · rw [Function.update_of_ne hj]

variable [LuaNumber N] [LuaMemory N] [LawfulLuaMemory N]

/-- The collector changes nothing that a search could find. -/
theorem Sound.clearNode (h : t.Sound) (i : ℕ) : (t.clearNode i).Sound ∧ (t.clearNode i).lookup = t.lookup := by
  rcases t.clearNode_spec i with hsame | ⟨v, hv, hcoll, hval, hi, heq⟩
  · rw [hsame]
    exact ⟨h, rfl⟩
  rw [heq]
  have hnil : v ≠ .nil := by
    rintro rfl
    cases hcoll
  have hnode := gnode_setNode hi { t.gnode i with key := .deadkey v }
  have hother : ∀ j, j ≠ i → (t.setNode i { t.gnode i with key := .deadkey v }).gnode j = t.gnode j := by
    intro j hj
    rw [hnode, Function.update_of_ne hj]
  have hhere : (t.setNode i { t.gnode i with key := .deadkey v }).gnode i = { t.gnode i with key := .deadkey v } := by
    rw [hnode, Function.update_self]
  have hscatter := scatter_killed hi hv hnil
  have hsound : (t.setNode i { t.gnode i with key := .deadkey v }).Sound := by
    refine ⟨?_, ?_, h.small, h.fits, h.lastfree, ?_, ?_, ?_, ?_⟩
    · rw [length_setNode, h.length]
      rfl
    · rw [hscatter]
      exact h.scatter.kill i
    · intro hdummy j hle hj
      by_cases hji : j = i
      · subst hji
        rw [hhere]
        rfl
      · rw [hother j hji]
        exact h.used hdummy j hle hj
    · intro hdummy
      have hempty := (h.dummy hdummy).1
      rw [hempty] at hi
      rw [gnode, hempty, show i = 0 by simpa using hi] at hv
      cases hv
      cases hcoll
    · intro j hj
      by_cases hji : j = i
      · subst hji
        rw [hhere] at hj
        exact absurd hval hj
      · rw [hother j hji] at hj ⊢
        exact h.valued j hj
    · intro j w hw
      rw [hscatter] at hw
      exact h.keyed j w hw
  refine ⟨hsound, h.lookup_congr hsound rfl ?_⟩
  intro w x hx
  constructor
  · rintro ⟨j, hkey, hj⟩
    by_cases hji : j = i
    · subst hji
      rw [hhere] at hkey
      cases hkey
    · rw [hother j hji] at hkey hj
      exact ⟨j, hkey, hj⟩
  · rintro ⟨j, hkey, hj⟩
    have hji : j ≠ i := by
      rintro rfl
      exact hx (hj.symm.trans hval)
    exact ⟨j, by rw [hother j hji, hkey], by rw [hother j hji, hj]⟩

theorem Sound.clearNodes (h : t.Sound) : t.clearNodes.Sound ∧ t.clearNodes.lookup = t.lookup := by
  unfold Table.clearNodes
  induction List.range t.sizenode with
  | nil => exact ⟨h, rfl⟩
  | cons i is ih =>
    obtain ⟨hsound, hlookup⟩ := ih
    obtain ⟨hsound', hlookup'⟩ := hsound.clearNode i
    exact ⟨hsound', hlookup'.trans hlookup⟩

end Collecting

/-! Runs -/

/-- What is done to a table: values are assigned to keys by `luaH_set`, to integers by `luaH_setnum`, the
array gets room for a list, and the collector comes by. -/
inductive Operation (N : Type) where
  | set (key v : Value N)
  | setnum (k : Int32) (v : Value N)
  | preallocate (last : ℕ)
  | collect

section Runs
variable [LuaNumber N] [LuaMemory N]

def apply (t : Table N) : Operation N → Except Abort (Table N)
  | .set key v => do
    let (t, p) ← t.luaH_set key
    return t.write p v
  | .setnum k v => do
    let (t, p) ← t.luaH_setnum k.toInt
    return t.write p v
  | .preallocate last => t.preallocate last
  | .collect => return t.clearNodes

/-- What an operation assigns. -/
def Operation.entries : Operation N → List (Value N × Value N)
  | .set key v => [(key, v)]
  | .setnum k v => [(.number (LuaNumber.ofInt k.toInt), v)]
  | .preallocate _ => []
  | .collect => []

/-- Keys are neither nil nor NaN, and arrays have no more than the most slots. -/
def Operation.Admissible : Operation N → Prop
  | .set key _ => Valid key
  | .setnum _ _ => True
  | .preallocate last => last ≤ MAXASIZE
  | .collect => True

/-- Fewer keys than a table may have entries have a value. -/
def Few (f : Value N → Value N) : Prop :=
  ∃ ks : List (Value N), ks.length < 2 ^ MAXBITS ∧ ∀ key, f key ≠ .nil → ∃ k ∈ ks, key.rawequal k = true

/-- Operations for what a table is to stand for: a map from keys to values. -/
def Fits (f : Value N → Value N) : List (Operation N) → Prop
  | [] => True
  | op :: ops => Few f ∧ op.Admissible ∧ Fits (overwrite f op.entries) ops

variable [LawfulLuaMemory N] {t t' : Table N} {op : Operation N} {ops : List (Operation N)}

/-- One operation: it succeeds, and what it assigns is found from then on. -/
theorem Sound.apply_spec (h : t.Sound) (hfew : Few t.lookup) (hop : op.Admissible) :
    ∃ t', t.apply op = .ok t' ∧ t'.Sound ∧ t'.lookup = overwrite t.lookup op.entries := by
  obtain ⟨ks, hlength, hks⟩ := hfew
  have hcount : t.entries.length < 2 ^ MAXBITS := (h.length_entries_le ks hks).trans_lt hlength
  have hset : ∀ key v : Value N, Valid key →
      ∃ t', t.apply (.set key v) = .ok t' ∧ t'.Sound ∧ t'.lookup = overwrite t.lookup [(key, v)] := by
    intro key v hkey
    obtain ⟨t', p, hrun, hsets, -⟩ := h.luaH_set_spec hkey hcount v
    refine ⟨t'.write p v, ?_, hsets.sound, funext hsets.lookup⟩
    unfold apply
    dsimp only
    rw [hrun]
    rfl
  cases op with
  | set key v => exact hset key v hop
  | setnum k v =>
    obtain ⟨t', hrun, hrest⟩ := hset (.number (LuaNumber.ofInt k.toInt)) v ⟨nofun, LawfulLuaMemory.eq_ofInt k⟩
    refine ⟨t', ?_, hrest⟩
    rw [← hrun]
    unfold apply luaH_setnum luaH_set
    dsimp only
    rw [setnumWith_eq _ _ k.le_toInt k.toInt_lt]
  | preallocate last =>
    obtain ⟨t', hrun, hsound, hlookup⟩ := h.preallocate_spec hop hcount.le
    exact ⟨t', hrun, hsound, hlookup⟩
  | collect =>
    obtain ⟨hsound, hlookup⟩ := h.clearNodes
    exact ⟨t.clearNodes, rfl, hsound, hlookup⟩

/-- A run of operations. -/
theorem Sound.run_spec (h : t.Sound) (hfits : Fits t.lookup ops) : ∃ t', ops.foldlM apply t = .ok t' ∧
    t'.Sound ∧ t'.lookup = overwrite t.lookup (ops.flatMap Operation.entries) := by
  induction ops generalizing t with
  | nil => exact ⟨t, rfl, h, rfl⟩
  | cons op ops ih =>
    obtain ⟨hfew, hop, hrest⟩ := hfits
    obtain ⟨t₁, hrun₁, hsound₁, hlookup₁⟩ := h.apply_spec hfew hop
    obtain ⟨t', hrun, hsound, hlookup⟩ := ih hsound₁ (hlookup₁ ▸ hrest)
    refine ⟨t', ?_, hsound, ?_⟩
    · rw [List.foldlM_cons, hrun₁]
      exact hrun
    · rw [hlookup, hlookup₁, List.flatMap_cons, overwrite_append]

/-- A table that has come about from a new one. -/
def Reachable (t : Table N) : Prop :=
  ∃ narray nhash : ℕ, narray ≤ MAXASIZE ∧ nhash ≤ 2 ^ MAXBITS ∧ ∃ new : Table N, luaH_new narray nhash = .ok new ∧
    ∃ ops, Fits (fun _ => .nil) ops ∧ ops.foldlM apply new = .ok t

theorem Reachable.sound (h : t.Reachable) : t.Sound := by
  obtain ⟨narray, nhash, hna, hnh, new, hnew, ops, hfits, hrun⟩ := h
  obtain ⟨t₀, hnew', hsound, hnil⟩ := luaH_new_spec (N := N) hna hnh
  cases hnew.symm.trans hnew'
  obtain ⟨t', hrun', hsound', -⟩ := hsound.run_spec (funext hnil ▸ hfits)
  cases hrun.symm.trans hrun'
  exact hsound'

/-- A table is a map: after any run of assignments, preallocations and collections a search finds the value that
has been assigned to a key last, and nothing for all other keys. -/
theorem lookup_eq_last_assigned {narray nhash : ℕ} (hna : narray ≤ MAXASIZE) (hnh : nhash ≤ 2 ^ MAXBITS)
    (hfits : Fits (fun _ => .nil) ops) :
    ∃ t : Table N, (luaH_new narray nhash >>= ops.foldlM apply) = .ok t ∧
      ∀ key, t.value (t.luaH_get key) = overwrite (fun _ => .nil) (ops.flatMap Operation.entries) key := by
  obtain ⟨t₀, hnew, hsound, hnil⟩ := luaH_new_spec (N := N) hna hnh
  obtain ⟨t', hrun, -, hlookup⟩ := hsound.run_spec (funext hnil ▸ hfits)
  refine ⟨t', ?_, ?_⟩
  · rw [hnew]
    exact hrun
  · intro key
    rw [← funext hnil, ← hlookup]
    rfl

theorem few_of_length {es : List (Value N × Value N)} (h : es.length < 2 ^ MAXBITS) :
    Few (overwrite (fun _ => .nil) es) := by
  refine ⟨es.map Prod.fst, by rwa [List.length_map], ?_⟩
  intro key hx
  by_contra hnone
  apply hx
  apply overwrite_eq_of_forall
  intro e he
  apply Bool.eq_false_iff.mpr
  intro hsame
  exact hnone ⟨e.1, List.mem_map_of_mem he, Value.rawequal_symm e.1 key hsame⟩

/-- A run with fewer assignments than a table may have entries. -/
theorem fits_of_length (es : List (Value N × Value N)) (hops : ∀ op ∈ ops, op.Admissible)
    (hlength : es.length + (ops.flatMap Operation.entries).length < 2 ^ MAXBITS) :
    Fits (overwrite (fun _ => .nil) es) ops := by
  induction ops generalizing es with
  | nil => trivial
  | cons op ops ih =>
    rw [List.flatMap_cons, List.length_append] at hlength
    refine ⟨few_of_length (by omega), hops op (List.mem_cons_self ..), ?_⟩
    rw [← overwrite_append]
    apply ih _ fun op hop => hops op (List.mem_cons_of_mem _ hop)
    rw [List.length_append]
    omega

theorem lookup_eq_last_assigned_example : ∃ t : Table ℤ,
    (luaH_new 0 0 >>= fun new => List.foldlM apply new [.set (.string [97]) (.number 1), .setnum 1 (.number 2),
      .set (.string [97]) .nil, .collect, .preallocate 4]) = .ok t ∧
      t.value (t.luaH_get (.number 1)) = .number 2 ∧ t.value (t.luaH_get (.string [97])) = .nil := by
  have hfits : Fits (fun _ : Value ℤ => .nil) [.set (.string [97]) (.number 1), .setnum 1 (.number 2),
      .set (.string [97]) .nil, .collect, .preallocate 4] := by
    apply fits_of_length []
    · simp [Operation.Admissible, Valid, Value.rawequal, MAXASIZE, MAXBITS]
    · decide
  obtain ⟨t, hrun, hlookup⟩ := lookup_eq_last_assigned (Nat.zero_le _) (Nat.zero_le _) hfits
  exact ⟨t, hrun, hlookup _, hlookup _⟩

theorem reachable_run {narray nhash : ℕ} (hna : narray ≤ MAXASIZE) (hnh : nhash ≤ 2 ^ MAXBITS)
    (hops : ∀ op ∈ ops, op.Admissible) (hlength : (ops.flatMap Operation.entries).length < 2 ^ MAXBITS) :
    ∃ t : Table N, (luaH_new narray nhash >>= fun new => ops.foldlM apply new) = .ok t ∧ t.Reachable ∧
      t.lookup = overwrite (fun _ => .nil) (ops.flatMap Operation.entries) := by
  have hfits : Fits (fun _ : Value N => .nil) ops := fits_of_length [] hops (by simpa using hlength)
  obtain ⟨t₀, hnew, hsound, hnil⟩ := luaH_new_spec (N := N) hna hnh
  obtain ⟨t, hrun, -, hlookup⟩ := hsound.run_spec (funext hnil ▸ hfits)
  refine ⟨t, ?_, ⟨narray, nhash, hna, hnh, t₀, hnew, ops, hfits, hrun⟩, funext hnil ▸ hlookup⟩
  rw [hnew]
  exact hrun

omit [LuaNumber N] [LuaMemory N] [LawfulLuaMemory N] in
/-- What a run computes is so of the table that it ends with. -/
theorem eq_of_run {β : Type} {new : Except Abort (Table N)} (f : Table N → β) {x : β} (hrun : new = .ok t)
    (h : new.toOption.map f = some x) : f t = x := by
  subst hrun
  exact Option.some.inj h

/-- The main invariant: the node of a key is on the chain of its main position, and the node in that position
is in its own one. -/
theorem main_invariant (h : t.Reachable) {i : ℕ} (hi : (t.gnode i).key.isnil = false) :
    Chains.Reaches t.gnext (t.mainposition (t.gnode i).key.key2tval) i ∧
      (t.gnode (t.mainposition (t.gnode i).key.key2tval)).key.isnil = false ∧
      t.mainposition (t.gnode (t.mainposition (t.gnode i).key.key2tval)).key.key2tval =
        t.mainposition (t.gnode i).key.key2tval := by
  have hkey : t.scatter.key i = some (t.gnode i).key.key2tval := scatter_key_iff.mpr ⟨hi, rfl⟩
  obtain ⟨u, hu, hmain⟩ := h.sound.scatter.brent i _ hkey
  obtain ⟨hnil, rfl⟩ := scatter_key_iff.mp hu
  exact ⟨h.sound.scatter.home i _ hkey, hnil, hmain⟩

/-- Two keys with the same main position. -/
theorem main_invariant_example : ∃ t : Table ℤ, t.Reachable ∧
    t.node = [⟨.number 1, .value (.lightuserdata 1), some 1⟩, ⟨.number 2, .value (.lightuserdata 2), none⟩] ∧
      Chains.Reaches t.gnext (t.mainposition (.lightuserdata 2)) 1 := by
  have hfits : Fits (fun _ : Value ℤ => .nil) [.set (.lightuserdata 1) (.number 1),
      .set (.lightuserdata 2) (.number 2)] := by
    apply fits_of_length []
    · simp [Operation.Admissible, Valid, Value.rawequal]
    · decide
  have hreach : Reachable (⟨[], [⟨.number 1, .value (.lightuserdata 1), some 1⟩,
      ⟨.number 2, .value (.lightuserdata 2), none⟩], 1, false, 1⟩ : Table ℤ) :=
    ⟨0, 2, Nat.zero_le _, by decide, _, rfl, _, hfits, rfl⟩
  exact ⟨_, hreach, rfl, (main_invariant (i := 1) hreach rfl).1⟩

/-- `luaH_set` leaves the array as large as it is, or makes it the largest that is more than half in use. -/
theorem set_sizes_array (h : t.Reachable) {key : Value N} (hkey : Valid key)
    (hcount : t.entries.length < 2 ^ MAXBITS) : ∃ t' p, t.luaH_set key = .ok (t', p) ∧
      (t'.sizearray = t.sizearray ∨ BestSize (t.keys ++ [key]) t'.sizearray) := by
  obtain ⟨t', p, hrun, -, hsize⟩ := h.sound.luaH_set_spec hkey hcount .nil
  exact ⟨t', p, hrun, hsize⟩

theorem set_sizes_array_example : ∃ t' p, luaH_set (⟨[], [emptyNode], 0, true, 0⟩ : Table ℤ) (.number 1) = .ok (t', p) ∧
    BestSize [(.number 1 : Value ℤ)] t'.sizearray := by
  have hreach : Reachable (⟨[], [emptyNode], 0, true, 0⟩ : Table ℤ) :=
    ⟨0, 0, Nat.zero_le _, Nat.zero_le _, _, rfl, [], trivial, rfl⟩
  have hkey : Valid (.number 1 : Value ℤ) := ⟨nofun, rfl⟩
  obtain ⟨t', p, hrun, hsize | hbest⟩ := set_sizes_array hreach hkey (by decide)
  · cases hrun
    cases hsize
  · exact ⟨t', p, hrun, hbest⟩

end Runs
end Table
end H1Z1Server.LuaTable
