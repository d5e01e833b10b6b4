import H1Z1Server.Lua.TableRuns

/-! Traversals of tables with `luaH_next`, and what may be done to a table in between. -/
namespace H1Z1Server.LuaTable
open LuaApi

variable {N : Type}

namespace Table

section Positions
variable {t : Table N} {p q : ℕ} {e : Value N × Value N}

/-! Places are numbered with the array first. -/

def valAt (t : Table N) (q : ℕ) : Value N :=
  if q < t.sizearray then t.array.getD q .nil else (t.gnode (q - t.sizearray)).val

theorem lt_of_valAt (h : t.valAt q ≠ .nil) : q < t.sizearray + t.node.length := by
  by_contra hle
  unfold valAt at h
  rw [if_neg (by omega), gnode_of_le (by omega)] at h
  exact h rfl

variable [LuaNumber N]

def keyAt (t : Table N) (q : ℕ) : Value N :=
  if q < t.sizearray then .number (LuaNumber.ofInt (q + 1)) else (t.gnode (q - t.sizearray)).key.key2tval

/-- The entries from a place on. -/
def entriesFrom (t : Table N) (p : ℕ) : List (Value N × Value N) :=
  ((List.range' p (t.sizearray + t.node.length - p)).filter fun q => !ttisnil (t.valAt q)).map fun q =>
    (t.keyAt q, t.valAt q)

theorem mem_entriesFrom : e ∈ t.entriesFrom p ↔ ∃ q, p ≤ q ∧ t.valAt q ≠ .nil ∧ e = (t.keyAt q, t.valAt q) := by
  unfold entriesFrom
  simp only [List.mem_map, List.mem_filter, List.mem_range'_1, Bool.not_eq_true', ttisnil_eq_false]
  constructor
  · rintro ⟨q, ⟨⟨hle, -⟩, hval⟩, rfl⟩
    exact ⟨q, hle, hval, rfl⟩
  · rintro ⟨q, hle, hval, rfl⟩
    have hlt := lt_of_valAt hval
    exact ⟨q, ⟨⟨hle, by omega⟩, hval⟩, rfl⟩

theorem entriesFrom_eq_nil : t.entriesFrom p = [] ↔ ∀ q, p ≤ q → t.valAt q = .nil := by
  rw [List.eq_nil_iff_forall_not_mem]
  constructor
  · intro hnone q hq
    by_contra hval
    exact hnone _ (mem_entriesFrom.mpr ⟨q, hq, hval, rfl⟩)
  · intro hnone e he
    obtain ⟨q, hq, hval, -⟩ := mem_entriesFrom.mp he
    exact hval (hnone q hq)

theorem entriesFrom_of_le (h : t.sizearray + t.node.length ≤ p) : t.entriesFrom p = [] := by
  unfold entriesFrom
  rw [Nat.sub_eq_zero_of_le h]
  rfl

theorem entriesFrom_step (hp : p < t.sizearray + t.node.length) : t.entriesFrom p =
    if !ttisnil (t.valAt p) then (t.keyAt p, t.valAt p) :: t.entriesFrom (p + 1) else t.entriesFrom (p + 1) := by
  unfold entriesFrom
  rw [show t.sizearray + t.node.length - p = (t.sizearray + t.node.length - (p + 1)) + 1 by omega,
    List.range'_succ, List.filter_cons]
  split <;> rfl

/-- The first entry from a place on lies somewhere behind it, with nothing in between. -/
theorem entriesFrom_cases (t : Table N) (p : ℕ) : t.entriesFrom p = [] ∨
    ∃ q, p ≤ q ∧ t.valAt q ≠ .nil ∧ (∀ r, p ≤ r → r < q → t.valAt r = .nil) ∧
      t.entriesFrom p = (t.keyAt q, t.valAt q) :: t.entriesFrom (q + 1) := by
  induction hn : t.sizearray + t.node.length - p generalizing p with
  | zero => exact .inl (entriesFrom_of_le (by omega))
  | succ n ih =>
    rw [entriesFrom_step (by omega)]
    split
    case isTrue hval =>
      rw [Bool.not_eq_true', ttisnil_eq_false] at hval
      refine .inr ⟨p, le_rfl, hval, ?_, rfl⟩
      intro r hle hlt
      omega
    case isFalse hnil =>
      rw [Bool.not_eq_true', Bool.not_eq_false, ttisnil_iff] at hnil
      rcases ih (p + 1) (by omega) with hnone | ⟨q, hle, hval, hbetween, heq⟩
      · exact .inl hnone
      · refine .inr ⟨q, by omega, hval, ?_, heq⟩
        intro r hpr hrq
        rcases Nat.eq_or_lt_of_le hpr with rfl | hlt
        · exact hnil
        · exact hbetween r hlt hrq

/-- Behind an entry come the entries behind its place. -/
theorem drop_entriesFrom (i : ℕ) (h : (t.entriesFrom p)[i]? = some e) :
    ∃ q, t.valAt q ≠ .nil ∧ e = (t.keyAt q, t.valAt q) ∧ (t.entriesFrom p).drop (i + 1) = t.entriesFrom (q + 1) := by
  induction i generalizing p with
  | zero =>
    rcases t.entriesFrom_cases p with hnone | ⟨q, -, hval, -, heq⟩
    · rw [hnone] at h
      cases h
    · rw [heq] at h ⊢
      cases h
      exact ⟨q, hval, rfl, rfl⟩
  | succ i ih =>
    rcases t.entriesFrom_cases p with hnone | ⟨q, -, -, -, heq⟩
    · rw [hnone] at h
      cases h
    · rw [heq] at h ⊢
      exact ih h

theorem entries_from (t : Table N) (p : ℕ) :
    t.arrayEntries (p + 1) ++ t.nodeEntries (p - t.sizearray) = t.entriesFrom p := by
  induction hn : t.sizearray + t.node.length - p generalizing p with
  | zero =>
    rw [entriesFrom_of_le (by omega), arrayEntries, usedFrom, nodeEntries, liveFrom,
      show t.sizearray + 1 - (p + 1) = 0 by omega, show t.node.length - (p - t.sizearray) = 0 by omega]
    rfl
  | succ n ih =>
    have hrest := ih (p + 1) (by omega)
    rw [entriesFrom_step (by omega), ← hrest]
    by_cases hp : p < t.sizearray
    · have hused : t.usedFrom (p + 1) =
          if !ttisnil (t.valAt p) then (p + 1) :: t.usedFrom (p + 1 + 1) else t.usedFrom (p + 1 + 1) := by
        unfold usedFrom valAt
        rw [show t.sizearray + 1 - (p + 1) = (t.sizearray + 1 - (p + 1 + 1)) + 1 by omega, List.range'_succ,
          List.filter_cons, if_pos hp]
        rfl
      rw [Nat.sub_eq_zero_of_le hp.le, Nat.sub_eq_zero_of_le hp, arrayEntries, hused]
      split
      · rw [List.map_cons, keyAt, valAt, if_pos hp, if_pos hp]
        rfl
      · rfl
    · have hnone : ∀ i, p < i → t.arrayEntries i = [] := by
        intro i hi
        rw [arrayEntries, usedFrom, Nat.sub_eq_zero_of_le (by omega)]
        rfl
      have hlive : t.liveFrom (p - t.sizearray) = if !ttisnil (t.valAt p) then
          (p - t.sizearray) :: t.liveFrom (p + 1 - t.sizearray) else t.liveFrom (p + 1 - t.sizearray) := by
        unfold liveFrom valAt
        rw [show t.node.length - (p - t.sizearray) = (t.node.length - (p + 1 - t.sizearray)) + 1 by omega,
          List.range'_succ, List.filter_cons, if_neg hp, Nat.sub_add_comm (not_lt.mp hp)]
      rw [hnone _ (Nat.lt_succ_self p), hnone _ (by omega), nodeEntries, hlive]
      split
      · rw [List.map_cons, keyAt, valAt, if_neg hp, if_neg hp]
        rfl
      · rfl

theorem entries_eq (t : Table N) : t.entries = t.entriesFrom 0 := by
  rw [← entries_from, Nat.zero_sub]
  rfl

theorem Sound.entriesFrom_apart [LuaMemory N] [LawfulLuaMemory N] (h : t.Sound) (p : ℕ) :
    (t.entriesFrom p).Pairwise Apart := by
  refine h.entries_apart.sublist ?_
  rw [entries_eq]
  apply List.Sublist.map
  apply List.Sublist.filter
  rcases Nat.lt_or_ge (t.sizearray + t.node.length) p with hlt | hle
  · rw [Nat.sub_eq_zero_of_le hlt.le]
    exact List.nil_sublist _
  · have happend := List.range'_append_1 (s := 0) (m := p) (n := t.sizearray + t.node.length - p)
    rw [Nat.zero_add, Nat.add_sub_cancel' hle] at happend
    rw [Nat.sub_zero, ← happend]
    exact List.sublist_append_right ..

/-! What `luaH_next` finds from a place on -/

theorem nextNode_eq (t : Table N) (count i : ℕ) (hcount : count = t.node.length - i) :
    t.nextNode count i = (t.entriesFrom (t.sizearray + i)).head? := by
  induction count generalizing i with
  | zero =>
    rw [entriesFrom_of_le (by omega)]
    rfl
  | succ count ih =>
    have hval : t.valAt (t.sizearray + i) = (t.gnode i).val := by
      rw [valAt, if_neg (by omega), Nat.add_sub_cancel_left]
    have hkey : t.keyAt (t.sizearray + i) = (t.gnode i).key.key2tval := by
      rw [keyAt, if_neg (by omega), Nat.add_sub_cancel_left]
    rw [nextNode, entriesFrom_step (by omega), hval, hkey]
    split
    · rfl
    · exact ih (i + 1) (by omega)

theorem nextArray_eq (t : Table N) (hlength : t.node.length = t.sizenode) (count p : ℕ)
    (hcount : count = t.sizearray - p) : t.nextArray count p = (t.entriesFrom p).head? := by
  induction count generalizing p with
  | zero =>
    rw [nextArray, ← hlength, nextNode_eq t _ _ rfl, show t.sizearray + (p - t.sizearray) = p by omega]
  | succ count ih =>
    have hval : t.valAt p = t.array.getD p .nil := by rw [valAt, if_pos (by omega)]
    have hkey : t.keyAt p = .number (LuaNumber.ofInt (p + 1)) := by rw [keyAt, if_pos (by omega)]
    rw [nextArray, entriesFrom_step (by omega), hval, hkey]
    split
    · rfl
    · exact ih (p + 1) (by omega)

end Positions

section Cursors
variable [LuaNumber N] [LuaMemory N] {t t' : Table N} {i p q : ℕ} {key v : Value N}

/-- The node of a key that a traversal has found, dead or alive: no other node with this key comes first. -/
structure AtNode (t : Table N) (key : Value N) (i : ℕ) : Prop where
  outside : ¬t.InArray key
  hit : ((t.gnode i).key.rawequal key || (t.gnode i).key.isDead key) = true
  home : Chains.Reaches t.gnext (t.mainposition key) i
  first : ∀ j l, t.scatter.key j = some l → l.rawequal key = true → Chains.Reaches t.gnext i j

/-- The place behind that of a key, the first for nil. -/
def Behind (t : Table N) (key : Value N) (p : ℕ) : Prop :=
  key = .nil ∧ p = 0 ∨ 1 ≤ p ∧ p ≤ t.sizearray ∧ arrayindex key = p ∨
    ∃ i, p = t.sizearray + i + 1 ∧ key ≠ .nil ∧ t.AtNode key i

omit [LuaMemory N] in
theorem key_of_hit {k : NodeKey N} (hkey : key ≠ .nil) (h : (k.rawequal key || k.isDead key) = true) :
    k.isnil = false ∧ k.key2tval.rawequal key = true := by
  rcases k with v | v
  · have hsame : v.rawequal key = true := by simpa [NodeKey.rawequal, NodeKey.isDead] using h
    refine ⟨?_, hsame⟩
    rw [Bool.eq_false_iff, ne_eq, NodeKey.isnil_iff]
    rintro ⟨⟩
    cases key <;> simp_all [Value.rawequal]
  · have hsame : iscollectable key = true ∧ v.rawequal key = true := by
      simpa [NodeKey.rawequal, NodeKey.isDead] using h
    exact ⟨rfl, hsame.2⟩

/-- A key that has been found before is found again. -/
theorem Sound.findindex_spec (h : t.Sound) (hbehind : t.Behind key p) :
    ∃ i : ℤ, t.findindex key = .ok i ∧ i + 1 = p := by
  rcases hbehind with ⟨rfl, rfl⟩ | ⟨hpos, hle, hindex⟩ | ⟨i, rfl, hkey, hat⟩
  · exact ⟨-1, rfl, rfl⟩
  · have hnil : key ≠ .nil := by
      rintro rfl
      simp [arrayindex] at hindex
    refine ⟨arrayindex key - 1, ?_, by omega⟩
    unfold findindex
    split
    · exact absurd rfl hnil
    · dsimp only
      rw [if_pos (by omega)]
  · refine ⟨i + t.sizearray, ?_, by push_cast; ring⟩
    have hchains : Chains.Sound t.gnext := h.scatter.chains
    have hbounded : ∀ a b, t.gnext a = some b → b < t.sizenode := h.scatter.bounded
    have hsearch : t.search (fun n => n.key.rawequal key || n.key.isDead key) (t.mainposition key) = some i := by
      unfold search
      cases hfind : Chains.find (fun i => (t.gnode i).key.rawequal key || (t.gnode i).key.isDead key) t.gnext
          t.sizenode (t.mainposition key) with
      | none =>
        rw [Chains.find_eq_none_iff hbounded hchains (t.mainposition_lt key)] at hfind
        have hmiss := hfind i hat.home
        rw [hat.hit] at hmiss
        cases hmiss
      | some j =>
        obtain ⟨-, hj⟩ := Chains.reaches_of_find hbounded hchains (t.mainposition_lt key) hfind
        have hji := Chains.find_first hbounded hchains (t.mainposition_lt key) hfind hat.home
          hat.hit
        obtain ⟨hnil, hsame⟩ := key_of_hit hkey hj
        have hij := hat.first j _ (scatter_key_iff.mpr ⟨hnil, rfl⟩) hsame
        obtain ⟨l, hl⟩ := hchains.ends j
        rw [hji.antisymm hij hl]
    have hout := hat.outside
    unfold findindex
    split
    · exact absurd rfl hkey
    · dsimp only
      rw [if_neg (fun hin => hout ⟨by omega, by omega⟩), hsearch]

/-- `luaH_next` returns the first entry behind a key. -/
theorem Sound.luaH_next_spec (h : t.Sound) (hbehind : t.Behind key p) :
    t.luaH_next key = .ok (t.entriesFrom p).head? := by
  obtain ⟨i, hfind, hi⟩ := h.findindex_spec hbehind
  unfold luaH_next
  rw [hfind]
  have hp : (i + 1).toNat = p := by omega
  simp only [bind, Except.bind, hp]
  rw [nextArray_eq t h.length _ _ rfl]
  rfl

variable [LawfulLuaMemory N]

/-- A traversal goes on behind what it has found. -/
theorem Sound.behind_of_valAt (h : t.Sound) (hval : t.valAt q ≠ .nil) (hsame : (t.keyAt q).rawequal key = true) :
    t.Behind key (q + 1) := by
  unfold valAt at hval
  unfold keyAt at hsame
  split at hval
  case isTrue hq =>
    rw [if_pos hq] at hsame
    have hindex := h.arrayindex_entry (Nat.succ_pos q) hq
    push_cast at hindex
    have hkey := arrayindex_congr hsame
    exact .inr (.inl ⟨by omega, hq, by push_cast; exact hkey ▸ hindex⟩)
  case isFalse hq =>
    rw [if_neg hq] at hsame
    obtain ⟨v, hv, hnil, -, hout⟩ := h.node_entry hval
    have hkey := scatter_key_of_value hv hnil
    rw [hv] at hsame
    replace hsame : v.rawequal key = true := hsame
    have hhome := h.scatter.home _ v hkey
    refine .inr (.inr ⟨q - t.sizearray, by omega, ?_, ?_, ?_, ?_, ?_⟩)
    · rintro rfl
      cases v <;> simp_all [Value.rawequal]
    · unfold InArray at hout ⊢
      rwa [← arrayindex_congr hsame]
    · rw [hv, Bool.or_eq_true]
      exact .inl hsame
    · rw [← t.mainposition_congr hsame]
      exact hhome
    · intro j l hl hlkey
      have hsame' := Value.rawequal_trans v key l hsame (Value.rawequal_symm l key hlkey)
      cases hkilled : t.scatter.killed j with
      | true => exact h.scatter.first _ j v l hkey hl (scatter_alive hv) hkilled hsame'
      | false =>
        rw [h.scatter.unique _ j v l hkey hl (scatter_alive hv) hkilled hsame']
        exact .refl j

omit [LawfulLuaMemory N] in
/-- What keeps all places and chains keeps the place behind a key. -/
theorem Behind.congr (hbehind : t.Behind key p) (hsize : t'.sizearray = t.sizearray)
    (hlsize : t'.lsizenode = t.lsizenode)
    (hkey : ∀ j, t'.scatter.key j = t.scatter.key j) (hnext : t'.gnext = t.gnext)
    (hhit : ∀ j, ((t.gnode j).key.rawequal key || (t.gnode j).key.isDead key) = true →
      ((t'.gnode j).key.rawequal key || (t'.gnode j).key.isDead key) = true) : t'.Behind key p := by
  unfold Behind at hbehind ⊢
  rw [hsize]
  rcases hbehind with hstart | harray | ⟨i, hp, hnil, hat⟩
  · exact .inl hstart
  · exact .inr (.inl harray)
  · refine .inr (.inr ⟨i, hp, hnil, ?_, hhit i hat.hit, ?_, ?_⟩)
    · rw [inArray_iff hsize]
      exact hat.outside
    · rw [hnext, mainposition_eq hlsize]
      exact hat.home
    · intro j l hl
      rw [hnext]
      exact hat.first j l (hkey j ▸ hl)

end Cursors
section Stable
variable [LuaNumber N] [LuaMemory N] {t t' : Table N} {i p q : ℕ} {key v x : Value N} {s : Slot}

/-- The table `t'` has the keys of `t` in their places, dead or alive, and values for none but those that
had one. -/
structure Stable (t t' : Table N) : Prop where
  sound : t'.Sound
  valAt : ∀ q, t'.valAt q ≠ .nil → t.valAt q ≠ .nil
  keyAt : ∀ q, t'.keyAt q = t.keyAt q
  behind : ∀ key p, t.Behind key p → t'.Behind key p

theorem Stable.refl (h : t.Sound) : Stable t t := ⟨h, fun _ => id, fun _ => rfl, fun _ _ => id⟩

theorem Stable.trans {t'' : Table N} (h : Stable t t') (h' : Stable t' t'') : Stable t t'' where
  sound := h'.sound
  valAt q hq := h.valAt q (h'.valAt q hq)
  keyAt q := (h'.keyAt q).trans (h.keyAt q)
  behind key p hp := h'.behind key p (h.behind key p hp)

variable [LawfulLuaMemory N]

/-- An existing field gets another value, or none. -/
theorem Sound.stable_write (h : t.Sound) (hget : t.luaH_get key = some s) (hx : t.lookup key ≠ .nil)
    (v : Value N) : Stable t (t.write s v) where
  sound := h.write hget v
  valAt q hq := by
    have hread : t.read s ≠ .nil := by
      rw [lookup, hget] at hx
      exact hx
    unfold Table.valAt at hq ⊢
    rw [sizearray_write] at hq
    split at hq
    case isTrue hlt =>
      rw [if_pos hlt]
      cases s with
      | node i => exact hq
      | array i =>
        by_cases hi : i = q
        · subst hi
          exact hread
        · simpa [Table.write, List.getD_eq_getElem?_getD, hi] using hq
    case isFalse hge =>
      rw [if_neg hge]
      cases s with
      | array i => exact hq
      | node i =>
        by_cases hi : q - t.sizearray = i
        · rw [hi]
          exact hread
        · rcases h.luaH_get_some hget with ⟨j, -, heq, -⟩ | ⟨j, w, hj, heq, -⟩
          · cases heq
          · cases heq
            rwa [gnode_write_node hj, Function.update_of_ne hi] at hq
  keyAt q := by
    unfold Table.keyAt
    rw [sizearray_write, (gnode_write t s v _).1]
  behind key p hp := by
    apply hp.congr (sizearray_write ..) (lsizenode_write ..)
    · intro j
      rw [scatter_write]
    · exact congrArg Scatter.next (scatter_write t s v)
    · intro j hj
      rwa [(gnode_write t s v j).1]

/-- The collector kills keys in their places. -/
theorem Sound.stable_clearNode (h : t.Sound) (i : ℕ) : Stable t (t.clearNode i) := by
  have hsound := (h.clearNode i).1
  rcases t.clearNode_spec i with hsame | ⟨v, hv, hcoll, hval, hi, heq⟩
  · rw [hsame]
    exact .refl h
  have hnil : v ≠ .nil := by
    rintro rfl
    cases hcoll
  have hscatter := scatter_killed hi hv hnil
  rw [heq] at hsound ⊢
  have hnode : ∀ j, ((t.setNode i { t.gnode i with key := .deadkey v }).gnode j).val = (t.gnode j).val ∧
      ((t.setNode i { t.gnode i with key := .deadkey v }).gnode j).key.key2tval = (t.gnode j).key.key2tval ∧
      (((t.setNode i { t.gnode i with key := .deadkey v }).gnode j).key = (t.gnode j).key ∨
        (t.gnode j).key = .value v ∧ ((t.setNode i { t.gnode i with key := .deadkey v }).gnode j).key = .deadkey v) := by
    intro j
    rw [gnode_setNode hi]
    by_cases hj : j = i
    · subst hj
      rw [Function.update_self, hv]
      exact ⟨rfl, rfl, .inr ⟨rfl, rfl⟩⟩
    · rw [Function.update_of_ne hj]
      exact ⟨rfl, rfl, .inl rfl⟩
  refine ⟨hsound, ?_, ?_, ?_⟩
  · intro q hq
    unfold Table.valAt at hq ⊢
    rw [(hnode _).1] at hq
    exact hq
  · intro q
    unfold Table.keyAt
    rw [(hnode _).2.1]
    rfl
  · intro key p hp
    refine hp.congr rfl rfl ?_ ?_ ?_
    · intro j
      rw [hscatter]
      rfl
    · exact congrArg Scatter.next hscatter
    · intro j hj
      rcases (hnode j).2.2 with hsame | ⟨hj', hkilled⟩
      · rwa [hsame]
      · have hsame : v.rawequal key = true := by simpa [hj', NodeKey.rawequal, NodeKey.isDead] using hj
        have hkey : iscollectable key = true := by
          rcases Value.rawequal_iff.mp hsame with ⟨a, b, rfl, -⟩ | ⟨-, rfl⟩
          · cases hcoll
          · exact hcoll
        rw [hkilled]
        simp [NodeKey.rawequal, NodeKey.isDead, hkey, hsame]

theorem Sound.stable_clearNodes (h : t.Sound) : Stable t t.clearNodes := by
  unfold Table.clearNodes
  induction List.range t.sizenode with
  | nil => exact .refl h
  | cons i is ih => exact ih.trans (ih.sound.stable_clearNode i)

end Stable
end Table

/-! Traversals -/

/-- A loop that calls `luaH_next` with the key that it has returned, until there is none. -/
structure Traversal (N : Type) where
  table : Table N
  key : Value N
  visited : List (Value N × Value N)
  done : Bool

/-- A turn of the loop, or what happens to the table in between. -/
inductive Turn (N : Type) where
  | next
  | set (key v : Value N)
  | collect

namespace Traversal
open Table

section Steps
variable [LuaNumber N] [LuaMemory N]

def start (t : Table N) : Traversal N := ⟨t, .nil, [], false⟩

def step (s : Traversal N) : Turn N → Except Abort (Traversal N)
  | .next => do
    if s.done then return s
    else match ← s.table.luaH_next s.key with
      | some e => return { s with key := e.1, visited := s.visited ++ [e] }
      | none => return { s with done := true }
  | .set key v => do
    let (t, p) ← s.table.luaH_set key
    return { s with table := t.write p v }
  | .collect => return { s with table := s.table.clearNodes }

/-- What has been assigned in between. -/
def assigned (turns : List (Turn N)) : List (Value N × Value N) :=
  turns.filterMap fun
    | .set key v => some (key, v)
    | _ => none

omit [LuaNumber N] [LuaMemory N] in
theorem assigned_append (turns turns' : List (Turn N)) :
    assigned (turns ++ turns') = assigned turns ++ assigned turns' := List.filterMap_append ..

/-- Only fields that exist are assigned to. -/
def Modifies (f : Value N → Value N) (turns : List (Turn N)) : Prop :=
  ∀ before key v, before ++ [.set key v] <+: turns → overwrite f (assigned before) key ≠ .nil

/-- A call of `luaH_next` among these turns has returned the entry, with the value that the key had then. -/
def Returned (t : Table N) (turns : List (Turn N)) (e : Value N × Value N) : Prop :=
  ∃ before s s', before ++ [.next] <+: turns ∧ before.foldlM step (start t) = .ok s ∧ s.step .next = .ok s' ∧
    s'.visited = s.visited ++ [e] ∧ overwrite t.lookup (assigned before) e.1 = e.2

theorem Returned.mono {t : Table N} {turns turns' : List (Turn N)} {e : Value N × Value N}
    (h : Returned t turns e) (hturns : turns <+: turns') : Returned t turns' e := by
  obtain ⟨before, s, s', hbefore, hreturned⟩ := h
  exact ⟨before, s, s', hbefore.trans hturns, hreturned⟩

/-- All entries in front of a place have been visited, none behind it has been. -/
structure Progress (t : Table N) (turns : List (Turn N)) (s : Traversal N) (p : ℕ) : Prop where
  sound : s.table.Sound
  lookup : s.table.lookup = overwrite t.lookup (assigned turns)
  existed : ∀ key, s.table.lookup key ≠ .nil → t.lookup key ≠ .nil
  behind : s.table.Behind s.key p
  before : ∀ q < p, s.table.valAt q ≠ .nil → ∃ e ∈ s.visited, e.1.rawequal (s.table.keyAt q) = true
  ahead : ∀ q, p ≤ q → s.table.valAt q ≠ .nil → ∀ e ∈ s.visited, e.1.rawequal (s.table.keyAt q) = false
  apart : s.visited.Pairwise Apart
  visited : ∀ e ∈ s.visited, t.lookup e.1 ≠ .nil ∧ Returned t turns e
  done : s.done = true → s.table.entriesFrom p = []

variable {t t' : Table N} {turns turns' : List (Turn N)} {s : Traversal N} {p : ℕ}

theorem Progress.start (h : t.Sound) : Progress t [] (start t) 0 where
  sound := h
  lookup := rfl
  existed _ := id
  behind := .inl ⟨rfl, rfl⟩
  before q hq := absurd hq (Nat.not_lt_zero q)
  ahead _ _ _ _ he := by cases he
  apart := .nil
  visited _ he := by cases he
  done h := by cases h

/-- What happens to the table in between does not disturb a traversal. -/
theorem Progress.stable (h : Progress t turns s p) (hstable : Stable s.table t') (hturns : turns <+: turns')
    (hlookup : t'.lookup = overwrite t.lookup (assigned turns'))
    (hexisted : ∀ key, t'.lookup key ≠ .nil → s.table.lookup key ≠ .nil) :
    Progress t turns' { s with table := t' } p where
  sound := hstable.sound
  lookup := hlookup
  existed key hx := h.existed key (hexisted key hx)
  behind := hstable.behind s.key p h.behind
  before q hq hval := by
    rw [hstable.keyAt]
    exact h.before q hq (hstable.valAt q hval)
  ahead q hq hval := by
    rw [hstable.keyAt]
    exact h.ahead q hq (hstable.valAt q hval)
  apart := h.apart
  visited e he := by
    obtain ⟨hx, hreturned⟩ := h.visited e he
    exact ⟨hx, hreturned.mono hturns⟩
  done hdone := by
    rw [entriesFrom_eq_nil]
    intro q hq
    by_contra hval
    exact hstable.valAt q hval (entriesFrom_eq_nil.mp (h.done hdone) q hq)

theorem Progress.idle (h : Progress t turns s p) : Progress t (turns ++ [.next]) s p := by
  have hassigned : assigned (turns ++ [.next]) = assigned turns := by
    rw [assigned_append]
    exact List.append_nil _
  refine ⟨h.sound, hassigned.symm ▸ h.lookup, h.existed, h.behind, h.before, h.ahead, h.apart, ?_, h.done⟩
  intro e he
  obtain ⟨hx, hreturned⟩ := h.visited e he
  exact ⟨hx, hreturned.mono (List.prefix_append ..)⟩

variable [LawfulLuaMemory N]

/-- `luaH_next` returns the next entry, which has not been visited. -/
theorem Progress.visit (hrun : turns.foldlM step (Traversal.start t) = .ok s) (h : Progress t turns s p) {q : ℕ}
    (hpq : p ≤ q) (hval : s.table.valAt q ≠ .nil) (hbetween : ∀ r, p ≤ r → r < q → s.table.valAt r = .nil)
    (heq : s.table.entriesFrom p = (s.table.keyAt q, s.table.valAt q) :: s.table.entriesFrom (q + 1))
    (hnot : s.done = false)
    (hstep : s.step .next = .ok { s with
      key := s.table.keyAt q, visited := s.visited ++ [(s.table.keyAt q, s.table.valAt q)] }) :
    Progress t (turns ++ [.next]) { s with
      key := s.table.keyAt q, visited := s.visited ++ [(s.table.keyAt q, s.table.valAt q)] } (q + 1) := by
  have hentry : (s.table.keyAt q, s.table.valAt q) ∈ s.table.entries := by
    rw [entries_eq]
    exact mem_entriesFrom.mpr ⟨q, Nat.zero_le q, hval, rfl⟩
  have hself := (h.sound.valid_entry hentry).1.2
  have hlookup := h.sound.lookup_entry hentry hself
  have hahead := h.ahead q hpq hval
  have hrest := h.sound.entriesFrom_apart p
  rw [heq, List.pairwise_cons] at hrest
  have hidle := h.idle
  refine ⟨h.sound, hidle.lookup, h.existed, h.sound.behind_of_valAt hval hself, ?_, ?_, ?_, ?_, ?_⟩
  · intro r hr hvalr
    rcases Nat.lt_succ_iff_lt_or_eq.mp hr with hr | rfl
    · rcases Nat.lt_or_ge r p with hrp | hpr
      · obtain ⟨e, he, hkey⟩ := h.before r hrp hvalr
        exact ⟨e, List.mem_append_left _ he, hkey⟩
      · exact absurd (hbetween r hpr hr) hvalr
    · exact ⟨_, List.mem_append_right _ (List.mem_singleton_self _), hself⟩
  · intro r hr hvalr e he
    rcases List.mem_append.mp he with he | he
    · exact h.ahead r (by omega) hvalr e he
    · obtain rfl := List.mem_singleton.mp he
      exact hrest.1 _ (mem_entriesFrom.mpr ⟨r, hr, hvalr, rfl⟩)
  · rw [List.pairwise_append]
    refine ⟨h.apart, List.pairwise_singleton .., ?_⟩
    intro d hd e he
    obtain rfl := List.mem_singleton.mp he
    exact hahead d hd
  · intro e he
    rcases List.mem_append.mp he with he | he
    · exact hidle.visited e he
    · obtain rfl := List.mem_singleton.mp he
      refine ⟨h.existed _ (hlookup.symm ▸ hval), turns, s, _, List.prefix_refl _, hrun, hstep, rfl, ?_⟩
      rw [← h.lookup]
      exact hlookup
  · intro hdone
    rw [hnot] at hdone
    cases hdone

theorem Progress.next (hrun : turns.foldlM step (Traversal.start t) = .ok s) (h : Progress t turns s p) :
    ∃ s' p', s.step .next = .ok s' ∧ Progress t (turns ++ [.next]) s' p' := by
  by_cases hdone : s.done = true
  · refine ⟨s, p, ?_, h.idle⟩
    unfold step
    dsimp only
    rw [if_pos hdone]
    rfl
  · have hnext := h.sound.luaH_next_spec h.behind
    rcases s.table.entriesFrom_cases p with hnone | ⟨q, hpq, hval, hbetween, heq⟩
    · have hidle := h.idle
      refine ⟨{ s with done := true }, p, ?_, hidle.sound, hidle.lookup, hidle.existed, hidle.behind, hidle.before,
        hidle.ahead, hidle.apart, hidle.visited, fun _ => hnone⟩
      unfold step
      dsimp only
      rw [if_neg hdone, hnext, hnone]
      rfl
    · have hstep : s.step .next = .ok { s with
          key := s.table.keyAt q, visited := s.visited ++ [(s.table.keyAt q, s.table.valAt q)] } := by
        unfold step
        dsimp only
        rw [if_neg hdone, hnext, heq]
        rfl
      exact ⟨_, q + 1, hstep, h.visit hrun hpq hval hbetween heq (Bool.eq_false_iff.mpr hdone) hstep⟩

theorem Progress.set (h : Progress t turns s p) {key : Value N} (v : Value N)
    (hx : overwrite t.lookup (assigned turns) key ≠ .nil) :
    ∃ s' p', s.step (.set key v) = .ok s' ∧ Progress t (turns ++ [.set key v]) s' p' := by
  rw [← h.lookup] at hx
  cases hget : s.table.luaH_get key with
  | none =>
    rw [Table.lookup, hget] at hx
    exact absurd rfl hx
  | some slot =>
    have hset : s.table.luaH_set key = .ok (s.table, slot) := by
      unfold luaH_set setWith
      rw [hget]
    have hwrite := h.sound.lookup_write hget v
    refine ⟨{ s with table := s.table.write slot v }, p, ?_, ?_⟩
    · unfold step
      dsimp only
      rw [hset]
      rfl
    · apply h.stable (h.sound.stable_write hget hx v) (List.prefix_append ..)
      · rw [assigned_append, overwrite_append, ← h.lookup]
        exact funext hwrite
      · intro key' hx'
        rw [hwrite] at hx'
        split at hx'
        case isTrue hsame =>
          rwa [Table.lookup, luaH_get_congr hsame] at hx
        case isFalse => exact hx'

theorem Progress.collect (h : Progress t turns s p) :
    ∃ s' p', s.step .collect = .ok s' ∧ Progress t (turns ++ [.collect]) s' p' := by
  have hclear := h.sound.clearNodes.2
  refine ⟨_, p, rfl, h.stable h.sound.stable_clearNodes (List.prefix_append ..) ?_ ?_⟩
  · rw [assigned_append, hclear, h.lookup]
    exact congrArg _ (List.append_nil _).symm
  · intro key hx
    rwa [hclear] at hx

/-- While fields that exist are modified or cleared, and keys are collected, no call of `luaH_next` fails, no
key is visited twice, each entry is returned with the value that its key has then, and at the end all keys
that still have a value have been visited. -/
theorem traversal_visits_once (h : t.Reachable) (hmodifies : Modifies t.lookup turns) :
    ∃ s', turns.foldlM step (start t) = .ok s' ∧ s'.visited.Pairwise Apart ∧
      (∀ e ∈ s'.visited, t.lookup e.1 ≠ .nil ∧ Returned t turns e) ∧
      (s'.done = true → ∀ key, s'.table.lookup key ≠ .nil → ∃ e ∈ s'.visited, e.1.rawequal key = true) := by
  have hprogress : ∃ s' p, turns.foldlM step (start t) = .ok s' ∧ Progress t turns s' p := by
    induction turns using List.reverseRecOn with
    | nil => exact ⟨_, 0, rfl, .start h.sound⟩
    | append_singleton turns turn ih =>
      obtain ⟨s', p, hrun, hprogress⟩ := ih fun before key v hbefore =>
        hmodifies before key v (hbefore.trans (List.prefix_append ..))
      have hturn : ∃ s'' p', s'.step turn = .ok s'' ∧ Progress t (turns ++ [turn]) s'' p' := by
        cases turn with
        | next => exact hprogress.next hrun
        | set key v => exact hprogress.set v (hmodifies turns key v (List.prefix_refl _))
        | collect => exact hprogress.collect
      obtain ⟨s'', p', hstep, hprogress'⟩ := hturn
      refine ⟨s'', p', ?_, hprogress'⟩
      rw [List.foldlM_append, hrun]
      change [turn].foldlM step s' = _
      rw [List.foldlM_cons, hstep]
      rfl
  obtain ⟨s', p, hrun, hprogress⟩ := hprogress
  refine ⟨s', hrun, hprogress.apart, hprogress.visited, ?_⟩
  intro hdone key hx
  obtain ⟨e, he, hkey, -⟩ := hprogress.sound.exists_entry hx
  rw [entries_eq] at he
  obtain ⟨q, -, hval, rfl⟩ := mem_entriesFrom.mp he
  rcases Nat.lt_or_ge q p with hq | hq
  · obtain ⟨d, hd, hsame⟩ := hprogress.before q hq hval
    exact ⟨d, hd, Value.rawequal_trans d.1 _ key hsame hkey⟩
  · exact absurd (entriesFrom_eq_nil.mp (hprogress.done hdone) q hq) hval

/-- The first entry is cleared once it has been visited. -/
theorem traversal_visits_once_example : ∃ t : Table ℤ, t.Reachable ∧ ∃ s',
    [Turn.next, .set (.number 1) .nil, .collect, .next].foldlM step (start t) = .ok s' ∧
      s'.visited = [(.number 1, .number 10), (.string [97], .number 20)] ∧ s'.visited.Pairwise Apart ∧
      ∀ e ∈ s'.visited, Returned t [.next, .set (.number 1) .nil, .collect, .next] e := by
  have hops : ∀ op ∈ [Operation.set (.number (1 : ℤ)) (.number 10), .set (.string [97]) (.number 20)],
      op.Admissible := by
    simp only [List.forall_mem_cons, Operation.Admissible, Valid]
    exact ⟨⟨by simp, rfl⟩, ⟨by simp, rfl⟩, by simp⟩
  obtain ⟨t, htable, hreach, hlookup⟩ :=
    reachable_run (Nat.zero_le MAXASIZE) (Nat.zero_le (2 ^ MAXBITS)) hops (by decide)
  have hmodifies : Modifies t.lookup [.next, .set (.number 1) .nil, .collect, .next] := by
    rintro before key v ⟨rest, hrest⟩
    have hbefore : before = [.next] ∧ key = .number 1 := by
      cases before with
      | nil => simp at hrest
      | cons a before =>
        cases before with
        | nil => simp_all
        | cons b before =>
          cases before with
          | nil => simp at hrest
          | cons c before =>
            cases before with
            | nil => simp at hrest
            | cons d before => simp at hrest
    obtain ⟨rfl, rfl⟩ := hbefore
    rw [hlookup]
    decide
  obtain ⟨s', hrun, hapart, hreturned, -⟩ := traversal_visits_once hreach hmodifies
  have hvisited := eq_of_run (fun t => ([Turn.next, .set (.number 1) .nil, .collect, .next].foldlM step
    (start t)).toOption.map visited) htable rfl
  rw [hrun] at hvisited
  exact ⟨t, hreach, s', hrun, Option.some.inj hvisited, hapart, fun e he => (hreturned e he).2⟩

end Steps
end Traversal
end H1Z1Server.LuaTable
