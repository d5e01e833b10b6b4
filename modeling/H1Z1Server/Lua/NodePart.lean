import H1Z1Server.Library.ScatterTable
import H1Z1Server.Lua.Table
import Mathlib.Data.List.GetD

/-! The nodes of a table: what they keep, and what a new key does to them. -/
namespace H1Z1Server.LuaTable
open LuaApi

/-- What the hashes and the conversions to integers make of numbers that are equal. -/
class LawfulLuaMemory (N : Type) [LuaNumber N] [LuaMemory N] : Prop extends LawfulLuaNumber N where
  toInteger_congr : ∀ a b : N, LuaNumber.eq a b = true → LuaNumber.toInteger a = LuaNumber.toInteger b
  ints_congr : ∀ a b : N, LuaNumber.eq a b = true → LuaNumber.eq a (LuaNumber.ofInt 0) = false →
    LuaMemory.ints a = LuaMemory.ints b
  toInteger_ofInt : ∀ k : Int32, LuaNumber.toInteger (LuaNumber.ofInt k.toInt : N) = k
  eq_ofInt : ∀ k : Int32, LuaNumber.eq (LuaNumber.ofInt k.toInt : N) (LuaNumber.ofInt k.toInt) = true

instance : LawfulLuaMemory ℤ where
  toInteger_congr _ _ h := congrArg Int32.ofInt (of_decide_eq_true h)
  ints_congr _ _ h _ := congrArg (fun n => UInt32.ofNat n.natAbs) (of_decide_eq_true h)
  toInteger_ofInt k := Int32.ofInt_toInt k
  eq_ofInt _ := decide_eq_true rfl

variable {N : Type}

theorem ttisnil_iff {v : Value N} : ttisnil v = true ↔ v = .nil := by
  cases v <;> simp [ttisnil]

theorem ttisnil_eq_false {v : Value N} : ttisnil v = false ↔ v ≠ .nil := by
  rw [← Bool.not_eq_true, ttisnil_iff]

theorem NodeKey.isnil_iff {k : NodeKey N} : k.isnil = true ↔ k = .value .nil := by
  rcases k with v | v
  · cases v <;> simp [NodeKey.isnil]
  · simp [NodeKey.isnil]

section Indices
variable [LuaNumber N] {v : Value N}

/-- A key that is an array index is the number of the index. -/
theorem rawequal_of_arrayindex (h : 0 < arrayindex v) :
    (Value.number (LuaNumber.ofInt (arrayindex v)) : Value N).rawequal v = true := by
  unfold arrayindex at h ⊢
  split at h
  case h_1 n =>
    dsimp only at h ⊢
    split at h
    case isTrue heq =>
      rw [if_pos heq]
      exact heq
    case isFalse => omega
  case h_2 => omega

end Indices

section Numbers
variable [LuaNumber N] [LuaMemory N] [LawfulLuaMemory N] {v w : Value N}

theorem numeq_congr_left {a b : N} (h : LuaNumber.eq a b = true) (c : N) :
    LuaNumber.eq a c = LuaNumber.eq b c := by
  rw [Bool.eq_iff_iff]
  exact ⟨fun hac => LawfulLuaNumber.eq_trans b a c (LawfulLuaNumber.eq_symm a b h) hac,
    fun hbc => LawfulLuaNumber.eq_trans a b c h hbc⟩

theorem numeq_congr_right {a b : N} (h : LuaNumber.eq a b = true) (c : N) :
    LuaNumber.eq c a = LuaNumber.eq c b := by
  rw [Bool.eq_iff_iff]
  exact ⟨fun hca => LawfulLuaNumber.eq_trans c a b hca h,
    fun hcb => LawfulLuaNumber.eq_trans c b a hcb (LawfulLuaNumber.eq_symm a b h)⟩

omit [LuaMemory N] [LawfulLuaMemory N] in
theorem NodeKey.rawequal_congr [LawfulLuaNumber N] (h : v.rawequal w = true) (k : NodeKey N) :
    k.rawequal v = k.rawequal w := by
  rcases k with u | u
  · rw [NodeKey.rawequal, NodeKey.rawequal, Bool.eq_iff_iff]
    exact ⟨fun hu => Value.rawequal_trans u v w hu h,
      fun hu => Value.rawequal_trans u w v hu (Value.rawequal_symm v w h)⟩
  · rfl

theorem arrayindex_congr (h : v.rawequal w = true) : arrayindex v = arrayindex w := by
  rcases Value.rawequal_iff.mp h with ⟨a, b, rfl, rfl, hab⟩ | ⟨-, rfl⟩
  · simp only [arrayindex, LawfulLuaMemory.toInteger_congr a b hab, numeq_congr_right hab]
  · rfl

theorem arrayindex_number {k : ℤ} (hlo : -2 ^ 31 ≤ k) (hlt : k < 2 ^ 31) :
    arrayindex (.number (LuaNumber.ofInt k) : Value N) = k := by
  have hk : (Int32.ofInt k).toInt = k := Int32.toInt_ofInt_of_le hlo hlt
  have hint := LawfulLuaMemory.toInteger_ofInt (N := N) (Int32.ofInt k)
  have heq := LawfulLuaMemory.eq_ofInt (N := N) (Int32.ofInt k)
  rw [hk] at hint heq
  simp only [arrayindex, hint, hk, heq, if_true]

theorem rawequal_iff_arrayindex (h : 0 < arrayindex v) : v.rawequal w = true ↔ arrayindex w = arrayindex v := by
  constructor
  · exact fun hvw => (arrayindex_congr hvw).symm
  · intro hw
    have hv := rawequal_of_arrayindex h
    have hw' := rawequal_of_arrayindex (hw ▸ h)
    rw [hw] at hw'
    exact Value.rawequal_trans v _ w (Value.rawequal_symm _ v hv) hw'

end Numbers

namespace Table
variable {t : Table N} {i j : ℕ} {key v w : Value N} {n : Node N}

theorem sizenode_pos (t : Table N) : 0 < t.sizenode := Nat.two_pow_pos _

theorem gnode_setNode (hi : i < t.node.length) (n : Node N) :
    (t.setNode i n).gnode = Function.update t.gnode i n := by
  funext j
  unfold gnode setNode
  by_cases hij : j = i
  · subst hij
    simp [hi]
  · rw [Function.update_of_ne hij]
    simp [List.getD_eq_getElem?_getD, Ne.symm hij]

theorem gnode_of_le (hi : t.node.length ≤ i) : t.gnode i = emptyNode := by
  unfold gnode
  rw [List.getD_eq_default _ _ hi]

/-- The nodes as a chained scatter table. -/
def scatter (t : Table N) : Scatter (Value N) where
  key i := if (t.gnode i).key.isnil then none else some (t.gnode i).key.key2tval
  killed i := match (t.gnode i).key with
    | .value _ => false
    | .deadkey _ => true
  next := t.gnext

theorem scatter_key_iff : t.scatter.key i = some v ↔
    (t.gnode i).key.isnil = false ∧ (t.gnode i).key.key2tval = v := by
  unfold scatter
  dsimp only
  split
  · simp [*]
  · simp [*]

theorem scatter_key_of_value (h : (t.gnode i).key = .value v) (hv : v ≠ .nil) : t.scatter.key i = some v := by
  rw [scatter_key_iff, h]
  refine ⟨?_, rfl⟩
  rw [Bool.eq_false_iff, ne_eq, NodeKey.isnil_iff]
  simpa using hv

theorem scatter_alive (h : (t.gnode i).key = .value v) : t.scatter.killed i = false := by
  unfold scatter
  simp only [h]

theorem scatter_hit [LuaNumber N] (hkey : key ≠ .nil) (i : ℕ) :
    t.scatter.hit Value.rawequal key i = (t.gnode i).key.rawequal key := by
  unfold Scatter.hit scatter
  dsimp only
  generalize (t.gnode i).key = k
  rcases k with v | v
  · cases v with
    | nil => cases key <;> simp_all [NodeKey.isnil, NodeKey.rawequal, Value.rawequal]
    | _ => simp [NodeKey.isnil, NodeKey.rawequal, NodeKey.key2tval]
  · simp [NodeKey.rawequal]

/-- How many nodes have never been used. -/
def free (t : Table N) : ℕ := ((Finset.range t.sizenode).filter fun i => (t.gnode i).key.isnil).card

theorem free_pos_iff : 0 < t.free ↔ ∃ i, i < t.sizenode ∧ (t.gnode i).key.isnil = true := by
  unfold free
  rw [Finset.card_pos]
  simp [Finset.Nonempty]

/-- One node is taken at most. -/
theorem free_le {t' : Table N} (hsize : t'.lsizenode = t.lsizenode)
    (hnil : ∀ j, j ≠ i → (t.gnode j).key.isnil = true → (t'.gnode j).key.isnil = true) : t.free ≤ t'.free + 1 := by
  have hsub : ((Finset.range t.sizenode).filter fun i => (t.gnode i).key.isnil) ⊆
      insert i ((Finset.range t'.sizenode).filter fun i => (t'.gnode i).key.isnil) := by
    intro j hj
    rw [Finset.mem_filter] at hj
    rw [Finset.mem_insert, Finset.mem_filter]
    by_cases hji : j = i
    · exact .inl hji
    · refine .inr ⟨?_, hnil j hji hj.2⟩
      unfold sizenode at hj ⊢
      rw [hsize]
      exact hj.1
  exact (Finset.card_le_card hsub).trans (Finset.card_insert_le _ _)

theorem hashpow2_lt (t : Table N) (n : ℕ) : t.hashpow2 n < t.sizenode := by
  unfold hashpow2
  have hpos := t.sizenode_pos
  have hle := Nat.and_le_right (n := n) (m := t.sizenode - 1)
  omega

theorem hashmod_lt (t : Table N) (n : ℕ) : t.hashmod n < t.sizenode := by
  unfold hashmod
  have hpos : 0 < (t.sizenode - 1) ||| 1 := Nat.lt_of_lt_of_le one_pos (Nat.right_le_or)
  have hlt := Nat.mod_lt n hpos
  have hle : (t.sizenode - 1) ||| 1 ≤ t.sizenode := by
    unfold sizenode
    cases t.lsizenode with
    | zero => decide
    | succ l =>
      have hor : (2 ^ (l + 1) - 1) ||| 1 < 2 ^ (l + 1) :=
        Nat.or_lt_two_pow (Nat.sub_lt (Nat.two_pow_pos _) one_pos) (Nat.one_lt_two_pow (by omega))
      exact hor.le
  exact hlt.trans_le hle

section Positions
variable [LuaNumber N] [LuaMemory N]

theorem mainposition_lt (t : Table N) (key : Value N) : t.mainposition key < t.sizenode := by
  unfold mainposition
  split
  · unfold hashnum
    split
    · exact t.sizenode_pos
    · exact t.hashmod_lt _
  · exact t.hashpow2_lt _
  · exact t.hashpow2_lt _
  · exact t.hashmod_lt _

theorem mainposition_congr [LawfulLuaMemory N] (t : Table N) (h : v.rawequal w = true) :
    t.mainposition v = t.mainposition w := by
  rcases Value.rawequal_iff.mp h with ⟨a, b, rfl, rfl, hab⟩ | ⟨-, rfl⟩
  · simp only [mainposition, hashnum, numeq_congr_left hab]
    split
    · rfl
    case isFalse hzero =>
      rw [LawfulLuaMemory.ints_congr a b hab]
      rw [numeq_congr_left hab]
      exact Bool.eq_false_iff.mpr hzero
  · rfl

end Positions

section Lookups
variable [LuaNumber N] [LuaMemory N]

/-- The key is one for the array. -/
def InArray (t : Table N) (key : Value N) : Prop := 1 ≤ arrayindex key ∧ arrayindex key ≤ t.sizearray

instance (t : Table N) (key : Value N) : Decidable (t.InArray key) := inferInstanceAs (Decidable (_ ∧ _))

/-- What is found under a key. -/
def lookup (t : Table N) (key : Value N) : Value N := t.value (t.luaH_get key)

/-- What all operations keep. -/
structure Sound (t : Table N) : Prop where
  length : t.node.length = t.sizenode
  scatter : t.scatter.Sound t.sizenode t.mainposition Value.rawequal
  small : t.lsizenode ≤ MAXBITS
  fits : t.sizearray ≤ MAXASIZE
  lastfree : t.lastfree ≤ t.sizenode
  used : t.dummy = false → ∀ i, t.lastfree ≤ i → i < t.sizenode → (t.gnode i).key.isnil = false
  dummy : t.dummy = true → t.node = [emptyNode] ∧ t.lastfree = 0
  valued : ∀ i, (t.gnode i).val ≠ .nil → ∃ v, (t.gnode i).key = .value v ∧ v ≠ .nil
  keyed : ∀ i v, t.scatter.key i = some v → v ≠ .nil ∧ v.rawequal v = true ∧ ¬t.InArray v

/-- A key is searched for in the array or on the chain of its main position. -/
theorem luaH_get_eq [LawfulLuaMemory N] (hkey : key ≠ .nil) : t.luaH_get key =
    if t.InArray key then some (.array (arrayindex key - 1).toNat)
    else (Chains.find (t.scatter.hit Value.rawequal key) t.scatter.next t.sizenode (t.mainposition key)).map
      .node := by
  have hsearch : ∀ w : Value N, w.rawequal key = true →
      t.search (fun n => n.key.rawequal w) (t.mainposition w) =
        Chains.find (t.scatter.hit Value.rawequal key) t.scatter.next t.sizenode (t.mainposition key) := by
    intro w hw
    unfold search
    rw [t.mainposition_congr hw]
    congr 1
    funext i
    rw [scatter_hit hkey]
    exact (t.gnode i).key.rawequal_congr hw
  have hself : t.search (fun n => n.key.rawequal key) (t.mainposition key) =
      Chains.find (t.scatter.hit Value.rawequal key) t.scatter.next t.sizenode (t.mainposition key) := by
    unfold search
    congr 1
    funext i
    rw [scatter_hit hkey]
  cases key with
  | nil => exact absurd rfl hkey
  | number n =>
    simp only [luaH_get, InArray, arrayindex]
    split
    case isTrue hint =>
      unfold luaH_getnum
      split
      · rfl
      · rw [← hsearch (.number (LuaNumber.ofInt (LuaNumber.toInteger n).toInt)) hint]
        rfl
    case isFalse =>
      rw [if_neg (by omega), ← hself]
  | _ =>
    rw [if_neg (by simp [InArray, arrayindex]), ← hself]
    rfl

/-- A node has this key, not killed, and this value. -/
def Holds (t : Table N) (v x : Value N) : Prop := ∃ i, (t.gnode i).key = .value v ∧ (t.gnode i).val = x

theorem lookup_nil (t : Table N) : t.lookup .nil = .nil := rfl

theorem Sound.value_of_val (h : t.Sound) (hval : (t.gnode i).val ≠ .nil) (hv : (t.gnode i).key = .value v) :
    v ≠ .nil := by
  obtain ⟨w, hw, hnil⟩ := h.valued i hval
  rw [hv] at hw
  cases hw
  exact hnil

omit [LuaMemory N] in
theorem value_of_hit (h : t.scatter.hit Value.rawequal key i = true) :
    ∃ v, (t.gnode i).key = .value v ∧ v.rawequal key = true := by
  obtain ⟨halive, v, hv, hsame⟩ := Scatter.hit_iff.mp h
  obtain ⟨-, hval⟩ := scatter_key_iff.mp hv
  unfold scatter at halive
  dsimp only at halive
  generalize (t.gnode i).key = k at *
  rcases k with w | w
  · have hw : w = v := hval
    exact ⟨w, rfl, hw ▸ hsame⟩
  · cases halive

omit [LuaMemory N] in
theorem hit_of_value (h : (t.gnode i).key = .value v) (hv : v ≠ .nil) (hsame : v.rawequal key = true) :
    t.scatter.hit Value.rawequal key i = true :=
  Scatter.hit_iff.mpr ⟨scatter_alive h, v, scatter_key_of_value h hv, hsame⟩

variable [LawfulLuaMemory N]

theorem lookup_of_inArray (h : t.InArray key) :
    t.lookup key = t.array.getD (arrayindex key - 1).toNat .nil := by
  have hkey : key ≠ .nil := by
    rintro rfl
    have hpos := h.1
    simp [arrayindex] at hpos
  rw [lookup, luaH_get_eq hkey, if_pos h]
  rfl

/-- The nodes with the same key that is not killed are one. -/
theorem Sound.find_of_hit (h : t.Sound) (hi : t.scatter.hit Value.rawequal key i = true) :
    Chains.find (t.scatter.hit Value.rawequal key) t.scatter.next t.sizenode (t.mainposition key) = some i := by
  apply h.scatter.find_eq_some (fun _ _ h => t.mainposition_congr h) (t.mainposition_lt key) hi
  intro a b _ hb c d _ hd
  exact Value.rawequal_trans b key d hb (Value.rawequal_symm d key hd)

theorem Sound.luaH_get_of_hit (h : t.Sound) (hkey : key ≠ .nil) (hout : ¬t.InArray key)
    (hi : t.scatter.hit Value.rawequal key i = true) : t.luaH_get key = some (.node i) := by
  rw [luaH_get_eq hkey, if_neg hout, h.find_of_hit hi]
  rfl

theorem Sound.luaH_get_eq_none (h : t.Sound) (hkey : key ≠ .nil) :
    t.luaH_get key = none ↔ ¬t.InArray key ∧ ∀ i, t.scatter.hit Value.rawequal key i = false := by
  rw [luaH_get_eq hkey]
  split
  case isTrue hin => simp [hin]
  case isFalse hout =>
    rw [Option.map_eq_none_iff, h.scatter.find_eq_none (fun _ _ h => t.mainposition_congr h) (t.mainposition_lt key)]
    simp [hout]

/-- What is found outside of the array is what a node holds. -/
theorem Sound.lookup_eq_iff (h : t.Sound) (hkey : key ≠ .nil) (hout : ¬t.InArray key) {x : Value N} (hx : x ≠ .nil) :
    t.lookup key = x ↔ ∃ v, v.rawequal key = true ∧ t.Holds v x := by
  constructor
  · intro hlookup
    rw [lookup] at hlookup
    cases hget : t.luaH_get key with
    | none =>
      rw [hget] at hlookup
      exact absurd hlookup.symm hx
    | some p =>
      rw [hget] at hlookup
      rw [luaH_get_eq hkey, if_neg hout, Option.map_eq_some_iff] at hget
      obtain ⟨i, hfind, rfl⟩ := hget
      obtain ⟨-, hi⟩ := Chains.reaches_of_find h.scatter.bounded h.scatter.chains (t.mainposition_lt key) hfind
      obtain ⟨v, hv, hsame⟩ := value_of_hit hi
      exact ⟨v, hsame, i, hv, hlookup⟩
  · rintro ⟨v, hsame, i, hv, rfl⟩
    rw [lookup, h.luaH_get_of_hit hkey hout (hit_of_value hv (h.value_of_val hx hv) hsame)]
    rfl

/-- A table with the same array, and nodes that hold the same, is the same to a search. -/
theorem Sound.lookup_congr {t' : Table N} (h : t.Sound) (h' : t'.Sound) (harray : t'.array = t.array)
    (hholds : ∀ v x, x ≠ .nil → (t'.Holds v x ↔ t.Holds v x)) : t'.lookup = t.lookup := by
  funext key
  by_cases hkey : key = .nil
  · rw [hkey, lookup_nil, lookup_nil]
  have hsame : t'.InArray key ↔ t.InArray key := by
    unfold InArray sizearray
    rw [harray]
  by_cases hin : t.InArray key
  · rw [lookup_of_inArray hin, lookup_of_inArray (hsame.mpr hin), harray]
  · have hiff : ∀ x, x ≠ .nil → (t'.lookup key = x ↔ t.lookup key = x) := by
      intro x hx
      rw [h.lookup_eq_iff hkey hin hx, h'.lookup_eq_iff hkey (mt hsame.mp hin) hx]
      simp only [hholds _ x hx]
    by_cases hnil : t.lookup key = .nil
    · by_contra hne
      rw [hnil] at hne
      exact hne (((hiff _ hne).mp rfl).symm.trans hnil)
    · exact (hiff _ hnil).mpr rfl

end Lookups

/-! New keys -/

section Insert
variable {prev mp n : ℕ}

theorem gnode_setNext (hi : i < t.node.length) (next : Option ℕ) :
    (t.setNext i next).gnode = Function.update t.gnode i { t.gnode i with next } := gnode_setNode hi _

theorem gnode_place (hi : i < t.node.length) (key : Value N) :
    (t.place i key).1.gnode = Function.update t.gnode i { t.gnode i with key := .value key } :=
  gnode_setNode hi _

@[simp] theorem length_setNode (t : Table N) (i : ℕ) (n : Node N) : (t.setNode i n).node.length = t.node.length :=
  List.length_set

theorem gnode_moveColliding (hp : prev < t.node.length) (hm : mp < t.node.length) (hn : n < t.node.length)
    (hpm : prev ≠ mp) (hnm : n ≠ mp) (key : Value N) :
    ((t.moveColliding prev mp n).place mp key).1.gnode =
      Function.update (Function.update (Function.update t.gnode prev { t.gnode prev with next := some n })
        n (t.gnode mp)) mp ⟨.nil, .value key, none⟩ := by
  have hm' : mp < (t.moveColliding prev mp n).node.length := by simpa [moveColliding, setNext] using hm
  rw [gnode_place hm']
  unfold moveColliding
  dsimp only
  rw [gnode_setNode (by simpa [setNext] using hm), gnode_setNode (by simpa [setNext] using hn), gnode_setNext hp]
  funext i
  by_cases him : i = mp
  · subst him
    simp
  · by_cases hin : i = n
    · subst hin
      simp [him, Function.update_of_ne (Ne.symm hpm)]
    · simp [him, hin]

theorem gnode_chainNew (hm : mp < t.node.length) (hn : n < t.node.length) (hnm : n ≠ mp) (key : Value N) :
    ((t.chainNew mp n).place n key).1.gnode =
      Function.update (Function.update t.gnode n ⟨(t.gnode n).val, .value key, (t.gnode mp).next⟩)
        mp { t.gnode mp with next := some n } := by
  have hn' : n < (t.chainNew mp n).node.length := by simpa [chainNew, setNext] using hn
  rw [gnode_place hn']
  unfold chainNew
  dsimp only
  rw [gnode_setNext (by simpa [setNext] using hm), gnode_setNext hn]
  funext i
  by_cases him : i = mp
  · subst him
    simp [Ne.symm hnm]
  · by_cases hin : i = n
    · subst hin
      simp [him]
    · simp [him, hin]

theorem scatter_place (hi : i < t.node.length) (hkey : key ≠ .nil) :
    (t.place i key).1.scatter = t.scatter.reuse i key := by
  have hnil : (NodeKey.value key).isnil = false := by
    rw [Bool.eq_false_iff, ne_eq, NodeKey.isnil_iff]
    simpa using hkey
  have hg := gnode_place hi key
  ext1
  · funext j
    by_cases hji : j = i
    · subst hji
      simp [scatter, Scatter.reuse, hg, hnil, NodeKey.key2tval]
    · simp [scatter, Scatter.reuse, hg, hji]
  · funext j
    by_cases hji : j = i
    · subst hji
      simp [scatter, Scatter.reuse, hg]
    · simp [scatter, Scatter.reuse, hg, hji]
  · funext j
    by_cases hji : j = i
    · subst hji
      simp [scatter, Scatter.reuse, gnext, hg]
    · simp [scatter, Scatter.reuse, gnext, hg, hji]

theorem scatter_moveColliding (hp : prev < t.node.length) (hm : mp < t.node.length) (hn : n < t.node.length)
    (hpm : prev ≠ mp) (hnm : n ≠ mp) (hkey : key ≠ .nil) :
    ((t.moveColliding prev mp n).place mp key).1.scatter = t.scatter.move prev mp n key := by
  have hnil : (NodeKey.value key).isnil = false := by
    rw [Bool.eq_false_iff, ne_eq, NodeKey.isnil_iff]
    simpa using hkey
  have hg := gnode_moveColliding hp hm hn hpm hnm key
  ext1
  · funext j
    simp only [scatter, Scatter.move, hg, Function.update_apply]
    split_ifs <;> simp_all [NodeKey.key2tval]
  · funext j
    simp only [scatter, Scatter.move, hg, Function.update_apply]
    split_ifs <;> simp_all
  · funext j
    simp only [scatter, Scatter.move, Chains.replace, gnext, hg, Function.update_apply]
    split_ifs <;> simp_all

theorem scatter_chainNew (hm : mp < t.node.length) (hn : n < t.node.length) (hnm : n ≠ mp) (hkey : key ≠ .nil) :
    ((t.chainNew mp n).place n key).1.scatter = t.scatter.chain mp n key := by
  have hnil : (NodeKey.value key).isnil = false := by
    rw [Bool.eq_false_iff, ne_eq, NodeKey.isnil_iff]
    simpa using hkey
  have hg := gnode_chainNew hm hn hnm key
  ext1
  · funext j
    simp only [scatter, Scatter.chain, hg, Function.update_apply]
    split_ifs <;> simp_all [NodeKey.key2tval]
  · funext j
    simp only [scatter, Scatter.chain, hg, Function.update_apply]
    split_ifs <;> simp_all
  · funext j
    simp only [scatter, Scatter.chain, Chains.insertAfter, gnext, hg, Function.update_apply]
    split_ifs <;> simp_all

end Insert
end Table
end H1Z1Server.LuaTable
