import H1Z1Server.Lua.NodePart

/-! `newkey` while there is room, and `luaH_set` with it. -/
namespace H1Z1Server.LuaTable
open LuaApi

variable {N : Type}

namespace Table
variable {t t' : Table N} {i j mp n prev : ℕ} {key v w x : Value N}

theorem freeposLoop_spec (t : Table N) (l : ℕ) :
    (∃ i < l, t.freeposLoop l = (some i, i) ∧ (t.gnode i).key.isnil = true ∧
      ∀ j, i < j → j < l → (t.gnode j).key.isnil = false) ∨
    t.freeposLoop l = (none, 0) ∧ ∀ j < l, (t.gnode j).key.isnil = false := by
  induction l with
  | zero => exact .inr ⟨rfl, fun j hj => absurd hj (Nat.not_lt_zero j)⟩
  | succ l ih =>
    rw [freeposLoop]
    by_cases hnil : (t.gnode l).key.isnil = true
    · rw [if_pos hnil]
      refine .inl ⟨l, Nat.lt_succ_self l, rfl, hnil, ?_⟩
      intro j hlt hle
      omega
    · rw [if_neg hnil]
      have hfull : ∀ j, j < l + 1 → j < l ∨ (t.gnode j).key.isnil = false := by
        intro j hj
        by_cases hjl : j = l
        · subst hjl
          exact .inr (Bool.eq_false_iff.mpr hnil)
        · exact .inl (by omega)
      rcases ih with ⟨i, hi, heq, hkey, hused⟩ | ⟨heq, hused⟩
      · refine .inl ⟨i, by omega, heq, hkey, ?_⟩
        intro j hij hj
        exact (hfull j hj).elim (hused j hij) id
      · exact .inr ⟨heq, fun j hj => (hfull j hj).elim (hused j) id⟩

/-- `lastfree` comes down to the node that is taken. -/
theorem used_below {n : ℕ} (hused : ∀ j, n < j → j < t.sizenode → (t.gnode j).key.isnil = false)
    (hn : (t'.gnode n).key.isnil = false)
    (hkept : ∀ j, n < j → (t.gnode j).key.isnil = false → (t'.gnode j).key.isnil = false) :
    ∀ j, n ≤ j → j < t.sizenode → (t'.gnode j).key.isnil = false := by
  intro j hle hj
  rcases Nat.eq_or_lt_of_le hle with rfl | hlt
  · exact hn
  · exact hkept j hlt (hused j hlt hj)

variable [LuaNumber N] [LuaMemory N]

/-- While a node has never been used, `getfreepos` finds one. -/
theorem Sound.getfreepos_spec (h : t.Sound) (hdummy : t.dummy = false) (hfree : 0 < t.free) :
    ∃ n < t.sizenode, t.getfreepos = (some n, { t with lastfree := n }) ∧ (t.gnode n).key.isnil = true ∧
      ∀ j, n < j → j < t.sizenode → (t.gnode j).key.isnil = false := by
  obtain ⟨i, hi, hnil⟩ := free_pos_iff.mp hfree
  have hlow : i < t.lastfree := by
    by_contra hle
    rw [h.used hdummy i (by omega) hi] at hnil
    cases hnil
  unfold getfreepos
  rcases t.freeposLoop_spec t.lastfree with ⟨n, hn, heq, hkey, hused⟩ | ⟨-, hused⟩
  · have hle := h.lastfree
    refine ⟨n, by omega, by rw [heq], hkey, ?_⟩
    intro j hj hsize
    by_cases hlast : j < t.lastfree
    · exact hused j hj hlast
    · exact h.used hdummy j (by omega) hsize
  · rw [hused i hlow] at hnil
    cases hnil

/-- A key that may be put into a node. -/
structure New (t : Table N) (key : Value N) : Prop where
  keyed : key ≠ .nil
  equal : key.rawequal key = true
  outside : ¬t.InArray key
  missing : ∀ i, t.scatter.hit Value.rawequal key i = false

/-- A node has been found for a key. -/
structure Inserts (t t' : Table N) (key : Value N) (i : ℕ) : Prop where
  sound : t'.Sound
  array : t'.array = t.array
  lsizenode : t'.lsizenode = t.lsizenode
  dummy : t'.dummy = t.dummy
  key : (t'.gnode i).key = .value key
  val : (t'.gnode i).val = .nil
  holds : ∀ v x, x ≠ .nil → (t'.Holds v x ↔ t.Holds v x)
  free : t.free ≤ t'.free + 1

/-- The nodes of `t'` but one are those of `t`, with their keys and values but in other places. -/
theorem inserts_of (h : t.Sound) (hnew : t.New key) (harray : t'.array = t.array)
    (hlsize : t'.lsizenode = t.lsizenode) (hdummy : t'.dummy = false) (hdummy' : t.dummy = false)
    (hlength : t'.node.length = t.node.length)
    (hscatter : t'.scatter.Sound t.sizenode t.mainposition Value.rawequal) (hlast : t'.lastfree ≤ t.sizenode)
    (hused : ∀ j, t'.lastfree ≤ j → j < t.sizenode → (t'.gnode j).key.isnil = false)
    (hkey : (t'.gnode i).key = .value key) (hval : (t'.gnode i).val = .nil)
    (hnodes : ∀ j, j ≠ i → ∃ k, (t'.gnode j).key = (t.gnode k).key ∧ (t'.gnode j).val = (t.gnode k).val)
    (hnodes' : ∀ k, (t.gnode k).val ≠ .nil →
      ∃ j, j ≠ i ∧ (t'.gnode j).key = (t.gnode k).key ∧ (t'.gnode j).val = (t.gnode k).val)
    (hfree : t.free ≤ t'.free + 1) : Inserts t t' key i := by
  have hsize : t'.sizenode = t.sizenode := by rw [sizenode, hlsize, sizenode]
  have hmain : t'.mainposition = t.mainposition := by
    funext k
    unfold mainposition hashnum hashmod hashpow2
    rw [hsize]
  have hin : ∀ k, t'.InArray k ↔ t.InArray k := by
    intro k
    unfold InArray sizearray
    rw [harray]
  refine ⟨⟨?_, ?_, ?_, ?_, ?_, ?_, ?_, ?_, ?_⟩, harray, hlsize, hdummy.trans hdummy'.symm, hkey, hval, ?_, hfree⟩
  · rw [hlength, hsize, h.length]
  · rwa [hsize, hmain]
  · rw [hlsize]
    exact h.small
  · unfold sizearray
    rw [harray]
    exact h.fits
  · rwa [hsize]
  · intro _ j hle hlt
    exact hused j hle (hsize ▸ hlt)
  · intro hd
    rw [hdummy] at hd
    cases hd
  · intro j hj
    by_cases hji : j = i
    · subst hji
      exact absurd hval hj
    · obtain ⟨k, hk, hv⟩ := hnodes j hji
      rw [hk]
      exact h.valued k (hv ▸ hj)
  · intro j v hv
    rw [hin]
    by_cases hji : j = i
    · subst hji
      obtain ⟨-, rfl⟩ := scatter_key_iff.mp hv
      rw [hkey]
      exact ⟨hnew.keyed, hnew.equal, hnew.outside⟩
    · obtain ⟨k, hk, -⟩ := hnodes j hji
      rw [scatter_key_iff, hk, ← scatter_key_iff] at hv
      exact h.keyed k v hv
  · intro v x hx
    constructor
    · rintro ⟨j, hj, rfl⟩
      have hji : j ≠ i := by
        rintro rfl
        exact hx hval
      obtain ⟨k, hk, hv⟩ := hnodes j hji
      exact ⟨k, hk ▸ hj, hv.symm⟩
    · rintro ⟨k, hk, rfl⟩
      obtain ⟨j, -, hj, hv⟩ := hnodes' k hx
      exact ⟨j, hj.trans hk, hv⟩

variable [LawfulLuaMemory N]

/-- The main position is free: its node has no value. -/
theorem Sound.place_spec (h : t.Sound) (hnew : t.New key) (hdummy : t.dummy = false)
    (hval : (t.gnode (t.mainposition key)).val = .nil) :
    Inserts t (t.place (t.mainposition key) key).1 key (t.mainposition key) := by
  have hlt : t.mainposition key < t.node.length := h.length ▸ t.mainposition_lt key
  have hg := gnode_place hlt key
  have hnil : (NodeKey.value key).isnil = false := by
    rw [Bool.eq_false_iff, ne_eq, NodeKey.isnil_iff]
    simpa using hnew.keyed
  refine inserts_of h hnew rfl rfl hdummy hdummy (length_setNode ..) ?_ ?_ ?_ ?_ ?_ ?_ ?_ ?_
  · rw [scatter_place hlt hnew.keyed]
    exact h.scatter.reuse Value.rawequal_symm hnew.missing (fun _ _ h => t.mainposition_congr h) rfl (t.mainposition_lt key)
  · exact h.lastfree
  · intro j hle hj
    rw [hg]
    by_cases hji : j = t.mainposition key
    · subst hji
      rw [Function.update_self]
      exact hnil
    · rw [Function.update_of_ne hji]
      exact h.used hdummy j hle hj
  · rw [hg, Function.update_self]
  · rw [hg, Function.update_self]
    exact hval
  · intro j hj
    exact ⟨j, by rw [hg, Function.update_of_ne hj], by rw [hg, Function.update_of_ne hj]⟩
  · intro k hk
    have hki : k ≠ t.mainposition key := by
      rintro rfl
      exact hk hval
    exact ⟨k, hki, by rw [hg, Function.update_of_ne hki], by rw [hg, Function.update_of_ne hki]⟩
  · refine free_le (i := t.mainposition key) rfl ?_
    intro j hj hjnil
    rwa [hg, Function.update_of_ne hj]

/-- The colliding node is in its own main position: the new key is chained behind it. -/
theorem Sound.chainNew_spec (h : t.Sound) (hnew : t.New key) (hdummy : t.dummy = false)
    (hval : (t.gnode (t.mainposition key)).val ≠ .nil)
    (hother : t.mainposition (t.gnode (t.mainposition key)).key.key2tval = t.mainposition key)
    (hn : n < t.sizenode) (hnil : (t.gnode n).key.isnil = true)
    (hused : ∀ j, n < j → j < t.sizenode → (t.gnode j).key.isnil = false) :
    Inserts t (({ t with lastfree := n }.chainNew (t.mainposition key) n).place n key).1 key n := by
  set mp := t.mainposition key with hmp
  have hlm : mp < t.node.length := h.length ▸ t.mainposition_lt key
  have hln : n < t.node.length := h.length ▸ hn
  obtain ⟨c, hc, hcnil⟩ := h.valued mp hval
  have hnm : n ≠ mp := by
    rintro rfl
    rw [NodeKey.isnil_iff, hc] at hnil
    cases hnil
    exact hcnil rfl
  have hnew_nil : (NodeKey.value key).isnil = false := by
    rw [Bool.eq_false_iff, ne_eq, NodeKey.isnil_iff]
    simpa using hnew.keyed
  have hval_n : (t.gnode n).val = .nil := by
    by_contra hv
    obtain ⟨v, hv, hvnil⟩ := h.valued n hv
    rw [NodeKey.isnil_iff, hv] at hnil
    cases hnil
    exact hvnil rfl
  have hg : (({ t with lastfree := n }.chainNew mp n).place n key).1.gnode =
      Function.update (Function.update t.gnode n ⟨(t.gnode n).val, .value key, (t.gnode mp).next⟩)
        mp { t.gnode mp with next := some n } := gnode_chainNew hlm hln hnm key
  have hother_nodes : ∀ j, j ≠ n → ((({ t with lastfree := n }.chainNew mp n).place n key).1.gnode j).key =
      (t.gnode j).key ∧ ((({ t with lastfree := n }.chainNew mp n).place n key).1.gnode j).val = (t.gnode j).val := by
    intro j hj
    rw [hg]
    by_cases hjm : j = mp
    · subst hjm
      simp
    · simp [hjm, hj]
  have hself : ((({ t with lastfree := n }.chainNew mp n).place n key).1.gnode n) =
      ⟨(t.gnode n).val, .value key, (t.gnode mp).next⟩ := by
    rw [hg, Function.update_of_ne hnm, Function.update_self]
  refine inserts_of h hnew rfl rfl hdummy hdummy ?_ ?_ hn.le ?_ ?_ ?_ ?_ ?_ ?_
  · simp [place, setKey, chainNew, setNext]
  · have hscatter : (({ t with lastfree := n }.chainNew mp n).place n key).1.scatter =
        t.scatter.chain mp n key := scatter_chainNew hlm hln hnm hnew.keyed
    rw [hscatter]
    refine h.scatter.chain Value.rawequal_symm hnew.missing (fun _ _ h => t.mainposition_congr h) hmp.symm
      (scatter_key_of_value hc hcnil) ?_ (scatter_alive hc) ?_ hn
    · rw [hc] at hother
      exact hother
    · simp [Table.scatter, hnil]
  · apply used_below hused
    · rw [hself]
      exact hnew_nil
    · intro j hj hkey
      rw [(hother_nodes j (Nat.ne_of_gt hj)).1]
      exact hkey
  · rw [hself]
  · rw [hself]
    exact hval_n
  · intro j hj
    exact ⟨j, hother_nodes j hj⟩
  · intro k hk
    have hkn : k ≠ n := by
      rintro rfl
      exact hk hval_n
    exact ⟨k, hkn, hother_nodes k hkn⟩
  · refine free_le (i := n) rfl ?_
    intro j hj hjnil
    rw [(hother_nodes j hj).1]
    exact hjnil

/-- The colliding node is out of its main position: it moves to the free node. -/
theorem Sound.moveColliding_spec (h : t.Sound) (hnew : t.New key) (hdummy : t.dummy = false)
    (hval : (t.gnode (t.mainposition key)).val ≠ .nil)
    (hother : t.mainposition (t.gnode (t.mainposition key)).key.key2tval ≠ t.mainposition key)
    (hprev : (t.gnode prev).next = some (t.mainposition key))
    (hn : n < t.sizenode) (hnil : (t.gnode n).key.isnil = true)
    (hused : ∀ j, n < j → j < t.sizenode → (t.gnode j).key.isnil = false) :
    Inserts t (({ t with lastfree := n }.moveColliding prev (t.mainposition key) n).place
      (t.mainposition key) key).1 key (t.mainposition key) := by
  set mp := t.mainposition key with hmp
  have hlm : mp < t.node.length := h.length ▸ t.mainposition_lt key
  have hln : n < t.node.length := h.length ▸ hn
  obtain ⟨c, hc, hcnil⟩ := h.valued mp hval
  rw [hc] at hother
  have hcm : t.mainposition c ≠ mp := hother
  have hkeyn : t.scatter.key n = none := by simp [Table.scatter, hnil]
  have hkeym : t.scatter.key mp = some c := scatter_key_of_value hc hcnil
  have hfresh := h.scatter.fresh n hkeyn
  have hnm : n ≠ mp := by
    rintro rfl
    rw [hkeyn] at hkeym
    cases hkeym
  have hpm : prev ≠ mp := by
    rintro rfl
    obtain ⟨l, hl⟩ := h.scatter.chains.ends mp
    exact hl.not_reaches hprev (.refl mp)
  have hpn : prev ≠ n := by
    rintro rfl
    have hlast : (t.gnode prev).next = none := hfresh.last
    rw [hprev] at hlast
    cases hlast
  have hlp : prev < t.node.length := by
    by_contra hle
    rw [gnode_of_le (not_lt.mp hle)] at hprev
    cases hprev
  have hnew_nil : (NodeKey.value key).isnil = false := by
    rw [Bool.eq_false_iff, ne_eq, NodeKey.isnil_iff]
    simpa using hnew.keyed
  have hval_n : (t.gnode n).val = .nil := by
    by_contra hv
    obtain ⟨v, hv, hvnil⟩ := h.valued n hv
    rw [scatter_key_of_value hv hvnil] at hkeyn
    cases hkeyn
  set t' := (({ t with lastfree := n }.moveColliding prev mp n).place mp key).1 with ht'
  have hg : t'.gnode = Function.update (Function.update (Function.update t.gnode prev
      { t.gnode prev with next := some n }) n (t.gnode mp)) mp ⟨.nil, .value key, none⟩ :=
    gnode_moveColliding hlp hlm hln hpm hnm key
  have hself : t'.gnode mp = ⟨.nil, .value key, none⟩ := by rw [hg, Function.update_self]
  have hmoved : t'.gnode n = t.gnode mp := by rw [hg, Function.update_of_ne hnm, Function.update_self]
  have hothers : ∀ j, j ≠ mp → j ≠ n → (t'.gnode j).key = (t.gnode j).key ∧ (t'.gnode j).val = (t.gnode j).val := by
    intro j hjm hjn
    rw [hg, Function.update_of_ne hjm, Function.update_of_ne hjn]
    by_cases hjp : j = prev
    · subst hjp
      simp
    · simp [hjp]
  refine inserts_of h hnew rfl rfl hdummy hdummy ?_ ?_ hn.le ?_ ?_ ?_ ?_ ?_ ?_
  · simp [ht', place, setKey, moveColliding, setNext]
  · have hscatter : t'.scatter = t.scatter.move prev mp n key :=
      scatter_moveColliding hlp hlm hln hpm hnm hnew.keyed
    rw [hscatter]
    exact h.scatter.move Value.rawequal_symm hnew.missing (fun _ _ h => t.mainposition_congr h) hmp.symm hkeym hcm
      hkeyn hn hprev
  · apply used_below hused
    · rw [hmoved, hc, Bool.eq_false_iff, ne_eq, NodeKey.isnil_iff]
      simpa using hcnil
    · intro j hj hkey
      by_cases hjm : j = mp
      · subst hjm
        rw [hself]
        exact hnew_nil
      · rw [(hothers j hjm (Nat.ne_of_gt hj)).1]
        exact hkey
  · rw [hself]
  · rw [hself]
  · intro j hj
    by_cases hjn : j = n
    · subst hjn
      exact ⟨mp, by rw [hmoved], by rw [hmoved]⟩
    · exact ⟨j, hothers j hj hjn⟩
  · intro k hk
    by_cases hkm : k = mp
    · subst hkm
      exact ⟨n, hnm, by rw [hmoved], by rw [hmoved]⟩
    · have hkn : k ≠ n := by
        rintro rfl
        exact hk hval_n
      exact ⟨k, hkm, hothers k hkm hkn⟩
  · refine free_le (i := n) rfl ?_
    intro j hj hjnil
    by_cases hjm : j = mp
    · subst hjm
      rw [NodeKey.isnil_iff, hc] at hjnil
      cases hjnil
      exact absurd rfl hcnil
    · rw [(hothers j hjm hj).1]
      exact hjnil

/-- While there is room, `newkey` finds a node and does not rehash. -/
theorem Sound.newkey_spec (h : t.Sound) (hnew : t.New key) (hdummy : t.dummy = false)
    (hroom : (t.gnode (t.mainposition key)).val = .nil ∨ 0 < t.free) (depth : ℕ) :
    ∃ t' i, newkey (depth + 1) t key = .ok (t', .node i) ∧ Inserts t t' key i := by
  rw [newkey]
  dsimp only
  by_cases hval : (t.gnode (t.mainposition key)).val = .nil
  · rw [if_neg (by simp [hval, hdummy, ttisnil])]
    exact ⟨_, _, rfl, h.place_spec hnew hdummy hval⟩
  · rw [if_pos (by simp [ttisnil_eq_false.mpr hval])]
    obtain ⟨n, hn, hget, hnil, hused⟩ := h.getfreepos_spec hdummy (hroom.resolve_left hval)
    rw [hget]
    obtain ⟨c, hc, hcnil⟩ := h.valued _ hval
    dsimp only
    split
    case isTrue hother =>
      replace hother : t.mainposition (t.gnode (t.mainposition key)).key.key2tval ≠ t.mainposition key := hother
      have hcm : t.mainposition c ≠ t.mainposition key := by
        rw [hc] at hother
        exact hother
      obtain ⟨prev, hfind, hprev⟩ := h.scatter.exists_previous (t.mainposition_lt c)
        (scatter_key_of_value hc hcnil) hcm
      have hsearch : t.search (fun node => node.next = some (t.mainposition key))
          (t.mainposition (t.gnode (t.mainposition key)).key.key2tval) = some prev := by
        rw [hc]
        exact hfind
      split
      case h_1 hnone =>
        have hfound := hsearch.symm.trans hnone
        cases hfound
      case h_2 prev' hsome =>
        have hfound := hsearch.symm.trans hsome
        cases hfound
        exact ⟨_, _, rfl, h.moveColliding_spec hnew hdummy hval hother hprev hn hnil hused⟩
    case isFalse hother =>
      exact ⟨_, _, rfl, h.chainNew_spec hnew hdummy hval (not_not.mp hother) hn hnil hused⟩

end Table
end H1Z1Server.LuaTable
