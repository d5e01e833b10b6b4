import H1Z1Server.Lua.ArraySizes

/-! Rehash: tables that are made anew with the entries of the old ones. -/
namespace H1Z1Server.LuaTable
open LuaApi

variable {N : Type}

namespace Table

section Overwriting
variable [LuaNumber N]

/-- What is found once all these values have been assigned. -/
def overwrite (f : Value N → Value N) (es : List (Value N × Value N)) : Value N → Value N :=
  es.foldl (fun f e key => if e.1.rawequal key then e.2 else f key) f

theorem overwrite_append (f : Value N → Value N) (es es' : List (Value N × Value N)) :
    overwrite f (es ++ es') = overwrite (overwrite f es) es' := List.foldl_append ..

theorem overwrite_eq_of_forall {f : Value N → Value N} {es : List (Value N × Value N)} {key : Value N}
    (h : ∀ e ∈ es, e.1.rawequal key = false) : overwrite f es key = f key := by
  induction es generalizing f with
  | nil => rfl
  | cons e es ih =>
    have hfirst := h e (List.mem_cons_self ..)
    have hrest := ih (f := fun key => if e.1.rawequal key then e.2 else f key)
      fun e he => h e (List.mem_cons_of_mem _ he)
    rw [overwrite, List.foldl_cons]
    refine hrest.trans ?_
    rw [if_neg (by rw [hfirst]; exact Bool.false_ne_true)]

theorem overwrite_eq_of_mem [LawfulLuaNumber N] {f : Value N → Value N} {es : List (Value N × Value N)}
    {key : Value N} {e : Value N × Value N} (hapart : es.Pairwise Apart) (he : e ∈ es)
    (hkey : e.1.rawequal key = true) : overwrite f es key = e.2 := by
  induction es generalizing f with
  | nil => cases he
  | cons e' es ih =>
    rw [List.pairwise_cons] at hapart
    rw [overwrite, List.foldl_cons]
    rcases List.mem_cons.mp he with rfl | he
    · refine (overwrite_eq_of_forall ?_).trans (if_pos hkey)
      intro d hd
      apply Bool.eq_false_iff.mpr
      intro hsame
      exact Bool.eq_false_iff.mp (hapart.1 d hd)
        (Value.rawequal_trans e.1 key d.1 hkey (Value.rawequal_symm d.1 key hsame))
    · exact ih hapart.2 he

end Overwriting

section Fresh
variable {t : Table N}

/-- A table whose nodes have all never been used. -/
structure Fresh (t : Table N) : Prop where
  length : t.node.length = t.sizenode
  empty : ∀ i, t.gnode i = emptyNode
  small : t.lsizenode ≤ MAXBITS
  lastfree : t.lastfree = if t.dummy then 0 else t.sizenode
  dummy : t.dummy = true → t.lsizenode = 0

theorem Fresh.free (h : t.Fresh) : t.free = t.sizenode := by
  unfold Table.free
  rw [Finset.filter_true_of_mem, Finset.card_range]
  intro i _
  rw [h.empty]
  rfl

theorem gnode_replicate (n i : ℕ) : (List.replicate n (emptyNode : Node N)).getD i emptyNode = emptyNode := by
  rw [List.getD_eq_getElem?_getD, List.getElem?_replicate]
  split <;> rfl

/-- `setnodevector` makes room for as many keys as it is told to. -/
theorem setnodevector_spec (t : Table N) {size : ℕ} (hsize : size ≤ 2 ^ MAXBITS) :
    ∃ t', t.setnodevector size = .ok t' ∧ t'.Fresh ∧ t'.array = t.array ∧ size ≤ t'.sizenode ∧
      (t'.dummy = true ↔ size = 0) := by
  unfold setnodevector
  by_cases hzero : size = 0
  · rw [if_pos hzero]
    refine ⟨_, rfl, ⟨rfl, ?_, Nat.zero_le _, rfl, fun _ => rfl⟩, rfl, by omega, by simp [hzero]⟩
    exact gnode_replicate 1
  · have hlog := ceillog2_le_MAXBITS (Nat.pos_of_ne_zero hzero) hsize
    have hroom : size ≤ 2 ^ ceillog2 size :=
      (ceillog2_le_iff (Nat.pos_of_ne_zero hzero) (hsize.trans (by decide))).mp le_rfl
    rw [if_neg hzero, if_neg (not_lt.mpr hlog)]
    refine ⟨_, rfl, ⟨?_, ?_, hlog, rfl, nofun⟩, rfl, hroom, by simp [hzero]⟩
    · exact List.length_replicate
    · exact gnode_replicate _

theorem Fresh.scatter (h : t.Fresh) : t.scatter = Scatter.empty := by
  ext1
  · funext i
    simp only [Table.scatter, h.empty]
    rfl
  · funext i
    simp only [Table.scatter, h.empty]
    rfl
  · funext i
    simp only [Table.scatter, gnext, h.empty]
    rfl

variable [LuaNumber N] [LuaMemory N]

theorem Fresh.sound (h : t.Fresh) (hfits : t.sizearray ≤ MAXASIZE) : t.Sound where
  length := h.length
  scatter := h.scatter ▸ Scatter.sound_empty
  small := h.small
  fits := hfits
  lastfree := by
    rw [h.lastfree]
    split
    · exact Nat.zero_le _
    · exact le_rfl
  used := by
    intro hdummy i hle hlt
    rw [h.lastfree, hdummy, if_neg Bool.false_ne_true] at hle
    omega
  dummy := by
    intro hdummy
    have hlast := h.lastfree
    rw [hdummy, if_pos rfl] at hlast
    have hone : t.node.length = 1 := by rw [h.length, sizenode, h.dummy hdummy, pow_zero]
    obtain ⟨n, hn⟩ := List.length_eq_one_iff.mp hone
    have hempty := h.empty 0
    unfold gnode at hempty
    rw [hn] at hempty ⊢
    exact ⟨congrArg (fun n => [n]) hempty, hlast⟩
  valued i hi := by
    rw [h.empty] at hi
    exact absurd rfl hi
  keyed i v hv := by
    rw [h.scatter] at hv
    cases hv

theorem Fresh.lookup [LawfulLuaMemory N] (h : t.Fresh) (hfits : t.sizearray ≤ MAXASIZE) (key : Value N) :
    t.lookup key = if t.InArray key then t.array.getD (arrayindex key - 1).toNat .nil else .nil := by
  split
  case isTrue hin => exact lookup_of_inArray hin
  case isFalse hout =>
    by_contra hne
    have hkey : key ≠ .nil := by
      rintro rfl
      exact hne rfl
    obtain ⟨v, -, i, hv, hval⟩ := ((h.sound hfits).lookup_eq_iff hkey hout hne).mp rfl
    rw [h.empty] at hval
    exact hne hval.symm

end Fresh

section Assigning
variable [LuaNumber N] [LuaMemory N] {t : Table N} {es : List (Value N × Value N)}

/-- `luaH_set` with what `newkey` does, and a write to the place that it returns. -/
def assignWith (newkey : Table N → Value N → Except Abort (Table N × Slot)) (t : Table N)
    (e : Value N × Value N) : Except Abort (Table N) := do
  let (t, p) ← t.setWith newkey e.1
  return t.write p e.2

/-- The same while the array keeps its size. -/
def assignKeeping (newkey : Table N → Value N → Except Abort (Table N × Slot)) (nasize : ℕ) (t : Table N)
    (e : Value N × Value N) : Except Abort (Table N) := do
  let (t, p) ← t.setWith newkey e.1
  if t.sizearray = nasize then return t.write p e.2 else throw .undefinedBehaviour

/-- The keys among these that are for the nodes. -/
def outside (t : Table N) (es : List (Value N × Value N)) : ℕ := es.countP fun e => ¬t.InArray e.1

variable [LawfulLuaMemory N]

/-- While there is room for all of them, values are assigned without a rehash. -/
theorem Sound.assignAll (h : t.Sound) (hvalid : ∀ e ∈ es, Valid e.1) (hroom : t.outside es ≤ t.free)
    (hdummy : t.dummy = true → t.outside es = 0) (depth : ℕ) :
    ∃ t', es.foldlM (assignWith (newkey (depth + 1))) t = .ok t' ∧
      es.foldlM (assignKeeping (newkey (depth + 1)) t.sizearray) t = .ok t' ∧ t'.Sound ∧
      t'.lookup = overwrite t.lookup es ∧ t'.sizearray = t.sizearray ∧ t'.dummy = t.dummy ∧
      t.free ≤ t'.free + t.outside es := by
  induction es generalizing t with
  | nil => exact ⟨t, rfl, rfl, h, rfl, rfl, rfl, Nat.le_add_right _ _⟩
  | cons e es ih =>
    have hcons : t.outside (e :: es) = t.outside es + if t.InArray e.1 then 0 else 1 := by
      unfold outside
      rw [List.countP_cons]
      by_cases hin : t.InArray e.1 <;> simp [hin]
    have hfirst : ¬t.InArray e.1 → t.dummy = false ∧ 0 < t.free := by
      intro hout
      rw [hcons, if_neg hout] at hroom hdummy
      refine ⟨?_, by omega⟩
      cases hd : t.dummy with
      | false => rfl
      | true => exact absurd (hdummy hd) (Nat.succ_ne_zero _)
    obtain ⟨t₁, p, hset, hassign⟩ := h.setWith_spec (hvalid e (List.mem_cons_self ..)) depth hfirst e.2
    have hsame : (t₁.write p e.2).outside es = t.outside es := by
      unfold outside
      simp only [inArray_iff hassign.sizearray]
    have hfree := hassign.free
    rw [hcons] at hroom
    obtain ⟨t', hrun, hkeep, hsound, hlookup, hsize, hd, hfree'⟩ := ih hassign.sound
      (fun e he => hvalid e (List.mem_cons_of_mem _ he)) (by omega)
      (fun hd => by
        rw [hassign.dummy] at hd
        have hnone := hdummy hd
        omega)
    have hsize₁ := hassign.sizearray
    rw [sizearray_write] at hsize₁
    refine ⟨t', ?_, ?_, hsound, ?_, hsize.trans hassign.sizearray, hd.trans hassign.dummy, by omega⟩
    · rw [List.foldlM_cons, assignWith, hset]
      exact hrun
    · rw [List.foldlM_cons, assignKeeping, hset]
      simp only [bind, Except.bind, hsize₁, if_true]
      rw [← hassign.sizearray]
      exact hkeep
    · rw [hlookup, overwrite, overwrite, List.foldl_cons]
      congr 1
      funext key
      exact hassign.lookup key

end Assigning
section Resizing
variable {t : Table N} {nasize nhsize : ℕ}

theorem vanishing_eq (t : Table N) (nasize : ℕ) : (t.array.zipIdx.drop nasize).map Prod.swap =
    (List.range' nasize (t.sizearray - nasize)).map fun i => (i, t.array.getD i .nil) := by
  apply List.ext_getElem
  · simp [sizearray]
  · intro i hi hi'
    have hlt : nasize + i < t.array.length := by
      simp only [List.length_map, List.length_drop, List.length_zipIdx] at hi
      omega
    simp [hlt]

/-- The array after a resize has the values that it had, as far as it reaches. -/
theorem resized_array (t : Table N) (nasize : ℕ) :
    ((if t.sizearray < nasize then t.setarrayvector nasize else t).array.take nasize).length = nasize ∧
      ∀ i < nasize, ((if t.sizearray < nasize then t.setarrayvector nasize else t).array.take nasize).getD i .nil =
        t.array.getD i .nil := by
  have hsize : t.sizearray = t.array.length := rfl
  split
  case isTrue hgrow =>
    have htake : t.array.take nasize = t.array := List.take_of_length_le (by omega)
    have hlength : (t.array ++ List.replicate (nasize - t.sizearray) Value.nil).length = nasize := by
      rw [List.length_append, List.length_replicate]
      omega
    unfold setarrayvector
    dsimp only
    rw [htake, List.take_of_length_le hlength.le]
    refine ⟨hlength, ?_⟩
    intro i _
    rcases Nat.lt_or_ge i t.array.length with hlt | hge
    · exact List.getD_append _ _ _ _ hlt
    · rw [List.getD_append_right _ _ _ _ hge, List.getD_eq_default _ _ hge, List.getD_eq_getElem?_getD,
        List.getElem?_replicate]
      split <;> rfl
  case isFalse hle =>
    refine ⟨by rw [List.length_take]; omega, ?_⟩
    intro i hi
    simp [List.getD_eq_getElem?_getD, hi]

variable [LuaNumber N]

/-- What a resize puts into the new table: the slice of the array that vanishes, and the nodes. -/
def moved (t : Table N) (nasize : ℕ) : List (Value N × Value N) :=
  t.arrayEntries (nasize + 1) ++ (t.nodeEntries 0).reverse

theorem mem_entries_of_moved {e : Value N × Value N} (he : e ∈ t.moved nasize) : e ∈ t.entries := by
  rcases List.mem_append.mp he with he | he
  · obtain ⟨m, hm, hrest⟩ := mem_arrayEntries.mp he
    exact List.mem_append_left _ (mem_arrayEntries.mpr ⟨m, by omega, hrest⟩)
  · exact List.mem_append_right _ (List.mem_reverse.mp he)

theorem moved_subperm (t : Table N) (nasize : ℕ) :
    ∃ es, (t.moved nasize).Perm es ∧ es.Sublist t.entries := by
  refine ⟨t.arrayEntries (nasize + 1) ++ t.nodeEntries 0, (List.reverse_perm _).append_left _, ?_⟩
  apply List.Sublist.append_right
  apply List.Sublist.map
  rcases Nat.lt_or_ge t.sizearray nasize with hlt | hle
  · have hnone : t.usedFrom (nasize + 1) = [] := by
      rw [usedFrom, Nat.sub_eq_zero_of_le (by omega)]
      rfl
    rw [hnone]
    exact List.nil_sublist _
  · obtain ⟨K, hK, -⟩ := t.usedFrom_eq (i := 1) hle
    rw [hK, max_eq_right (by omega)]
    exact List.sublist_append_right ..

variable [LuaMemory N]

theorem foldlM_reinsertNode (newkey : Table N → Value N → Except Abort (Table N × Slot)) (t : Table N)
    (ns : List (Node N)) : ns.foldlM (reinsertNode newkey) t =
      ((ns.filter fun n => !ttisnil n.val).map fun n => (n.key.key2tval, n.val)).foldlM
        (assignWith newkey) t := by
  induction ns generalizing t with
  | nil => rfl
  | cons n ns ih =>
    rw [List.foldlM_cons, List.filter_cons]
    unfold reinsertNode
    split
    case isTrue =>
      rw [List.map_cons, List.foldlM_cons, assignWith]
      cases t.setWith newkey n.key.key2tval with
      | error => rfl
      | ok r => exact ih (r.1.write r.2 n.val)
    case isFalse => exact ih t

variable [LawfulLuaMemory N]

/-- The vanishing slice, from the place behind `n` on. -/
theorem foldlM_reinsertNum (newkey : Table N → Value N → Except Abort (Table N × Slot)) (f : ℕ → Value N)
    (nasize : ℕ) (t : Table N) (n c : ℕ) (hlt : n + c < 2 ^ 31) :
    ((List.range' n c).map fun i => (i, f i)).foldlM (reinsertNum newkey nasize) t =
      (((List.range' (n + 1) c).filter fun m => !ttisnil (f (m - 1))).map fun m : ℕ =>
        (Value.number (LuaNumber.ofInt m), f (m - 1))).foldlM (assignKeeping newkey nasize) t := by
  induction c generalizing n t with
  | zero => rfl
  | succ c ih =>
    rw [List.range'_succ, List.range'_succ, List.map_cons, List.foldlM_cons, List.filter_cons,
      Nat.add_sub_cancel]
    unfold reinsertNum
    dsimp only
    split
    case isTrue =>
      have hkey : t.setnumWith newkey ((n : ℤ) + 1) =
          t.setWith newkey (.number (LuaNumber.ofInt ((n + 1 : ℕ) : ℤ))) := by
        rw [setnumWith_eq newkey t (by omega) (by omega)]
        rfl
      rw [List.map_cons, List.foldlM_cons, hkey, assignKeeping, Nat.add_sub_cancel]
      cases t.setWith newkey (.number (LuaNumber.ofInt ((n + 1 : ℕ) : ℤ))) with
      | error => rfl
      | ok r =>
        by_cases hkeep : r.1.sizearray = nasize
        · simp only [bind, Except.bind, hkeep, if_true]
          exact ih (r.1.write r.2 (f n)) (n + 1) (by omega)
        · simp only [bind, Except.bind, hkeep, if_false]
          rfl
    case isFalse => exact ih t (n + 1) (by omega)

theorem Sound.moved_apart (h : t.Sound) (nasize : ℕ) : (t.moved nasize).Pairwise Apart := by
  obtain ⟨es, hperm, hsub⟩ := t.moved_subperm nasize
  exact (hperm.pairwise_iff apart_symm).mpr (h.entries_apart.sublist hsub)

/-- What is not moved is found in the array that stays. -/
theorem Sound.overwrite_moved (h : t.Sound) {fresh : Table N} (hfresh : fresh.Fresh) (hna : nasize ≤ MAXASIZE)
    (hsize : fresh.sizearray = nasize)
    (harray : ∀ i < nasize, fresh.array.getD i .nil = t.array.getD i .nil) :
    overwrite fresh.lookup (t.moved nasize) = t.lookup := by
  funext key
  have hlookup := hfresh.lookup (hsize ▸ hna) key
  by_cases hx : t.lookup key = .nil
  · have hnone : ∀ e ∈ t.moved nasize, e.1.rawequal key = false := by
      intro e he
      apply Bool.eq_false_iff.mpr
      intro hsame
      have hentry := mem_entries_of_moved he
      exact (h.valid_entry hentry).2 ((h.lookup_entry hentry hsame).symm.trans hx)
    rw [overwrite_eq_of_forall hnone, hlookup, hx]
    split
    case isFalse => rfl
    case isTrue hin =>
      obtain ⟨hlo, hhi⟩ := hin
      rw [harray _ (by omega)]
      by_cases hin : t.InArray key
      · rw [← lookup_of_inArray hin, hx]
      · apply List.getD_eq_default
        have hout : ¬arrayindex key ≤ t.array.length := fun hle => hin ⟨hlo, hle⟩
        omega
  · obtain ⟨e, he, hkey, heq⟩ := h.exists_entry hx
    by_cases hmoved : e ∈ t.moved nasize
    · rw [overwrite_eq_of_mem (h.moved_apart nasize) hmoved hkey, heq]
    · have hnone : ∀ d ∈ t.moved nasize, d.1.rawequal key = false := by
        intro d hd
        apply Bool.eq_false_iff.mpr
        intro hsame
        exact hmoved (h.entry_unique he (mem_entries_of_moved hd) hkey hsame ▸ hd)
      rw [overwrite_eq_of_forall hnone, hlookup]
      rcases List.mem_append.mp he with he | he
      · obtain ⟨m, hpos, hm, rfl, hval⟩ := mem_arrayEntries.mp he
        have hindex : arrayindex key = m := (arrayindex_congr hkey).symm.trans (h.arrayindex_entry hpos hm)
        have hstays : m ≤ nasize := by
          by_contra hlt
          exact hmoved (List.mem_append_left _ (mem_arrayEntries.mpr ⟨m, by omega, hm, rfl, hval⟩))
        rw [if_pos ⟨by omega, by omega⟩, harray _ (by omega), ← heq, hindex]
        congr 1
        omega
      · exact absurd (List.mem_append_right _ (List.mem_reverse.mpr he)) hmoved

omit [LuaMemory N] [LawfulLuaMemory N] in
/-- What stays in the array and what is moved are no more than there was. -/
theorem length_moved_le (t : Table N) {fresh : Table N} (hfresh : fresh.Fresh) (hsize : fresh.sizearray = nasize)
    (harray : ∀ i < nasize, fresh.array.getD i .nil = t.array.getD i .nil) :
    fresh.entries.length + (t.moved nasize).length ≤ t.entries.length := by
  have hnodes : fresh.nodeEntries 0 = [] := by
    rw [List.eq_nil_iff_forall_not_mem]
    intro e he
    obtain ⟨j, -, rfl, hval⟩ := mem_nodeEntries.mp he
    rw [hfresh.empty] at hval
    exact hval rfl
  have hnodup : (fresh.usedFrom 1 ++ t.usedFrom (nasize + 1)).Nodup := by
    rw [List.nodup_append]
    refine ⟨fresh.nodup_usedFrom 1, t.nodup_usedFrom _, ?_⟩
    rintro m hm _ hm' rfl
    have hin := (mem_usedFrom.mp hm).2.1
    have hout := (mem_usedFrom.mp hm').1
    omega
  have hsub : fresh.usedFrom 1 ++ t.usedFrom (nasize + 1) ⊆ t.usedFrom 1 := by
    intro m hm
    rcases List.mem_append.mp hm with hm | hm
    · obtain ⟨hpos, hle, hval⟩ := mem_usedFrom.mp hm
      rw [harray _ (by omega)] at hval
      refine mem_usedFrom.mpr ⟨hpos, ?_, hval⟩
      by_contra hlt
      have hge : t.array.length ≤ m - 1 := Nat.le_sub_one_of_lt (not_le.mp hlt)
      exact hval (List.getD_eq_default _ _ hge)
    · obtain ⟨hpos, hrest⟩ := mem_usedFrom.mp hm
      exact mem_usedFrom.mpr ⟨by omega, hrest⟩
  have hle := (hnodup.subperm hsub).length_le
  simp only [entries, moved, arrayEntries, hnodes, List.length_append, List.length_map, List.length_reverse,
    List.length_nil] at hle ⊢
  omega

/-- A resize puts the entries into a table without nodes in use; nothing is lost by that. -/
theorem Sound.resizeWith_eq (h : t.Sound) (hna : nasize ≤ MAXASIZE) (hnh : nhsize ≤ 2 ^ MAXBITS) :
    ∃ fresh, (∀ newkey, t.resizeWith newkey nasize nhsize =
        (t.arrayEntries (nasize + 1)).foldlM (assignKeeping newkey nasize) fresh >>= fun t' =>
          (t.nodeEntries 0).reverse.foldlM (assignWith newkey) t') ∧
      fresh.Sound ∧ fresh.sizearray = nasize ∧ nhsize ≤ fresh.free ∧ (fresh.dummy = true ↔ nhsize = 0) ∧
      fresh.entries.length + (t.moved nasize).length ≤ t.entries.length ∧
      overwrite fresh.lookup (t.moved nasize) = t.lookup := by
  obtain ⟨hlength, harray⟩ := t.resized_array nasize
  obtain ⟨t', hset, hfresh, harray', hroom, hdummy⟩ :=
    (if t.sizearray < nasize then t.setarrayvector nasize else t).setnodevector_spec hnh
  have hfresh' : Fresh { t' with array := t'.array.take nasize } :=
    ⟨hfresh.length, hfresh.empty, hfresh.small, hfresh.lastfree, hfresh.dummy⟩
  rw [← harray'] at hlength harray
  have hsize : sizearray { t' with array := t'.array.take nasize } = nasize := hlength
  refine ⟨_, ?_, hfresh'.sound (hsize.le.trans hna), hsize, ?_, hdummy,
    t.length_moved_le hfresh' hsize harray, h.overwrite_moved hfresh' hna hsize harray⟩
  · intro newkey
    have hfits : t.sizearray ≤ 2 ^ MAXBITS := h.fits
    have hlt : nasize + (t.sizearray - nasize) < 2 ^ 31 := by
      have hbits : (2 : ℕ) ^ MAXBITS < 2 ^ 31 := by decide
      have hna : nasize ≤ 2 ^ MAXBITS := hna
      omega
    unfold resizeWith
    dsimp only
    rw [hset, vanishing_eq, nodeEntries_zero, ← List.map_reverse, ← List.filter_reverse]
    refine (congrArg (fun r => r >>= fun t'' => t.node.reverse.foldlM (reinsertNode newkey) t'')
      (foldlM_reinsertNum newkey _ nasize _ _ _ hlt)).trans ?_
    rw [arrayEntries, usedFrom, show t.sizearray + 1 - (nasize + 1) = t.sizearray - nasize by omega]
    congr 1
    funext t''
    exact foldlM_reinsertNode newkey t'' _
  · rw [hfresh'.free]
    exact hroom

end Resizing
section Setting
variable [LuaNumber N] [LuaMemory N] [LawfulLuaMemory N] {t : Table N} {key : Value N} {nasize : ℕ}

/-- The table `t''` is `t` with a value assigned to a key. -/
structure Sets (t t'' : Table N) (key v : Value N) : Prop where
  sound : t''.Sound
  lookup : ∀ key', t''.lookup key' = if key.rawequal key' then v else t.lookup key'

omit [LawfulLuaMemory N] in
theorem Assigns.sets {t'' : Table N} {v : Value N} (h : Assigns t t'' key v) : Sets t t'' key v :=
  ⟨h.sound, h.lookup⟩

omit [LuaMemory N] [LawfulLuaMemory N] in
/-- The keys that do not go to an array of this size. -/
theorem inside_add_outside (t fresh : Table N) (key : Value N) :
    inside (t.keys ++ [key]) fresh.sizearray + fresh.outside t.entries + (if fresh.InArray key then 0 else 1) =
      t.entries.length + 1 := by
  have hsplit := List.length_eq_countP_add_countP (fun e : Value N × Value N => fresh.InArray e.1) (l := t.entries)
  have hkeys : inside (t.keys ++ [key]) fresh.sizearray =
      (t.entries.countP fun e => fresh.InArray e.1) + if fresh.InArray key then 1 else 0 := by
    unfold inside keys
    rw [List.countP_append, List.countP_map, List.countP_singleton]
    congr 1
    exact if_congr decide_eq_true_iff rfl rfl
  have houtside : fresh.outside t.entries = t.entries.countP fun e => !decide (fresh.InArray e.1) := by
    unfold outside
    simp only [decide_not]
  simp only [decide_not, Bool.decide_eq_true] at hsplit
  split_ifs at hkeys ⊢ <;> omega

omit [LuaMemory N] [LawfulLuaMemory N] in
theorem outside_moved_le (t fresh : Table N) (nasize : ℕ) :
    fresh.outside (t.moved nasize) ≤ fresh.outside t.entries := by
  obtain ⟨es, hperm, hsub⟩ := t.moved_subperm nasize
  unfold outside
  rw [hperm.countP_eq]
  exact hsub.countP_le

/-- A rehash makes room for the key that it is for, and needs no other rehash for that. -/
theorem Sound.rehashWith_spec (h : t.Sound) (hget : t.luaH_get key = none)
    (hcount : t.entries.length < 2 ^ MAXBITS) (depth : ℕ) :
    ∃ t', t.rehashWith (newkey (depth + 1)) key = .ok t' ∧ t'.Sound ∧ t'.lookup = t.lookup ∧
      BestSize (t.keys ++ [key]) t'.sizearray ∧ (¬t'.InArray key → t'.dummy = false ∧ 0 < t'.free) := by
  obtain ⟨hbest, hnodes⟩ := h.rehashSizes_spec hget
  have hnh : (t.rehashSizes key).2 ≤ 2 ^ MAXBITS := by omega
  obtain ⟨fresh, hrun, hfresh, hsize, hroom, hdummy, -, hkept⟩ := h.resizeWith_eq hbest.le hnh
  have hsplit := t.inside_add_outside fresh key
  have hmoved := t.outside_moved_le fresh (t.rehashSizes key).1
  have hparts : fresh.outside (t.moved (t.rehashSizes key).1) =
      fresh.outside (t.arrayEntries ((t.rehashSizes key).1 + 1)) + fresh.outside (t.nodeEntries 0).reverse :=
    List.countP_append
  have hvalid : ∀ e ∈ t.moved (t.rehashSizes key).1, Valid e.1 := fun e he =>
    (h.valid_entry (mem_entries_of_moved he)).1
  rw [hsize] at hsplit
  obtain ⟨t₁, -, hkeep, hsound₁, hlookup₁, hsize₁, hdummy₁, hfree₁⟩ := hfresh.assignAll
    (fun e he => hvalid e (List.mem_append_left _ he)) (by omega) (fun hd => by
      have hzero := hdummy.mp hd
      omega) depth
  have hsame : t₁.outside (t.nodeEntries 0).reverse = fresh.outside (t.nodeEntries 0).reverse := by
    unfold outside
    simp only [inArray_iff hsize₁]
  obtain ⟨t', hmove, -, hsound, hlookup, hsize', hdummy', hfree⟩ := hsound₁.assignAll
    (fun e he => hvalid e (List.mem_append_right _ he)) (by omega) (fun hd => by
      have hzero := hdummy.mp (hdummy₁ ▸ hd)
      omega) depth
  rw [hsize] at hkeep
  refine ⟨t', ?_, hsound, ?_, ?_, ?_⟩
  · refine (hrun _).trans ?_
    rw [hkeep]
    exact hmove
  · rw [hlookup, hlookup₁, ← overwrite_append]
    exact hkept
  · rwa [hsize', hsize₁, hsize]
  · intro hout
    rw [inArray_iff (hsize'.trans hsize₁)] at hout
    rw [if_neg hout] at hsplit
    refine ⟨?_, by omega⟩
    rw [hdummy', hdummy₁, Bool.eq_false_iff, ne_eq, hdummy]
    omega

omit [LawfulLuaMemory N] in
/-- When `getfreepos` finds nothing, the table stays what it is but for `lastfree`. -/
theorem Sound.exhausted (h : t.Sound) (hnone : (t.freeposLoop t.lastfree).1 = none) :
    t.getfreepos = (none, { t with lastfree := 0 }) ∧ Sound { t with lastfree := 0 } := by
  have hspec := t.freeposLoop_spec t.lastfree
  rcases hspec with ⟨i, -, heq, -⟩ | ⟨heq, hused⟩
  · rw [heq] at hnone
    cases hnone
  · refine ⟨by rw [getfreepos, heq], h.length, h.scatter, h.small, h.fits, Nat.zero_le _, ?_, ?_, h.valued, h.keyed⟩
    · intro hdummy i _ hi
      by_cases hlast : i < t.lastfree
      · exact hused i hlast
      · exact h.used hdummy i (not_lt.mp hlast) hi
    · intro hdummy
      exact ⟨(h.dummy hdummy).1, rfl⟩

/-- Any key but nil and NaN gets a value, with a rehash when no node is left for it. -/
theorem Sound.setWith_newkey (h : t.Sound) (hkey : Valid key) (hcount : t.entries.length < 2 ^ MAXBITS)
    (depth : ℕ) (v : Value N) :
    ∃ t' p, t.setWith (newkey (depth + 2)) key = .ok (t', p) ∧ Sets t (t'.write p v) key v ∧
      (t'.sizearray = t.sizearray ∨ BestSize (t.keys ++ [key]) t'.sizearray) := by
  have hsame : ∀ (t' : Table N) p, (t'.write p v).sizearray = t.sizearray → t'.sizearray = t.sizearray := by
    intro t' p hsize
    rwa [sizearray_write] at hsize
  by_cases hroom : ¬t.InArray key → t.dummy = false ∧ 0 < t.free
  · obtain ⟨t', p, hrun, hassign⟩ := h.setWith_spec hkey (depth + 1) hroom v
    exact ⟨t', p, hrun, hassign.sets, .inl (hsame t' p hassign.sizearray)⟩
  rw [Classical.not_imp] at hroom
  obtain ⟨hout, hroom⟩ := hroom
  cases hget : t.luaH_get key with
  | some p =>
    refine ⟨t, p, ?_, (h.assigns_write hget v).sets, .inl rfl⟩
    unfold setWith
    rw [hget]
  | none =>
    have hnew := h.new_of_none hkey hget
    rw [setWith_of_none _ hkey hget]
    by_cases hval : t.dummy = false ∧ (t.gnode (t.mainposition key)).val = .nil
    · obtain ⟨t', i, hrun, hins⟩ := h.newkey_spec hnew hval.1 (.inl hval.2) (depth + 1)
      have hassign := hins.assigns h hnew v
      exact ⟨t', .node i, hrun, hassign.sets, .inl (hsame t' _ hassign.sizearray)⟩
    · have hnone : (t.freeposLoop t.lastfree).1 = none := by
        rcases t.freeposLoop_spec t.lastfree with ⟨i, hi, -, hnil, -⟩ | ⟨heq, -⟩
        · have hle := h.lastfree
          have hfree : 0 < t.free := free_pos_iff.mpr ⟨i, by omega, hnil⟩
          cases hdummy : t.dummy with
          | false => exact absurd ⟨hdummy, hfree⟩ hroom
          | true =>
            rw [(h.dummy hdummy).2] at hi
            exact absurd hi (Nat.not_lt_zero i)
        · rw [heq]
      obtain ⟨hexhausted, hsound⟩ := h.exhausted hnone
      have hbranch : (!ttisnil (t.gnode (t.mainposition key)).val || t.dummy) = true := by
        rw [Bool.or_eq_true, Bool.not_eq_true', ttisnil_eq_false]
        by_cases hd : t.dummy = true
        · exact .inr hd
        · exact .inl fun hnil => hval ⟨Bool.eq_false_iff.mpr hd, hnil⟩
      obtain ⟨t₁, hrehash, hsound₁, hlookup, hbest, hroom₁⟩ := hsound.rehashWith_spec hget hcount depth
      obtain ⟨t', p, hset, hassign⟩ := hsound₁.setWith_spec hkey depth hroom₁ v
      have hsize := hassign.sizearray
      rw [sizearray_write] at hsize
      refine ⟨t', p, ?_, ⟨hassign.sound, ?_⟩, .inr (hsize ▸ hbest)⟩
      · rw [newkey]
        dsimp only
        rw [if_pos hbranch, hexhausted]
        dsimp only
        rw [hrehash]
        exact hset
      · intro key'
        rw [hassign.lookup, hlookup]
        rfl

/-- `luaH_set` gives every key but nil and NaN a place, as long as the table has less than the most entries. -/
theorem Sound.luaH_set_spec (h : t.Sound) (hkey : Valid key) (hcount : t.entries.length < 2 ^ MAXBITS)
    (v : Value N) : ∃ t' p, t.luaH_set key = .ok (t', p) ∧
      Sets t (t'.write p v) key v ∧ (t'.sizearray = t.sizearray ∨ BestSize (t.keys ++ [key]) t'.sizearray) :=
  h.setWith_newkey hkey hcount 0 v

end Setting
end Table
end H1Z1Server.LuaTable
