import Mathlib.Tactic
import Mathlib.Logic.Function.Basic

/-! A table of references whose free entries form a list through the table itself, as
`luaL_ref` and `luaL_unref` keep it. -/
namespace RefTable
variable {V : Type}

/-- An entry holds a value, or the number of the next free entry. The last free one has 0, and stands for the
nil that `luaL_unref` stores there. -/
inductive Slot (V : Type) where
  | value (v : V)
  | link (next : ℕ)

end RefTable

/-- The table: its first free entry, its length, and its entries from 1 on. -/
structure RefTable (V : Type) where
  free : ℕ
  size : ℕ
  slots : ℕ → RefTable.Slot V

namespace RefTable
variable {V : Type}

def empty : RefTable V := ⟨0, 0, fun _ => .link 0⟩

def get (t : RefTable V) (r : ℕ) : Option V :=
  match t.slots r with
  | .value v => some v
  | .link _ => none

def next (t : RefTable V) (r : ℕ) : ℕ :=
  match t.slots r with
  | .value _ => 0
  | .link n => n

/-- A new reference: the first free entry, or one behind the last. -/
def ref (t : RefTable V) (v : V) : ℕ × RefTable V :=
  if t.free ≠ 0 then
    (t.free, { t with free := t.next t.free, slots := Function.update t.slots t.free (.value v) })
  else
    (t.size + 1,
      { t with size := t.size + 1, slots := Function.update t.slots (t.size + 1) (.value v) })

def unref (t : RefTable V) (r : ℕ) : RefTable V :=
  { t with free := r, slots := Function.update t.slots r (.link t.free) }

/-- The free list from an entry on. -/
inductive Chain (slots : ℕ → Slot V) : ℕ → List ℕ → Prop where
  | nil : Chain slots 0 []
  | cons {r n : ℕ} {rest : List ℕ} (hr : r ≠ 0) (hlink : slots r = .link n)
      (htail : Chain slots n rest) : Chain slots r (r :: rest)

/-- The free list does not run in circles, and nothing is kept behind the last entry. -/
structure Valid (t : RefTable V) : Prop where
  chain : ∃ list, Chain t.slots t.free list ∧ list.Nodup ∧ ∀ r ∈ list, r ≤ t.size
  beyond : ∀ r, t.size < r → t.get r = none
  zero : t.get 0 = none

theorem valid_empty : Valid (empty : RefTable V) :=
  ⟨⟨[], .nil, List.nodup_nil, by simp⟩, fun _ _ => rfl, rfl⟩

theorem Chain.update {slots : ℕ → Slot V} {n r : ℕ} {list : List ℕ} (h : Chain slots n list)
    (hr : r ∉ list) (x : Slot V) : Chain (Function.update slots r x) n list := by
  induction h with
  | nil => exact .nil
  | cons hne hlink _ ih =>
    rw [List.mem_cons, not_or] at hr
    exact .cons hne (by rw [Function.update_of_ne (Ne.symm hr.1), hlink]) (ih hr.2)

theorem Chain.link_of_mem {slots : ℕ → Slot V} {n r : ℕ} {list : List ℕ} (h : Chain slots n list)
    (hr : r ∈ list) : ∃ k, slots r = .link k := by
  induction h with
  | nil => cases hr
  | cons _ hlink _ ih =>
    rcases List.mem_cons.mp hr with rfl | hr
    · exact ⟨_, hlink⟩
    · exact ih hr

theorem Chain.head {slots : ℕ → Slot V} {n : ℕ} {list : List ℕ} (h : Chain slots n list) (hn : n ≠ 0) :
    ∃ k rest, list = n :: rest ∧ slots n = .link k ∧ Chain slots k rest := by
  cases h with
  | nil => exact absurd rfl hn
  | cons _ hlink htail => exact ⟨_, _, rfl, hlink, htail⟩

theorem get_update (t : RefTable V) (r k : ℕ) (x : Slot V) (free size : ℕ) :
    get ⟨free, size, Function.update t.slots r x⟩ k =
      if k = r then (match x with | .value v => some v | .link _ => none) else t.get k := by
  by_cases hk : k = r
  · subst hk
    simp only [get, Function.update_self, if_true]
  · simp only [get, Function.update_of_ne hk, if_neg hk]

/-- A new reference was free before, and stands for its value; the others stand for what they did. -/
theorem ref_spec {t : RefTable V} (h : Valid t) (v : V) :
    Valid (t.ref v).2 ∧ t.get (t.ref v).1 = none ∧ (t.ref v).1 ≠ 0 ∧
      ∀ k, (t.ref v).2.get k = if k = (t.ref v).1 then some v else t.get k := by
  obtain ⟨⟨list, hchain, hnodup, hle⟩, hbeyond, hzero⟩ := h
  by_cases hfree : t.free = 0
  · have href : t.ref v = (t.size + 1, { t with
        size := t.size + 1, slots := Function.update t.slots (t.size + 1) (.value v) }) := by
      simp [ref, hfree]
    rw [href]
    refine ⟨⟨⟨[], ?_, List.nodup_nil, by simp⟩, ?_, ?_⟩, hbeyond _ (by omega), by omega, ?_⟩
    · show Chain _ t.free []
      rw [hfree]
      exact .nil
    · intro r hr
      rw [get_update, if_neg (by simp only at hr; omega)]
      exact hbeyond r (by simp only at hr; omega)
    · rw [get_update, if_neg (by omega), hzero]
    · intro k
      rw [get_update]
  · have href : t.ref v = (t.free, { t with
        free := t.next t.free, slots := Function.update t.slots t.free (.value v) }) := by
      simp [ref, hfree]
    rw [href]
    obtain ⟨n, rest, rfl, hlink, htail⟩ := hchain.head hfree
    rw [List.nodup_cons] at hnodup
    have hnone : t.get t.free = none := by rw [get, hlink]
    have hnext : t.next t.free = n := by rw [next, hlink]
    have hle' := hle t.free List.mem_cons_self
    refine ⟨⟨⟨rest, ?_, hnodup.2, fun r hr => hle r (List.mem_cons_of_mem _ hr)⟩, ?_, ?_⟩, hnone,
      hfree, ?_⟩
    · rw [hnext]
      exact htail.update hnodup.1 _
    · intro r hr
      rw [get_update, if_neg (by simp only at hr; omega)]
      exact hbeyond r hr
    · rw [get_update, if_neg (Ne.symm hfree), hzero]
    · intro k
      rw [get_update]

/-- A reference that stands for a value can be given back; the others stand for what they did. -/
theorem unref_spec {t : RefTable V} (h : Valid t) {r : ℕ} {v : V} (hr : t.get r = some v) :
    Valid (t.unref r) ∧ ∀ k, (t.unref r).get k = if k = r then none else t.get k := by
  obtain ⟨⟨list, hchain, hnodup, hle⟩, hbeyond, hzero⟩ := h
  have hget : ∀ k, (t.unref r).get k = if k = r then none else t.get k := fun k => get_update ..
  have hmem : r ∉ list := by
    intro hmem
    obtain ⟨k, hlink⟩ := hchain.link_of_mem hmem
    rw [get, hlink] at hr
    cases hr
  have hpos : r ≠ 0 := by
    rintro rfl
    rw [hzero] at hr
    cases hr
  have hsize : r ≤ t.size := by
    by_contra hlt
    rw [hbeyond r (by omega)] at hr
    cases hr
  refine ⟨⟨⟨r :: list, .cons hpos (Function.update_self ..) (hchain.update hmem _),
    List.nodup_cons.mpr ⟨hmem, hnodup⟩, ?_⟩, ?_, ?_⟩, hget⟩
  · intro k hk
    rcases List.mem_cons.mp hk with rfl | hk
    · exact hsize
    · exact hle k hk
  · intro k hk
    rw [hget]
    split
    · rfl
    · exact hbeyond k hk
  · rw [hget, if_neg (Ne.symm hpos), hzero]

theorem get_ref_self {t : RefTable V} (h : Valid t) (v : V) :
    (t.ref v).2.get (t.ref v).1 = some v := by
  rw [(ref_spec h v).2.2.2, if_pos rfl]

theorem get_ref_of_some {t : RefTable V} (h : Valid t) (v : V) {k : ℕ} {w : V}
    (hk : t.get k = some w) : (t.ref v).2.get k = some w := by
  obtain ⟨-, hfresh, -, hget⟩ := ref_spec h v
  rw [hget, if_neg, hk]
  rintro rfl
  rw [hfresh] at hk
  cases hk

theorem get_unref_of_ne {t : RefTable V} (h : Valid t) {r : ℕ} {v : V} (hr : t.get r = some v) {k : ℕ}
    (hk : k ≠ r) : (t.unref r).get k = t.get k := by
  rw [(unref_spec h hr).2, if_neg hk]

end RefTable
