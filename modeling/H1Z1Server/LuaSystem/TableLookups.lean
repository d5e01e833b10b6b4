import H1Z1Server.LuaSystem.TableReader

/-! What may be asked of a `LuaTableReader` in the middle of an iteration: elements by their keys, and
the length of the table. -/
namespace H1Z1Server
open LuaApi
variable {N : Type} [LuaNumber N]

namespace LuaTableReader

inductive Getter where
  | getString
  | getBool
  | getNumber
  | getInt
  deriving DecidableEq, Repr

/-- The type that an element has to have. -/
def Getter.type : Getter → LuaType
  | getString => .string
  | getBool => .boolean
  | getNumber => .number
  | getInt => .number

/-- A call of a getter, whose result is not used. -/
def Getter.call (g : Getter) (r : LuaTableReader) (key : Option (Value N)) : LuaM N Unit :=
  match g with
  | getString => discard (r.getString key)
  | getBool => discard (r.getBool key)
  | getNumber => discard (r.getNumber key)
  | getInt => discard (r.getInt key)

/-- The entries that the next calls of `NextElement` find, up to the call that finds none. -/
def remaining : ℕ → LuaTableReader → LuaM N (List (Value N × Value N))
  | 0, _ => return []
  | calls + 1, r => do
    let (more, r) ← r.nextElement
    if more then
      let key ← index2adr (-2)
      let value ← index2adr (-1)
      let entries ← remaining calls r
      return (key.getD .nil, value.getD .nil) :: entries
    else return []

/-- A keyed call leaves the stack as it is, and the iteration goes on with these entries. -/
def Undisturbed (g : Getter) (key : Value N) (r : LuaTableReader) (s : State N)
    (entries : List (Value N × Value N)) : Prop :=
  ∃ s₁, (g.call r (some key)).run s = .ok () s₁ ∧ s₁.stack = s.stack ∧
    ∃ s₂, (r.remaining (entries.length + 1)).run s₁ = .ok entries s₂

/-- `GetLength` gives the length of the table, and leaves the stack as it is. -/
def GivesLength (r : LuaTableReader) (s : State N) (o : ℕ) : Prop :=
  ∃ s', r.getLength.run s = .ok (Int32.ofInt (s.heap.tables o).getn) s' ∧ s'.stack = s.stack

end LuaTableReader

open LuaTableReader

section Lookups
variable {stack : List (Value N)} {heap : Heap N} {called : List (Value N × List (Value N))} {o : ℕ}
variable {r : LuaTableReader}

/-- A look-up of an element of another type returns early. -/
theorem lookup_missing (href : heap.registered r.table_ref = .table o) {α : Type} {expected : LuaType}
    (missing : α) (read : LuaM N α) {key : Value N} (htype : ((heap.tables o).get key).type ≠ expected) :
    (r.lookup expected missing read (some key)).run ⟨stack, heap, called⟩ =
      .ok missing ⟨(heap.tables o).get key :: .table o :: stack, heap, called⟩ := by
  simp only [lookup, EStateM.run_bind, rawgeti_run, href, push_run, rawget_second, type_first, ne_eq,
    htype, not_false_eq_true, if_true]
  rfl

/-- A function that reads the value on the top, if it is of a type, and changes nothing. -/
def ReadsTop {α : Type} (read : LuaM N α) (expected : LuaType) : Prop :=
  ∀ (v : Value N) stack heap called, v.type = expected →
    ∃ a, read.run ⟨v :: stack, heap, called⟩ = .ok a ⟨v :: stack, heap, called⟩

theorem readsTop_string : ReadsTop (N := N) (do return (← tolstring (-1)).getD []) .string := by
  intro v stack heap called hv
  cases v with
  | string s =>
    refine ⟨s, ?_⟩
    simp only [EStateM.run_bind, tolstring_first]
    rfl
  | _ => cases hv

theorem readsTop_boolean :
    ReadsTop (N := N) (do return if ← toboolean (-1) then (1 : Int32) else 0) .boolean := by
  intro v stack heap called hv
  cases v with
  | boolean b =>
    refine ⟨if b then 1 else 0, ?_⟩
    simp only [toboolean, EStateM.run_bind, index2adr_first]
    cases b with
    | false => rfl
    | true => rfl
  | _ => cases hv

theorem readsTop_number : ReadsTop (N := N) (tonumber (-1)) .number := by
  intro v stack heap called hv
  cases v with
  | number n =>
    refine ⟨n, ?_⟩
    simp only [tonumber, EStateM.run_bind, index2adr_first]
    rfl
  | _ => cases hv

theorem readsTop_integer : ReadsTop (N := N) (tointeger (-1)) .number := by
  intro v stack heap called hv
  cases v with
  | number n =>
    refine ⟨LuaNumber.toInteger n, ?_⟩
    simp only [tointeger, EStateM.run_bind, index2adr_first]
    rfl
  | _ => cases hv

/-- A look-up of an element of the expected type cleans up. -/
theorem lookup_found (href : heap.registered r.table_ref = .table o) {α : Type} {expected : LuaType}
    (missing : α) {read : LuaM N α} (hread : ReadsTop read expected) {key : Value N}
    (htype : ((heap.tables o).get key).type = expected) :
    ∃ result, (r.lookup expected missing read (some key)).run ⟨stack, heap, called⟩ =
      .ok result ⟨stack, heap, called⟩ := by
  obtain ⟨result, hresult⟩ := hread _ (.table o :: stack) heap called htype
  refine ⟨result, ?_⟩
  simp only [lookup, EStateM.run_bind, rawgeti_run, href, push_run, rawget_second, type_first, ne_eq,
    htype, not_true_eq_false, if_false, hresult, pop_two]
  rfl

theorem discard_run {α : Type} {x : LuaM N α} {s s' : State N} {a : α} (h : x.run s = .ok a s') :
    (discard x).run s = .ok () s' := by
  show (x >>= fun _ => pure ()).run s = .ok () s'
  rw [EStateM.run_bind, h]
  rfl

theorem call_missing (href : heap.registered r.table_ref = .table o) {g : Getter} {key : Value N}
    (htype : ((heap.tables o).get key).type ≠ g.type) :
    (g.call r (some key)).run ⟨stack, heap, called⟩ =
      .ok () ⟨(heap.tables o).get key :: .table o :: stack, heap, called⟩ := by
  cases g with
  | getString => exact discard_run (lookup_missing href _ _ htype)
  | getBool => exact discard_run (lookup_missing href _ _ htype)
  | getNumber => exact discard_run (lookup_missing href _ _ htype)
  | getInt => exact discard_run (lookup_missing href _ _ htype)

theorem call_found (href : heap.registered r.table_ref = .table o) {g : Getter} {key : Value N}
    (htype : ((heap.tables o).get key).type = g.type) :
    (g.call r (some key)).run ⟨stack, heap, called⟩ = .ok () ⟨stack, heap, called⟩ := by
  cases g with
  | getString => exact discard_run (lookup_found href _ readsTop_string htype).choose_spec
  | getBool => exact discard_run (lookup_found href _ readsTop_boolean htype).choose_spec
  | getNumber => exact discard_run (lookup_found href _ readsTop_number htype).choose_spec
  | getInt => exact discard_run (lookup_found href _ readsTop_integer htype).choose_spec

/-- From an undisturbed position, the remaining calls find the remaining entries. -/
theorem remaining_run (href : heap.registered r.table_ref = .table o) {k : ℕ}
    (hidx : r.current_idx = k - 1) (hk : k ≤ (heap.tables o).entries.length)
    {entries : List (Value N × Value N)} (hentries : (heap.tables o).entries.drop k = entries) :
    (r.remaining (entries.length + 1)).run ⟨iterating (heap.tables o) o stack k, heap, called⟩ =
      .ok entries ⟨.table o :: stack, heap, called⟩ := by
  induction entries generalizing k r with
  | nil =>
    have hnone : (heap.tables o).entries[k]? = none :=
      List.getElem?_eq_none (List.drop_eq_nil_iff.mp hentries)
    have hstep := nextElement_run stack called href hidx hk
    rw [hnone, iterating_none hnone] at hstep
    simp only [remaining, EStateM.run_bind, hstep, Option.isSome_none, Bool.false_eq_true, if_false]
    rfl
  | cons e entries ih =>
    have hsome : (heap.tables o).entries[k]? = some e := by
      rw [← List.head?_drop, hentries, List.head?_cons]
    have hrest : (heap.tables o).entries.drop (k + 1) = entries := by
      rw [← List.tail_drop, hentries, List.tail_cons]
    have hlt := (List.getElem?_eq_some_iff.mp hsome).1
    have hstep := nextElement_run stack called href hidx hk
    have hnext := ih (r := { r with current_idx := k }) href (k := k + 1) (by simp) hlt hrest
    rw [hsome, iterating_some hsome] at hstep
    rw [iterating_some hsome] at hnext
    rw [List.length_cons, remaining]
    simp only [EStateM.run_bind, hstep, Option.isSome_some, if_true, index2adr_second, index2adr_first,
      hnext]
    rfl

end Lookups

/-- At any position of an iteration, a keyed call of a getter disturbs nothing exactly when the
element at its key is of the type that the getter asks for. -/
theorem undisturbed_iff {s : State N} {idx : ℤ} {o : ℕ} (hregistry : s.heap.registry.Valid)
    (htable : (index2adr idx).run s = .ok (some (.table o)) s) {k : ℕ}
    (hk : k ≤ (s.heap.tables o).entries.length) :
    ∃ r s', (read idx k).run s = .ok r s' ∧ ∀ (g : Getter) (key : Value N),
      Undisturbed g key r s' ((s.heap.tables o).entries.drop k) ↔
        ((s.heap.tables o).get key).type = g.type := by
  obtain ⟨r, s', hread, hat⟩ := read_run hregistry htable (Nat.le_succ_of_le hk)
  refine ⟨r, s', hread, ?_⟩
  intro g key
  obtain ⟨stack, heap, called⟩ := s'
  obtain ⟨hstack, htables, -, href, -, -, hidx⟩ := hat
  dsimp only at hstack htables href
  rw [← htables] at hstack hk ⊢
  constructor
  · rintro ⟨s₁, hcall, hsame, -⟩
    by_contra htype
    rw [call_missing href htype] at hcall
    cases hcall
    have hlength := congrArg List.length hsame
    simp only [List.length_cons] at hlength
    omega
  · intro htype
    refine ⟨_, call_found href htype, rfl, ?_⟩
    rw [hstack]
    exact ⟨_, remaining_run href hidx hk rfl⟩

/-- The table `{ a = 1 }`. -/
def oneEntry : Table ℤ := ⟨[(.string [97], .number 1)], 0, by decide, by decide, by decide, by decide⟩

theorem undisturbed_iff_example :
    ∃ r s', (read (-1) 1).run (⟨[.table 0], .single oneEntry, []⟩ : State ℤ) = .ok r s' ∧
      ∀ (g : Getter) (key : Value ℤ),
        Undisturbed g key r s' (oneEntry.entries.drop 1) ↔ (oneEntry.get key).type = g.type :=
  undisturbed_iff RefTable.valid_empty index2adr_first le_rfl

/-- Asked for the number at `a` as a string, the reader leaves the number and the table behind. -/
theorem mismatch_left_behind :
    ∃ r s', (read (-1) 1).run (⟨[.table 0], .single oneEntry, []⟩ : State ℤ) = .ok r s' ∧
      ¬Undisturbed .getString (.string [97]) r s' [] := by
  refine ⟨_, _, rfl, ?_⟩
  rintro ⟨s₁, hcall, hsame, -⟩
  cases hcall
  exact absurd hsame (by decide)

section Length
variable {stack : List (Value N)} {heap : Heap N} {called : List (Value N × List (Value N))} {o : ℕ}
variable {r : LuaTableReader}

/-- Before the second entry, the length is that of the table. -/
theorem getLength_early (href : heap.registered r.table_ref = .table o) (hidx : r.current_idx ≤ 0) :
    r.getLength.run ⟨stack, heap, called⟩ =
      .ok (Int32.ofInt (heap.tables o).getn) ⟨stack, heap, called⟩ := by
  have hearly : ¬r.current_idx > 0 := by omega
  have hlen : (objlen (-1)).run ⟨.table o :: stack, heap, called⟩ =
      .ok (heap.tables o).getn ⟨.table o :: stack, heap, called⟩ :=
    objlen_of_index index2adr_first nofun
  simp only [getLength, if_neg hearly, EStateM.run_bind, rawgeti_run, href, hlen, pop_one]
  rfl

/-- From then on, it is that of the key. -/
theorem getLength_late (hidx : 0 < r.current_idx) {value key : Value N} (hkey : key.type ≠ .number) :
    r.getLength.run ⟨value :: key :: stack, heap, called⟩ =
      .ok (Int32.ofInt (heap.lengthOf key)) ⟨value :: key :: stack, heap, called⟩ := by
  simp only [getLength, if_pos hidx, EStateM.run_bind, objlen_of_index index2adr_second hkey]
  rfl

theorem getLength_late_number (hidx : 0 < r.current_idx) {value : Value N} {n : N} :
    r.getLength.run ⟨value :: .number n :: stack, heap, called⟩ =
      .ok (Int32.ofInt (LuaNumber.text n).length)
        ⟨value :: .string (LuaNumber.text n) :: stack, heap, called⟩ := by
  simp only [getLength, if_pos hidx, EStateM.run_bind, objlen_second_number]
  rfl

/-- Behind the first entry, the length of the key has to pass for that of the table. -/
theorem givesLength_late_iff (hidx : 0 < r.current_idx) {value key : Value N} :
    GivesLength r ⟨value :: key :: stack, heap, called⟩ o ↔
      key.type ≠ .number ∧ Int32.ofInt (heap.lengthOf key) = Int32.ofInt (heap.tables o).getn := by
  constructor
  · rintro ⟨s₁, hlength, hsame⟩
    by_cases htype : key.type = .number
    · cases key with
      | number n =>
        rw [getLength_late_number hidx] at hlength
        injection hlength with _ hstate
        rw [← hstate] at hsame
        cases hsame
      | _ => cases htype
    · rw [getLength_late hidx htype] at hlength
      injection hlength with hlength
      exact ⟨htype, hlength⟩
  · rintro ⟨htype, hlength⟩
    refine ⟨_, ?_, rfl⟩
    rw [getLength_late hidx htype, hlength]

theorem lengthOf_eq {heap' : Heap N} (htables : heap'.tables = heap.tables)
    (hudata : heap'.udataLen = heap.udataLen) (v : Value N) : heap'.lengthOf v = heap.lengthOf v := by
  cases v with
  | userdata o => exact congrFun hudata o
  | table o => exact congrArg Table.getn (congrFun htables o)
  | _ => rfl

end Length

/-- After some calls of `NextElement` that have found entries, `GetLength` is right exactly up to the
first entry, and at entries whose key is no number and happens to be as long as the table. -/
theorem givesLength_iff {s : State N} {idx : ℤ} {o : ℕ} (hregistry : s.heap.registry.Valid)
    (htable : (index2adr idx).run s = .ok (some (.table o)) s) {k : ℕ}
    (hk : k ≤ (s.heap.tables o).entries.length) :
    ∃ r s', (read idx k).run s = .ok r s' ∧
      (GivesLength r s' o ↔ k ≤ 1 ∨ ∃ e, (s.heap.tables o).entries[k - 1]? = some e ∧
        e.1.type ≠ .number ∧
        Int32.ofInt (s.heap.lengthOf e.1) = Int32.ofInt (s.heap.tables o).getn) := by
  obtain ⟨r, s', hread, hat⟩ := read_run hregistry htable (Nat.le_succ_of_le hk)
  refine ⟨r, s', hread, ?_⟩
  obtain ⟨stack, heap, called⟩ := s'
  obtain ⟨hstack, htables, hudata, href, -, -, hidx⟩ := hat
  dsimp only at hstack htables hudata href
  by_cases hearly : k ≤ 1
  · constructor
    · intro _
      exact .inl hearly
    · intro _
      exact ⟨_, getLength_early href (by omega), rfl⟩
  · obtain ⟨k, rfl⟩ : ∃ n, k = n + 1 := ⟨k - 1, by omega⟩
    have hlate : 0 < r.current_idx := by omega
    obtain ⟨e, he⟩ : ∃ e, (s.heap.tables o).entries[k]? = some e := ⟨_, List.getElem?_eq_getElem hk⟩
    rw [iterating_some he] at hstack
    subst hstack
    rw [givesLength_late_iff hlate, htables, lengthOf_eq htables hudata, Nat.add_sub_cancel, he]
    constructor
    · intro hlength
      exact .inr ⟨e, rfl, hlength⟩
    · rintro (hfirst | ⟨e', he', hlength⟩)
      · exact absurd hfirst hearly
      · obtain rfl := Option.some.inj he'
        exact hlength

theorem givesLength_iff_example :
    ∃ r s', (read (-1) 1).run (⟨[.table 0], .single oneEntry, []⟩ : State ℤ) = .ok r s' ∧
      (GivesLength r s' 0 ↔ 1 ≤ 1 ∨ ∃ e, oneEntry.entries[1 - 1]? = some e ∧ e.1.type ≠ .number ∧
        Int32.ofInt ((Heap.single oneEntry).lengthOf e.1) = Int32.ofInt oneEntry.getn) :=
  givesLength_iff RefTable.valid_empty index2adr_first le_rfl

/-- The array `{ true, true, true }`. -/
def threeEntries : Table ℤ :=
  ⟨[(.number 1, .boolean true), (.number 2, .boolean true), (.number 3, .boolean true)], 3,
    by decide, by decide, by decide, by decide⟩

/-- At the second entry of an array of three, the length of its key is given, which has become a
string. -/
theorem second_key_measured :
    ∃ r s', (read (-1) 2).run (⟨[.table 0], .single threeEntries, []⟩ : State ℤ) = .ok r s' ∧
      ¬GivesLength r s' 0 := by
  refine ⟨⟨true, 1, 1⟩, ⟨[.boolean true, .number 2, .table 0, .table 0],
    { Heap.single threeEntries with registry := (RefTable.empty.ref (.table 0)).2 }, []⟩, rfl, ?_⟩
  rintro ⟨s₁, hlength, hsame⟩
  have hlate : 0 < (⟨true, 1, 1⟩ : LuaTableReader).current_idx := by decide
  rw [getLength_late_number hlate] at hlength
  injection hlength with _ hstate
  rw [← hstate] at hsame
  cases hsame

end H1Z1Server
