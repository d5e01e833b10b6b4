import H1Z1Server.Lua.Api

/-! `LuaTableReader`: an iteration over a table whose state lies on the stack of Lua, and the lookups
that may be made in between. -/
namespace H1Z1Server
open LuaApi

structure LuaTableReader where
  L : Bool
  table_ref : ℤ
  current_idx : ℤ
  deriving DecidableEq, Repr

namespace LuaTableReader
variable {N : Type} [LuaNumber N]

/-- `Setup` with a Lua state, for the table at an index. -/
def setup (idx : ℤ) : LuaM N LuaTableReader := do
  let type ← type idx
  if type ≠ .table then
    throw (.exception ("LuaTableReader expected table, got " ++ type.typename))
  pushvalue idx
  let table_ref ← ref
  return { L := true, table_ref, current_idx := -1 }

/-- `Close`, which the destructor calls again. -/
def close (r : LuaTableReader) : LuaM N LuaTableReader := do
  if r.L ∧ r.table_ref ≠ 0 then
    if r.current_idx ≠ 0 then pop 2
    unref r.table_ref
    return { r with L := false, table_ref := -1 }
  else return r

/-- `NextElement`. -/
def nextElement (r : LuaTableReader) : LuaM N (Bool × LuaTableReader) := do
  if r.current_idx = -1 then
    rawgeti r.table_ref
    push .nil
  else pop 1
  let more ← next (-2)
  return (more, { r with current_idx := r.current_idx + 1 })

/-- The getters: with a key, the element at the key is looked up and checked first. -/
def lookup {α : Type} (r : LuaTableReader) (expected : LuaType) (missing : α) (read : LuaM N α) :
    Option (Value N) → LuaM N α
  | none => read
  | some key => do
    rawgeti r.table_ref
    push key
    rawget (-2)
    if (← type (-1)) ≠ expected then return missing
    let result ← read
    pop 2
    return result

def getString (r : LuaTableReader) (key : Option (Value N)) : LuaM N (List UInt8) :=
  r.lookup .string [] (do return (← tolstring (-1)).getD []) key

def getBool (r : LuaTableReader) (key : Option (Value N)) : LuaM N Int32 :=
  r.lookup .boolean (-1) (do return if ← toboolean (-1) then 1 else 0) key

def getNumber (r : LuaTableReader) (key : Option (Value N)) : LuaM N N :=
  r.lookup .number (LuaNumber.ofInt (-1)) (tonumber (-1)) key

def getInt (r : LuaTableReader) (key : Option (Value N)) : LuaM N Int32 :=
  r.lookup .number (-1) (tointeger (-1)) key

/-- `GetLength`. -/
def getLength (r : LuaTableReader) : LuaM N Int32 := do
  if r.current_idx > 0 then return Int32.ofInt (← objlen (-2))
  rawgeti r.table_ref
  let len ← objlen (-1)
  pop 1
  return Int32.ofInt len

/-- Some calls of `NextElement`. -/
def nextElements : ℕ → LuaTableReader → LuaM N LuaTableReader
  | 0, r => return r
  | k + 1, r => do
    let r ← nextElements k r
    let (_, r) ← r.nextElement
    return r

/-- `Setup` and some calls of `NextElement`. -/
def read (idx : ℤ) (k : ℕ) : LuaM N LuaTableReader := do
  let r ← setup idx
  nextElements k r

end LuaTableReader

variable {N : Type} [LuaNumber N]

/-- The stack after some calls of `NextElement`: the table, and the entry that was found last. -/
def iterating (t : Table N) (o : ℕ) (stack : List (Value N)) : ℕ → List (Value N)
  | 0 => stack
  | k + 1 =>
    match t.entries[k]? with
    | some (key, value) => value :: key :: .table o :: stack
    | none => .table o :: stack

theorem iterating_none {t : Table N} {k : ℕ} (h : t.entries[k]? = none) (o : ℕ) (stack : List (Value N)) :
    iterating t o stack (k + 1) = .table o :: stack := by
  rw [iterating, h]

theorem iterating_some {t : Table N} {k : ℕ} {e : Value N × Value N} (h : t.entries[k]? = some e) (o : ℕ)
    (stack : List (Value N)) :
    iterating t o stack (k + 1) = e.2 :: e.1 :: .table o :: stack := by
  rw [iterating, h]

section Reading
variable {stack : List (Value N)} {heap : Heap N} {called : List (Value N × List (Value N))} {o : ℕ}
variable {r : LuaTableReader}

/-- One more call of `NextElement`, up to the first that finds nothing. -/
theorem nextElement_run (stack : List (Value N)) (called : List (Value N × List (Value N)))
    (href : heap.registered r.table_ref = .table o) {k : ℕ}
    (hidx : r.current_idx = k - 1) (hk : k ≤ (heap.tables o).entries.length) :
    r.nextElement.run ⟨iterating (heap.tables o) o stack k, heap, called⟩ =
      .ok ((heap.tables o).entries[k]?.isSome, { r with current_idx := k })
        ⟨iterating (heap.tables o) o stack (k + 1), heap, called⟩ := by
  have hnext : r.current_idx + 1 = k := by omega
  cases k with
  | zero =>
    have hfresh : r.current_idx = -1 := by omega
    have hfirst : (heap.tables o).next .nil = .ok (heap.tables o).entries[0]? := rfl
    simp only [LuaTableReader.nextElement, if_pos hfresh, iterating, EStateM.run_bind, rawgeti_run, href,
      push_run, next_second hfirst, hnext]
    cases (heap.tables o).entries[0]? with
    | none => rfl
    | some e => rfl
  | succ k =>
    have hmore : r.current_idx ≠ -1 := by omega
    obtain ⟨e, he⟩ : ∃ e, (heap.tables o).entries[k]? = some e := ⟨_, List.getElem?_eq_getElem hk⟩
    simp only [LuaTableReader.nextElement, if_neg hmore, iterating, he, EStateM.run_bind, pop_one,
      next_second ((heap.tables o).next_key he), hnext]
    cases (heap.tables o).entries[k + 1]? with
    | none => rfl
    | some e => rfl

theorem nextElements_run (href : heap.registered r.table_ref = .table o) (hidx : r.current_idx = -1)
    {k : ℕ} (hk : k ≤ (heap.tables o).entries.length + 1) :
    (LuaTableReader.nextElements k r).run ⟨stack, heap, called⟩ =
      .ok { r with current_idx := k - 1 } ⟨iterating (heap.tables o) o stack k, heap, called⟩ := by
  induction k with
  | zero =>
    rw [Nat.cast_zero, zero_sub, ← hidx]
    rfl
  | succ k ih =>
    have hlast : ((k + 1 : ℕ) : ℤ) - 1 = k := by omega
    simp only [LuaTableReader.nextElements, EStateM.run_bind, ih (Nat.le_of_succ_le hk), hlast]
    rw [nextElement_run (r := { r with current_idx := k - 1 }) stack called href rfl (Nat.le_of_succ_le_succ hk)]
    rfl

end Reading

/-- A reader after `Setup` and some calls of `NextElement`, for a table that its reference stands for. -/
structure AtPosition (s s' : State N) (r : LuaTableReader) (o k : ℕ) : Prop where
  stack : s'.stack = iterating (s.heap.tables o) o s.stack k
  tables : s'.heap.tables = s.heap.tables
  udataLen : s'.heap.udataLen = s.heap.udataLen
  reference : s'.heap.registered r.table_ref = .table o
  set : r.L = true
  table_ref : r.table_ref ≠ 0
  current_idx : r.current_idx = k - 1

theorem read_run {s : State N} {idx : ℤ} {o : ℕ} (hregistry : s.heap.registry.Valid)
    (htable : (index2adr idx).run s = .ok (some (.table o)) s) {k : ℕ}
    (hk : k ≤ (s.heap.tables o).entries.length + 1) :
    ∃ r s', (LuaTableReader.read idx k).run s = .ok r s' ∧ AtPosition s s' r o k := by
  have hnot : (.table o : Value N) ≠ .nil := nofun
  have hget := RefTable.get_ref_self hregistry (.table o)
  obtain ⟨-, -, hpos, -⟩ := RefTable.ref_spec hregistry (.table o)
  obtain ⟨stack, heap, called⟩ := s
  have hpush : (pushvalue idx).run ⟨stack, heap, called⟩ =
      .ok () ⟨.table o :: stack, heap, called⟩ := by
    simp only [pushvalue, EStateM.run_bind, htable]
    rfl
  have hsetup : (LuaTableReader.setup idx).run ⟨stack, heap, called⟩ =
      .ok ⟨true, (heap.registry.ref (.table o)).1, -1⟩
        ⟨stack, { heap with registry := (heap.registry.ref (.table o)).2 }, called⟩ := by
    simp only [LuaTableReader.setup, EStateM.run_bind, type_of_index htable, Value.type, ne_eq,
      not_true_eq_false, if_false, hpush, ref_run hnot]
    rfl
  refine ⟨⟨true, (heap.registry.ref (.table o)).1, k - 1⟩,
    ⟨iterating (heap.tables o) o stack k, { heap with registry := (heap.registry.ref (.table o)).2 }, called⟩,
    ?_, ?_⟩
  · simp only [LuaTableReader.read, EStateM.run_bind, hsetup]
    exact nextElements_run (Heap.registered_of_get hget) rfl hk
  · constructor
    · rfl
    · rfl
    · rfl
    · exact Heap.registered_of_get hget
    · rfl
    · exact Int.natCast_ne_zero.mpr hpos
    · rfl

section Closing

/-- `Setup`, some calls of `NextElement`, and `Close`. -/
def LuaTableReader.readAndClose (idx : ℤ) (k : ℕ) : LuaM N LuaTableReader := do
  let r ← read idx k
  r.close

/-- How many values lie on the stack above those of the caller. -/
def owned (n : ℕ) : ℕ → ℕ
  | 0 => 0
  | k + 1 => if k < n then 3 else 1

theorem length_iterating (t : Table N) (o : ℕ) (stack : List (Value N)) (k : ℕ) :
    (iterating t o stack k).length = stack.length + owned t.entries.length k := by
  cases k with
  | zero => rfl
  | succ k =>
    rw [iterating, owned]
    by_cases hk : k < t.entries.length
    · rw [List.getElem?_eq_getElem hk, if_pos hk]
      rfl
    · rw [List.getElem?_eq_none (Nat.le_of_not_lt hk), if_neg hk]
      rfl

theorem close_run {r : LuaTableReader} {s : State N} (hL : r.L = true) (href : r.table_ref ≠ 0)
    {r' : LuaTableReader} {s' : State N} (hclose : r.close.run s = .ok r' s') :
    s'.stack.length + (if r.current_idx = 0 then 0 else 2) = s.stack.length := by
  have hopen : r.L = true ∧ r.table_ref ≠ 0 := ⟨hL, href⟩
  by_cases hidx : r.current_idx = 0
  · obtain ⟨heap, hunref⟩ := unref_run r.table_ref s
    simp only [LuaTableReader.close, if_pos hopen, hidx, ne_eq, not_true_eq_false, if_false,
      EStateM.run_bind, hunref] at hclose
    cases hclose
    rw [if_pos hidx, Nat.add_zero]
  · obtain ⟨stack, heap, called⟩ := s
    by_cases hlen : 2 ≤ stack.length
    · obtain ⟨heap', hunref⟩ := unref_run r.table_ref ⟨stack.drop 2, heap, called⟩
      have hpop : (pop 2).run ⟨stack, heap, called⟩ = .ok () ⟨stack.drop 2, heap, called⟩ := pop_run hlen
      simp only [LuaTableReader.close, if_pos hopen, ne_eq, hidx, not_false_eq_true, if_true,
        EStateM.run_bind, hpop, hunref] at hclose
      cases hclose
      rw [if_neg hidx]
      show (stack.drop 2).length + 2 = stack.length
      rw [List.length_drop, Nat.sub_add_cancel hlen]
    · have hpop : (pop 2).run ⟨stack, heap, called⟩ = .error .undefinedBehaviour ⟨stack, heap, called⟩ :=
        pop_run_of_lt (Nat.lt_of_not_le hlen)
      simp only [LuaTableReader.close, if_pos hopen, ne_eq, hidx, not_false_eq_true, if_true,
        EStateM.run_bind, hpop] at hclose
      cases hclose

/-- The reader never leaves the stack of its caller, whenever it stops. -/
theorem readAndClose_disturbs {s : State N} {idx : ℤ} {o : ℕ} (hregistry : s.heap.registry.Valid)
    (htable : (index2adr idx).run s = .ok (some (.table o)) s) {k : ℕ}
    (hk : k ≤ (s.heap.tables o).entries.length + 1) :
    ¬∃ r s', (LuaTableReader.readAndClose idx k).run s = .ok r s' ∧ s'.stack = s.stack := by
  rintro ⟨r', s', hrun, hstack⟩
  obtain ⟨r, s₁, hread, hat⟩ := read_run hregistry htable hk
  simp only [LuaTableReader.readAndClose, EStateM.run_bind, hread] at hrun
  have hclose := close_run hat.set hat.table_ref hrun
  rw [hat.stack, length_iterating, hat.current_idx, hstack] at hclose
  cases k with
  | zero =>
    rw [owned, if_neg (by omega)] at hclose
    omega
  | succ k =>
    rw [owned] at hclose
    split at hclose <;> split at hclose <;> omega

theorem readAndClose_disturbs_example :
    ¬∃ r s', (LuaTableReader.readAndClose (-1) 0).run
      (⟨[.table 0, .boolean true], .single .empty, []⟩ : State ℤ) = .ok r s' ∧
        s'.stack = [.table 0, .boolean true] :=
  readAndClose_disturbs RefTable.valid_empty index2adr_first (Nat.zero_le _)

/-- After one call for an empty table, the table stays on the stack. -/
theorem empty_table_left_behind :
    ¬∃ r s', (LuaTableReader.readAndClose (-1) 1).run (⟨[.table 0], .single .empty, []⟩ : State ℤ) = .ok r s' ∧
        s'.stack = [.table 0] := by
  rintro ⟨r, s', hrun, hstack⟩
  have hleft : (LuaTableReader.readAndClose (-1) 1).run (⟨[.table 0], .single .empty, []⟩ : State ℤ) =
      .ok ⟨false, -1, 0⟩ ⟨[.table 0, .table 0], _, []⟩ := rfl
  rw [hleft] at hrun
  cases hrun
  exact absurd hstack (by decide)

end Closing

end H1Z1Server
