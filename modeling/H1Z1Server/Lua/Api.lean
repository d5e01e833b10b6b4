import H1Z1Server.Stream.Buffer
import H1Z1Server.Library.RefTable

/-! The Lua API as the functions of `LuaSystem` use it: the values of one stack frame, and the
objects that they stand for. -/
namespace H1Z1Server.LuaApi

/-- Objects are known by their numbers. Numbers are of any type that has what Lua asks of them. -/
inductive Value (N : Type) where
  | nil
  | boolean (b : Bool)
  | lightuserdata (p : ℕ)
  | number (n : N)
  | string (s : List UInt8)
  | table (o : ℕ)
  | function (o : ℕ)
  | userdata (o : ℕ)
  | thread (o : ℕ)
  deriving DecidableEq

inductive LuaType where
  | none
  | nil
  | boolean
  | lightuserdata
  | number
  | string
  | table
  | function
  | userdata
  | thread
  deriving DecidableEq, Repr

/-- `lua_typename`. -/
def LuaType.typename : LuaType → String
  | none => "no value"
  | nil => "nil"
  | boolean => "boolean"
  | lightuserdata => "userdata"
  | number => "number"
  | string => "string"
  | table => "table"
  | function => "function"
  | userdata => "userdata"
  | thread => "thread"

/-- What Lua takes from the platform about numbers: how they compare, and their conversions. -/
class LuaNumber (N : Type) where
  eq : N → N → Bool
  ofInt : ℤ → N
  toInteger : N → Int32
  text : N → List UInt8
  numeral : List UInt8 → Option N

/-- Numbers without a fraction. -/
instance : LuaNumber ℤ where
  eq a b := a = b
  ofInt n := n
  toInteger n := Int32.ofInt n
  text n := (toString n).toList.map fun c => UInt8.ofNat c.toNat
  numeral s := (String.ofList (s.map fun b => Char.ofNat b.toNat)).toInt?

/-- What Lua takes for granted of the equality of numbers, which need not be reflexive. -/
class LawfulLuaNumber (N : Type) [LuaNumber N] : Prop where
  eq_symm : ∀ a b : N, LuaNumber.eq a b = true → LuaNumber.eq b a = true
  eq_trans : ∀ a b c : N, LuaNumber.eq a b = true → LuaNumber.eq b c = true → LuaNumber.eq a c = true

instance : LawfulLuaNumber ℤ where
  eq_symm _ _ h := decide_eq_true (of_decide_eq_true h).symm
  eq_trans _ _ _ h h' := decide_eq_true ((of_decide_eq_true h).trans (of_decide_eq_true h'))

variable {N : Type}

namespace Value

def type : Value N → LuaType
  | nil => .nil
  | boolean _ => .boolean
  | lightuserdata _ => .lightuserdata
  | number _ => .number
  | string _ => .string
  | table _ => .table
  | function _ => .function
  | userdata _ => .userdata
  | thread _ => .thread

/-- `luaO_rawequalObj`. A number need not equal itself. -/
def rawequal [LuaNumber N] : Value N → Value N → Bool
  | nil, nil => true
  | boolean a, boolean b => a = b
  | lightuserdata a, lightuserdata b => a = b
  | number a, number b => LuaNumber.eq a b
  | string a, string b => a = b
  | table a, table b => a = b
  | function a, function b => a = b
  | userdata a, userdata b => a = b
  | thread a, thread b => a = b
  | _, _ => false

/-- Except for numbers, it is equality. -/
theorem rawequal_iff [LuaNumber N] {v w : Value N} : v.rawequal w = true ↔
    (∃ a b, v = number a ∧ w = number b ∧ LuaNumber.eq a b = true) ∨ v.type ≠ .number ∧ v = w := by
  cases v <;> cases w <;> simp [rawequal, type]

variable [LuaNumber N] [LawfulLuaNumber N]

theorem rawequal_symm (v w : Value N) (h : v.rawequal w = true) : w.rawequal v = true := by
  rw [rawequal_iff] at h ⊢
  rcases h with ⟨a, b, rfl, rfl, hab⟩ | ⟨htype, rfl⟩
  · exact .inl ⟨b, a, rfl, rfl, LawfulLuaNumber.eq_symm a b hab⟩
  · exact .inr ⟨htype, rfl⟩

theorem rawequal_trans (u v w : Value N) (h : u.rawequal v = true) (h' : v.rawequal w = true) :
    u.rawequal w = true := by
  rw [rawequal_iff] at h h' ⊢
  rcases h with ⟨a, b, rfl, rfl, hab⟩ | ⟨htype, rfl⟩
  · rcases h' with ⟨b', c, hb, rfl, hbc⟩ | ⟨htype, -⟩
    · cases hb
      exact .inl ⟨a, c, rfl, rfl, LawfulLuaNumber.eq_trans a b c hab hbc⟩
    · exact absurd rfl htype
  · exact h'

end Value

/-- A table: its entries in the order in which `luaH_next` finds them, and the boundary that
`luaH_getn` finds. -/
structure Table (N : Type) [LuaNumber N] where
  entries : List (Value N × Value N)
  getn : ℕ
  apart : entries.Pairwise fun a b => a.1.rawequal b.1 = false
  found : ∀ e ∈ entries, e.1.rawequal e.1 = true
  keyed : ∀ e ∈ entries, e.1 ≠ .nil
  valued : ∀ e ∈ entries, e.2 ≠ .nil

variable [LuaNumber N]

namespace Table

def empty : Table N := ⟨[], 0, .nil, by simp, by simp, by simp⟩

/-- `luaH_get`. -/
def get (t : Table N) (key : Value N) : Value N :=
  match t.entries.find? (·.1.rawequal key) with
  | some e => e.2
  | none => .nil

/-- `luaH_next`: the entry behind that of a key, the first for nil. No key may be unknown. -/
def next (t : Table N) (key : Value N) : Except Abort (Option (Value N × Value N)) :=
  match key with
  | .nil => .ok t.entries[0]?
  | key =>
    match t.entries.findIdx? (·.1.rawequal key) with
    | some i => .ok t.entries[i + 1]?
    | none => .error (.luaError "invalid key to 'next'")

/-- An entry is found by its own key. -/
theorem findIdx?_key (t : Table N) {i : ℕ} {e : Value N × Value N} (h : t.entries[i]? = some e) :
    t.entries.findIdx? (·.1.rawequal e.1) = some i := by
  obtain ⟨hlt, rfl⟩ := List.getElem?_eq_some_iff.mp h
  rw [List.findIdx?_eq_some_iff_getElem]
  refine ⟨hlt, t.found _ (List.getElem_mem hlt), ?_⟩
  intro j hj
  rw [List.pairwise_iff_getElem.mp t.apart j i _ hlt hj]
  exact Bool.false_ne_true

theorem next_key (t : Table N) {i : ℕ} {e : Value N × Value N} (h : t.entries[i]? = some e) :
    t.next e.1 = .ok t.entries[i + 1]? := by
  have hfound := t.findIdx?_key h
  have hkeyed := t.keyed e (List.mem_of_getElem? h)
  obtain ⟨key, value⟩ := e
  unfold next
  cases key with
  | nil => exact absurd rfl hkeyed
  | _ => simp only [hfound]

end Table

/-- What lies outside of the stack: the registry, with the metatables that `luaL_newmetatable` has put
into it by name, and the objects. -/
structure Heap (N : Type) [LuaNumber N] where
  registry : RefTable (Value N)
  metatables : String → Option ℕ
  tables : ℕ → Table N
  udataLen : ℕ → ℕ
  objects : ℕ

/-- A heap with an empty registry, on which every table is this one. -/
def Heap.single (t : Table N) : Heap N := ⟨.empty, fun _ => none, fun _ => t, fun _ => 0, 1⟩

/-- The stack of a C function, its top first, and the calls that it has made: what was called, and
the arguments. -/
structure State (N : Type) [LuaNumber N] where
  stack : List (Value N)
  heap : Heap N
  called : List (Value N × List (Value N))

/-- A function that uses the API. Reading or taking what is not there is undefined. -/
abbrev LuaM (N : Type) [LuaNumber N] := EStateM Abort (State N)

/-- The place of an index from the top on, if there is anything. -/
def place (stack : List (Value N)) (idx : ℤ) : Option ℕ :=
  if 0 < idx then
    if idx ≤ stack.length then some (stack.length - idx.toNat) else none
  else if -idx ≤ stack.length ∧ idx ≠ 0 then some (-idx - 1).toNat
  else none

/-- `index2adr` for the indices of the stack. A positive one may lie beyond the top. -/
def index2adr (idx : ℤ) : LuaM N (Option (Value N)) := do
  let stack := (← get).stack
  match place stack idx with
  | some i => return stack[i]?
  | none => if 0 < idx then return none else throw .undefinedBehaviour

def setStack (stack : List (Value N)) : LuaM N Unit := modify fun s => { s with stack }

def setHeap (heap : Heap N) : LuaM N Unit := modify fun s => { s with heap }

/-- `luaA_pushobject`, and every function that pushes a value. -/
def push (v : Value N) : LuaM N Unit := modify fun s => { s with stack := v :: s.stack }

def gettop : LuaM N ℕ := do return (← get).stack.length

def settop (idx : ℤ) : LuaM N Unit := do
  let stack := (← get).stack
  if 0 ≤ idx then
    setStack (List.replicate (idx.toNat - stack.length) .nil ++ stack.drop (stack.length - idx.toNat))
  else if (-(idx + 1)).toNat ≤ stack.length then setStack (stack.drop (-(idx + 1)).toNat)
  else throw .undefinedBehaviour

def pop (n : ℤ) : LuaM N Unit := settop (-n - 1)

def pushvalue (idx : ℤ) : LuaM N Unit := do push ((← index2adr idx).getD .nil)

def type (idx : ℤ) : LuaM N LuaType := do
  match ← index2adr idx with
  | some v => return v.type
  | none => return .none

/-- `luaV_tostring` for the value at an index: a number becomes a string where it stands. -/
def tostring (idx : ℤ) : LuaM N (Option (List UInt8)) := do
  match ← index2adr idx with
  | some (.string s) => return some s
  | some (.number n) =>
    let stack := (← get).stack
    let s := LuaNumber.text n
    match place stack idx with
    | some i => setStack (stack.set i (.string s))
    | none => pure ()
    return some s
  | _ => return none

/-- `lua_tolstring`. A null pointer stands for what is no string and no number. -/
def tolstring (idx : ℤ) : LuaM N (Option (List UInt8)) := tostring idx

def toboolean (idx : ℤ) : LuaM N Bool := do
  match ← index2adr idx with
  | none | some .nil | some (.boolean false) => return false
  | some _ => return true

def tonumber (idx : ℤ) : LuaM N N := do
  match ← index2adr idx with
  | some (.number n) => return n
  | some (.string s) => return (LuaNumber.numeral s).getD (LuaNumber.ofInt 0)
  | _ => return LuaNumber.ofInt 0

def tointeger (idx : ℤ) : LuaM N Int32 := do
  match ← index2adr idx with
  | some (.number n) => return LuaNumber.toInteger n
  | some (.string s) =>
    match (LuaNumber.numeral s : Option N) with
    | some n => return LuaNumber.toInteger n
    | none => return 0
  | _ => return 0

def objlen (idx : ℤ) : LuaM N ℕ := do
  match ← index2adr idx with
  | some (.string s) => return s.length
  | some (.userdata o) => return (← get).heap.udataLen o
  | some (.table o) => return ((← get).heap.tables o).getn
  | some (.number _) => return ((← tostring idx).getD []).length
  | _ => return 0

/-- The table at an index, which no function checks to be one. -/
def tableAt (idx : ℤ) : LuaM N (Table N) := do
  match ← index2adr idx with
  | some (.table o) => return (← get).heap.tables o
  | _ => throw .undefinedBehaviour

/-- The value on the top, taken off. -/
def take : LuaM N (Value N) := do
  match (← get).stack with
  | v :: stack => setStack stack; return v
  | [] => throw .undefinedBehaviour

def rawget (idx : ℤ) : LuaM N Unit := do
  let t ← tableAt idx
  let key ← take
  push (t.get key)

def next (idx : ℤ) : LuaM N Bool := do
  let t ← tableAt idx
  let key ← take
  match t.next key with
  | .error e => throw e
  | .ok none => return false
  | .ok (some (key, value)) => push key; push value; return true

/-- The registry at a number: what a reference stands for, or a link of the list of free ones, which begins
at 0 and ends with nil. -/
def Heap.registered (h : Heap N) (ref : ℤ) : Value N :=
  if ref < 0 then .nil
  else match h.registry.slots ref.toNat with
    | .value v => v
    | .link n =>
      let next := if ref = 0 then h.registry.free else n
      if ref ≤ h.registry.size ∧ next ≠ 0 then .number (LuaNumber.ofInt next) else .nil

/-- `lua_rawgeti(L, LUA_REGISTRYINDEX, ref)`. -/
def rawgeti (ref : ℤ) : LuaM N Unit := do push ((← get).heap.registered ref)

/-- `luaL_ref(L, LUA_REGISTRYINDEX)`. -/
def ref : LuaM N ℤ := do
  match ← take with
  | .nil => return -1
  | v =>
    let heap := (← get).heap
    let (r, registry) := heap.registry.ref v
    setHeap { heap with registry }
    return r

/-- `luaL_unref(L, LUA_REGISTRYINDEX, ref)`. -/
def unref (ref : ℤ) : LuaM N Unit := do
  let heap := (← get).heap
  if 0 ≤ ref then setHeap { heap with registry := heap.registry.unref ref.toNat }

/-- The number of a new object. -/
def newObject : LuaM N ℕ := do
  let heap := (← get).heap
  setHeap { heap with objects := heap.objects + 1 }
  return heap.objects

def newuserdata (size : ℕ) : LuaM N Unit := do
  let o ← newObject
  let heap := (← get).heap
  setHeap { heap with udataLen := Function.update heap.udataLen o size }
  push (.userdata o)

def pushcfunction : LuaM N Unit := do push (.function (← newObject))

/-- `lua_setfield` of a table. What the fields are is not recorded. -/
def setfield (idx : ℤ) : LuaM N Unit := do
  let _ ← tableAt idx
  let _ ← take

/-- `luaL_newmetatable`. It tells whether the name is new. -/
def newmetatable (name : String) : LuaM N Bool := do
  match (← get).heap.metatables name with
  | some o =>
    push (.table o)
    return false
  | none =>
    let o ← newObject
    let heap := (← get).heap
    setHeap { heap with
      metatables := Function.update heap.metatables name (some o)
      tables := Function.update heap.tables o .empty }
    push (.table o)
    return true

/-- `lua_setmetatable`. Whose the metatable is, is not recorded. -/
def setmetatable (idx : ℤ) : LuaM N Unit := do
  let _ ← index2adr idx
  let _ ← take

/-- Whether `luaC_mark` may store through a value: it takes whatever there is for the address of an
object. `mayStore` tells of the byte that would be the colour of an object at a light userdata. -/
def Value.takesMark (mayStore : ℕ → Bool) : Value N → Bool
  | .nil | .boolean _ | .number _ => false
  | .lightuserdata p => mayStore p
  | .string _ | .table _ | .function _ | .userdata _ | .thread _ => true

/-- `luaC_mark`. The colour of an object is not recorded. -/
def luaC_mark (mayStore : ℕ → Bool) (idx : ℤ) : LuaM N Unit := do
  match ← index2adr idx with
  | some v => if !v.takesMark mayStore then throw .undefinedBehaviour
  | none => throw .undefinedBehaviour

/-- How a called function ends. -/
inductive Outcome (N : Type) where
  | returns (results : List (Value N))
  | raises (e : Value N)

/-- What a call of a value with arguments comes to, and what it leaves of the heap. -/
abbrev Calls (N : Type) [LuaNumber N] := Value N → List (Value N) → Heap N → Outcome N × Heap N

/-- The results of a call, adjusted to as many as are wanted, all for a negative number. -/
def adjust (nresults : ℤ) (results : List (Value N)) : List (Value N) :=
  if nresults < 0 then results
  else results.take nresults.toNat ++ List.replicate (nresults.toNat - results.length) .nil

def Outcome.failed : Outcome N → Bool
  | .returns _ => false
  | .raises _ => true

/-- Whether the results have their places among the `room` slots that the stack has from the called
function on: `luaD_poscall` fills up with nils, and does not look for the end of the stack. -/
def Outcome.fits (room : ℕ) (nresults : ℤ) : Outcome N → Bool
  | .returns results => nresults ≤ results.length ∨ nresults ≤ room
  | .raises _ => true

/-- What a call leaves above the rest of the stack: its results, or the error value. -/
def Outcome.leaves (nresults : ℤ) : Outcome N → List (Value N)
  | .returns results => (adjust nresults results).reverse
  | .raises e => [e]

/-- What remains of an error value where only a string is reported and taken off. -/
def leftBy (e : Value N) : List (Value N) := if e.type = .string then [] else [e]

/-- `lua_pcall` without an error function: what is called lies below its arguments. It tells whether
there was an error, whose value is then on the top. The stack has `room` slots from what is called on. -/
def pcall (calls : Calls N) (room nargs : ℕ) (nresults : ℤ) : LuaM N Bool := do
  let s ← get
  match s.stack[nargs]? with
  | none => throw .undefinedBehaviour
  | some f =>
    let args := (s.stack.take nargs).reverse
    let rest := s.stack.drop (nargs + 1)
    let (outcome, heap) := calls f args s.heap
    if !outcome.fits room nresults then throw .undefinedBehaviour
    set { s with stack := outcome.leaves nresults ++ rest, heap, called := (f, args) :: s.called }
    return outcome.failed

section Runs
variable {stack : List (Value N)} {heap : Heap N} {called : List (Value N × List (Value N))} {v w : Value N}

omit [LuaNumber N] in
theorem place_neg {i : ℕ} (h : i < stack.length) : place stack (-(i + 1 : ℕ)) = some i := by
  have hle : -(-((i + 1 : ℕ) : ℤ)) ≤ stack.length ∧ -((i + 1 : ℕ) : ℤ) ≠ 0 := by omega
  rw [place, if_neg (by omega), if_pos hle]
  congr 1
  omega

theorem index2adr_neg {s : State N} {i : ℕ} (h : s.stack[i]? = some v) :
    (index2adr (-(i + 1 : ℕ))).run s = .ok (some v) s := by
  have hlt := (List.getElem?_eq_some_iff.mp h).1
  show (match place s.stack (-(i + 1 : ℕ)) with | some i => _ | none => _ : LuaM N _).run s = _
  rw [place_neg hlt]
  show EStateM.Result.ok s.stack[i]? s = _
  rw [h]

@[simp] theorem index2adr_first :
    (index2adr (-1)).run ⟨v :: stack, heap, called⟩ = .ok (some v) ⟨v :: stack, heap, called⟩ :=
  index2adr_neg (i := 0) rfl

@[simp] theorem index2adr_second :
    (index2adr (-2)).run ⟨w :: v :: stack, heap, called⟩ =
      .ok (some v) ⟨w :: v :: stack, heap, called⟩ :=
  index2adr_neg (i := 1) rfl

@[simp] theorem push_run : (push v).run ⟨stack, heap, called⟩ = .ok () ⟨v :: stack, heap, called⟩ := rfl

@[simp] theorem take_run :
    take.run ⟨v :: stack, heap, called⟩ = .ok v ⟨stack, heap, called⟩ := rfl

@[simp] theorem rawgeti_run (r : ℤ) :
    (rawgeti r).run ⟨stack, heap, called⟩ = .ok () ⟨heap.registered r :: stack, heap, called⟩ := rfl

@[simp] theorem gettop_run :
    gettop.run ⟨stack, heap, called⟩ = .ok stack.length ⟨stack, heap, called⟩ := rfl

/-- Of `n` values that are to be taken off, all have to be there. -/
theorem pop_eq (n : ℕ) :
    (pop n).run ⟨stack, heap, called⟩ =
      if n ≤ stack.length then .ok () ⟨stack.drop n, heap, called⟩
      else .error .undefinedBehaviour ⟨stack, heap, called⟩ := by
  have hneg : ¬(0 : ℤ) ≤ -(n : ℤ) - 1 := by omega
  have hcount : (-(-(n : ℤ) - 1 + 1)).toNat = n := by omega
  unfold pop settop
  simp only [hneg, if_false, hcount]
  show (if n ≤ stack.length then setStack (stack.drop n) else throw .undefinedBehaviour : LuaM N Unit).run _ = _
  split
  · rfl
  · rfl

theorem pop_run {n : ℕ} (h : n ≤ stack.length) :
    (pop n).run ⟨stack, heap, called⟩ = .ok () ⟨stack.drop n, heap, called⟩ := by
  rw [pop_eq, if_pos h]

theorem pop_run_of_lt {n : ℕ} (h : stack.length < n) :
    (pop n).run ⟨stack, heap, called⟩ = .error .undefinedBehaviour ⟨stack, heap, called⟩ := by
  rw [pop_eq, if_neg (Nat.not_le.mpr h)]

@[simp] theorem pop_one :
    (pop 1).run ⟨v :: stack, heap, called⟩ = .ok () ⟨stack, heap, called⟩ :=
  pop_run (show 1 ≤ (v :: stack).length by simp)

@[simp] theorem pop_two :
    (pop 2).run ⟨w :: v :: stack, heap, called⟩ = .ok () ⟨stack, heap, called⟩ :=
  pop_run (show 2 ≤ (w :: v :: stack).length by simp)

theorem type_of_index {s : State N} {idx : ℤ} (h : (index2adr idx).run s = .ok (some v) s) :
    (type idx).run s = .ok v.type s := by
  show ((index2adr idx) >>= fun _ => _ : LuaM N LuaType).run s = _
  rw [EStateM.run_bind, h]
  rfl

@[simp] theorem type_first :
    (type (-1)).run ⟨v :: stack, heap, called⟩ = .ok v.type ⟨v :: stack, heap, called⟩ :=
  type_of_index index2adr_first

@[simp] theorem tolstring_first (s : List UInt8) :
    (tolstring (-1)).run ⟨.string s :: stack, heap, called⟩ =
      .ok (some s) ⟨.string s :: stack, heap, called⟩ := by
  simp only [tolstring, tostring, EStateM.run_bind, index2adr_first]
  rfl

@[simp] theorem tableAt_second {o : ℕ} :
    (tableAt (-2)).run ⟨w :: .table o :: stack, heap, called⟩ =
      .ok (heap.tables o) ⟨w :: .table o :: stack, heap, called⟩ := by
  show ((index2adr (-2)) >>= fun _ => _ : LuaM N (Table N)).run _ = _
  rw [EStateM.run_bind, index2adr_second]
  rfl

@[simp] theorem rawget_second {o : ℕ} :
    (rawget (-2)).run ⟨w :: .table o :: stack, heap, called⟩ =
      .ok () ⟨(heap.tables o).get w :: .table o :: stack, heap, called⟩ := by
  simp only [rawget, EStateM.run_bind, tableAt_second, take_run, push_run]

/-- `lua_next` from a key that the table has, or from nil. -/
theorem next_second {o : ℕ} {entry : Option (Value N × Value N)}
    (h : (heap.tables o).next w = .ok entry) :
    (next (-2)).run ⟨w :: .table o :: stack, heap, called⟩ =
      .ok entry.isSome ⟨(entry.map fun e => [e.2, e.1]).getD [] ++ .table o :: stack, heap, called⟩ := by
  simp only [next, EStateM.run_bind, tableAt_second, take_run, h]
  cases entry with
  | none => rfl
  | some e => rfl

theorem Heap.registered_of_get {r : ℕ} (h : heap.registry.get r = some v) : heap.registered r = v := by
  have hpos : ¬((r : ℤ) < 0) := by omega
  unfold registered
  unfold RefTable.get at h
  rw [if_neg hpos, Int.toNat_natCast]
  cases hslot : heap.registry.slots r with
  | value w =>
    rw [hslot] at h
    exact Option.some.inj h
  | link n =>
    rw [hslot] at h
    cases h

/-- Whatever is given back, only the registry changes. -/
theorem unref_run (r : ℤ) (s : State N) : ∃ heap, (unref r).run s = .ok () { s with heap } := by
  show ∃ heap, (if 0 ≤ r then setHeap { s.heap with registry := s.heap.registry.unref r.toNat } else pure () :
    LuaM N Unit).run s = _
  split
  · exact ⟨_, rfl⟩
  · exact ⟨s.heap, rfl⟩

/-- The length of a value that is no number. -/
def Heap.lengthOf (heap : Heap N) : Value N → ℕ
  | .string s => s.length
  | .userdata o => heap.udataLen o
  | .table o => (heap.tables o).getn
  | _ => 0

theorem objlen_of_index {s : State N} {idx : ℤ} (h : (index2adr idx).run s = .ok (some v) s)
    (hv : v.type ≠ .number) : (objlen idx).run s = .ok (s.heap.lengthOf v) s := by
  simp only [objlen, EStateM.run_bind, h]
  cases v with
  | number n => exact absurd rfl hv
  | _ => rfl

/-- The length of a number is that of the string that it becomes. -/
theorem objlen_second_number (n : N) :
    (objlen (-2)).run ⟨w :: .number n :: stack, heap, called⟩ =
      .ok (LuaNumber.text n).length ⟨w :: .string (LuaNumber.text n) :: stack, heap, called⟩ := by
  have hplace : place (w :: .number n :: stack) (-2) = some 1 := place_neg (i := 1) (by simp)
  have htostring : (tostring (-2)).run ⟨w :: .number n :: stack, heap, called⟩ =
      .ok (some (LuaNumber.text n)) ⟨w :: .string (LuaNumber.text n) :: stack, heap, called⟩ := by
    simp only [tostring, EStateM.run_bind, index2adr_second]
    show (match place (w :: .number n :: stack) (-2) with | some i => _ | none => _ : LuaM N _).run _ = _
    rw [hplace]
    rfl
  simp only [objlen, EStateM.run_bind, index2adr_second, htostring]
  rfl

/-- What is called lies right below the arguments, the last of which is on the top. -/
theorem pcall_eq (calls : Calls N) (room : ℕ) (nresults : ℤ) (f : Value N) (args : List (Value N)) :
    (pcall calls room args.length nresults).run ⟨args.reverse ++ f :: stack, heap, called⟩ =
      if (calls f args heap).1.fits room nresults then
        .ok (calls f args heap).1.failed
          ⟨(calls f args heap).1.leaves nresults ++ stack, (calls f args heap).2, (f, args) :: called⟩
      else .error .undefinedBehaviour ⟨args.reverse ++ f :: stack, heap, called⟩ := by
  have hfunc : (args.reverse ++ f :: stack)[args.length]? = some f := by
    rw [List.getElem?_append_right (by rw [List.length_reverse]), List.length_reverse, Nat.sub_self,
      List.getElem?_cons_zero]
  have hargs : ((args.reverse ++ f :: stack).take args.length).reverse = args := by
    rw [← List.length_reverse, List.take_left, List.reverse_reverse]
  have hrest : (args.reverse ++ f :: stack).drop (args.length + 1) = stack := by
    rw [← List.length_reverse, ← List.drop_drop, List.drop_left, List.drop_one, List.tail_cons]
  show (match (args.reverse ++ f :: stack)[args.length]? with | none => _ | some f => _ : LuaM N Bool).run _ = _
  rw [hfunc]
  dsimp only
  rw [hargs, hrest]
  cases (calls f args heap).1.fits room nresults <;> rfl

/-- A new reference to a value that is not nil. -/
theorem ref_run (hv : v ≠ .nil) :
    ref.run ⟨v :: stack, heap, called⟩ = .ok ((heap.registry.ref v).1 : ℤ)
      ⟨stack, { heap with registry := (heap.registry.ref v).2 }, called⟩ := by
  simp only [ref, EStateM.run_bind, take_run]
  cases v with
  | nil => exact absurd rfl hv
  | _ => rfl

end Runs

end H1Z1Server.LuaApi
