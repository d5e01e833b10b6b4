import H1Z1Server.Lua.State

/-! The mark phase of the collector (`lgc.c`). -/
namespace H1Z1Server.Lua

/-- `strchr` finds nothing behind a terminating zero. -/
def strchr (s : String) (c : Char) : Bool := (s.toList.takeWhile (· ≠ Char.ofNat 0)).contains c

/-- What an object's fields say, without the marks. -/
abbrev Heap := ℕ → Option Body

namespace Heap

/-- The value is a string with this content. Strings are interned. -/
def isString (h : Heap) (content : String) : Value → Bool
  | .obj o => match h o with
    | some (.string s) => s == content
    | _ => false
  | _ => false

/-- `luaT_gettm`. The keys of a table are distinct; `flags` only remembers that a key is missing. -/
def gettm (h : Heap) (events : ℕ) (ename : String) : Value :=
  match h events with
  | some (.table _ _ node) =>
    ((node.find? fun n => n.2 ≠ .nil && h.isString ename n.1).map Prod.snd).getD .nil
  | _ => .nil

def fasttm (h : Heap) (et : Option ℕ) (ename : String) : Value :=
  match et with
  | some events => h.gettm events ename
  | none => .nil

/-- Whether a table with this metatable has weak keys, and weak values. -/
def mode (h : Heap) (metatable : Option ℕ) : Bool × Bool :=
  match h.fasttm metatable "__mode" with
  | .obj o => match h o with
    | some (.string s) => (strchr s 'k', strchr s 'v')
    | _ => (false, false)
  | _ => (false, false)

end Heap

/-- An empty entry does not keep its key. -/
def removeentry (n : Value × Value) : Value × Value :=
  match n with
  | (.obj _, .nil) => (.deadkey, .nil)
  | n => n

namespace GlobalState

def white2gray (g : GlobalState) (o : ℕ) : GlobalState := g.setMarked o Marked.white2gray
def gray2black (g : GlobalState) (o : ℕ) : GlobalState := g.setMarked o Marked.gray2black
def black2gray (g : GlobalState) (o : ℕ) : GlobalState := g.setMarked o Marked.black2gray

/-- `reallymarkobject`. A nested call has one white object less than the call around it, so that
`depth` is enough when it exceeds the number of objects. -/
def reallymark : ℕ → GlobalState → ℕ → GlobalState
  | 0, g, _ => g
  | depth + 1, g, o =>
    let mark := fun (g : GlobalState) t => if g.iswhite t then reallymark depth g t else g
    match g.body o with
    | none => g
    | some (.string _) => g.white2gray o
    | some (.userdata metatable env) =>
      let g := (g.white2gray o).gray2black o
      mark (metatable.toList.foldl mark g) env
    | some (.upval v closed) =>
      let g := v.refs.foldl mark (g.white2gray o)
      if closed then g.gray2black o else g
    | some _ => { g.white2gray o with gray := o :: g.gray }

def reallymarkobject (g : GlobalState) (o : ℕ) : GlobalState :=
  reallymark (g.objects.length + 1) g o

def markobject (g : GlobalState) (t : ℕ) : GlobalState :=
  if g.iswhite t then g.reallymarkobject t else g

def markvalue (g : GlobalState) (v : Value) : GlobalState := v.refs.foldl markobject g

/-- A mark behind a test for a null pointer. -/
def marksome (g : GlobalState) (t : Option ℕ) : GlobalState := t.toList.foldl markobject g

/-- The pointer is one to a string. -/
def stringmark (g : GlobalState) (s : ℕ) : GlobalState :=
  match g.body s with
  | some (.string _) => g.white2gray s
  | _ => g

/-- The body of the loop of `traversetable` over the nodes. -/
def marknode (weakkey weakvalue : Bool) (n : Value × Value) (g : GlobalState) : GlobalState :=
  if n.2 = .nil then g
  else
    let g := if weakkey then g else g.markvalue n.1
    if weakvalue then g else g.markvalue n.2

/-- The loops over array and nodes run from the last entry to the first. -/
def traversetable (g : GlobalState) (h : ℕ) (metatable : Option ℕ) (array : List Value)
    (node : List (Value × Value)) : GlobalState × Bool :=
  let g := g.marksome metatable
  let (weakkey, weakvalue) := Heap.mode g.body metatable
  let g := if weakkey || weakvalue then
      { g.setMarked h fun m => { m with bit3 := weakkey, valueWeak := weakvalue } with
        weak := h :: g.weak }
    else g
  if weakkey && weakvalue then (g, true)
  else
    let g := if weakvalue then g else array.foldr (fun v g => g.markvalue v) g
    let g := node.foldr (marknode weakkey weakvalue) g
    (g.setBody h (.table metatable array (node.map removeentry)), weakkey || weakvalue)

def traverseproto (g : GlobalState) (source : Option ℕ) (k : List Value)
    (upvalues p locvars : List (Option ℕ)) : GlobalState :=
  let g := source.toList.foldl stringmark g
  let g := k.foldl markvalue g
  let g := upvalues.reduceOption.foldl stringmark g
  let g := p.reduceOption.foldl markobject g
  locvars.reduceOption.foldl stringmark g

/-- `traversestack`. What lies between the top and the last limit of a call is erased. -/
def traversestack (g : GlobalState) (l : ℕ) (gt : Value) (stack : List Value) (top : ℕ)
    (ci : List ℕ) (openupval : List ℕ) : GlobalState :=
  let g := g.markvalue gt
  let lim := ci.foldl max top
  let g := (stack.take top).foldl markvalue g
  let erased := stack.mapIdx fun i v => if top ≤ i ∧ i ≤ lim then .nil else v
  g.setBody l (.thread gt erased top ci openupval)

/-- Traverse the first gray object. Threads stay gray, and wait for the end of the phase. Nothing but
tables, functions, threads and prototypes is ever on the list. -/
def propagatemark (g : GlobalState) : GlobalState :=
  match g.gray with
  | [] => g
  | o :: rest =>
    let g := { g.gray2black o with gray := rest }
    match g.body o with
    | some (.table metatable array node) =>
      let (g, isweak) := g.traversetable o metatable array node
      if isweak then g.black2gray o else g
    | some (.cclosure env upvalue) => upvalue.foldl markvalue (g.markobject env)
    | some (.lclosure env p upvals) => upvals.foldl markobject ((g.markobject env).markobject p)
    | some (.thread gt stack top ci openupval) =>
      let g := { g with grayagain := o :: g.grayagain }
      (g.black2gray o).traversestack o gt stack top ci openupval
    | some (.proto source k upvalues p locvars) => g.traverseproto source k upvalues p locvars
    | _ => g

def propagateFuel (g : GlobalState) : ℕ → GlobalState
  | 0 => g
  | n + 1 => if g.gray = [] then g else g.propagatemark.propagateFuel n

/-- Every object is put on the gray list at most once more. -/
def propagateall (g : GlobalState) : GlobalState :=
  g.propagateFuel (g.gray.length + g.objects.length)

end GlobalState
end H1Z1Server.Lua
