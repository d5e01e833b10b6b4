import H1Z1Server.Lua.Marking

/-! The steps of the incremental collector (`lgc.c`), and the marks that `LuaNetSocket_EventHandler`
makes between them with `luaC_mark`. -/
namespace H1Z1Server.Lua
namespace GlobalState

/-! Atomic phase -/

/-- The body of the loop of `marktmu`. -/
def marktm (g : GlobalState) (u : ℕ) : GlobalState := (g.makewhite u).reallymarkobject u

def marktmu (g : GlobalState) : GlobalState := g.tmudata.foldl marktm g

/-- Userdata that are finalized need their `__gc` metamethod. -/
def needsFinalizer (g : GlobalState) (u : ℕ) : Bool :=
  match g.body u with
  | some (.userdata metatable _) => Heap.fasttm g.body metatable "__gc" ≠ .nil
  | _ => false

def markfinalized (g : GlobalState) (u : ℕ) : GlobalState :=
  g.setMarked u fun m => { m with bit3 := true }

/-- The loop of `luaC_separateudata`, and what it leaves of the list. -/
def separate (all : Bool) (g : GlobalState) : List ℕ → GlobalState × List ℕ
  | [] => (g, [])
  | curr :: rest =>
    if !(g.iswhite curr || all) || g.isfinalized curr then
      let (g, kept) := g.separate all rest
      (g, curr :: kept)
    else if !g.needsFinalizer curr then
      let (g, kept) := (g.markfinalized curr).separate all rest
      (g, curr :: kept)
    else
      let g := g.markfinalized curr
      { g with tmudata := g.tmudata ++ [curr] }.separate all rest

/-- The part of `rootgc` up to the main thread, and the userdata behind it. -/
def splitRoot (g : GlobalState) : List ℕ × List ℕ :=
  let before := g.rootgc.takeWhile (· ≠ g.mainthread)
  (before ++ (g.rootgc.drop before.length).take 1, g.rootgc.drop (before.length + 1))

def luaC_separateudata (g : GlobalState) (all : Bool) : GlobalState :=
  let (before, udata) := g.splitRoot
  let (g, kept) := g.separate all udata
  { g with rootgc := before ++ kept }

/-- `iscleared`, which marks strings on the way. -/
def iscleared (g : GlobalState) (v : Value) (iskey : Bool) : GlobalState × Bool :=
  match v with
  | .obj o => match g.body o with
    | some (.string _) => (g.white2gray o, false)
    | some (.userdata _ _) => (g, g.iswhite o || (!iskey && g.isfinalized o))
    | _ => (g, g.iswhite o)
  | _ => (g, false)

/-- Loop over the array of a table with weak values, from its end. -/
def cleararray (g : GlobalState) : List Value → GlobalState × List Value
  | [] => (g, [])
  | v :: rest =>
    let (g, rest) := g.cleararray rest
    let (g, cleared) := g.iscleared v false
    (g, (if cleared then .nil else v) :: rest)

def clearnode (g : GlobalState) (n : Value × Value) : GlobalState × (Value × Value) :=
  if n.2 = .nil then (g, n)
  else
    let (g, keyCleared) := g.iscleared n.1 true
    if keyCleared then (g, removeentry (n.1, .nil))
    else
      let (g, cleared) := g.iscleared n.2 false
      (g, if cleared then removeentry (n.1, .nil) else n)

def clearnodes (g : GlobalState) : List (Value × Value) → GlobalState × List (Value × Value)
  | [] => (g, [])
  | n :: rest =>
    let (g, rest) := g.clearnodes rest
    let (g, n) := g.clearnode n
    (g, n :: rest)

def cleartable (g : GlobalState) (h : ℕ) : GlobalState :=
  match g.body h with
  | some (.table metatable array node) =>
    let (g, array) := if g.test (·.valueWeak) h then g.cleararray array else (g, array)
    let (g, node) := g.clearnodes node
    g.setBody h (.table metatable array node)
  | _ => g

def markmt (g : GlobalState) : GlobalState := g.mt.foldl marksome g

/-- The global table is marked before the main stack is traversed. -/
def markgt (g : GlobalState) : GlobalState :=
  match g.body g.mainthread with
  | some (.thread gt _ _ _ _) => g.markvalue gt
  | _ => g

def markroot (g : GlobalState) : GlobalState :=
  let g := { g with gray := [], grayagain := [], weak := [] }
  let g := (g.markobject g.mainthread).markgt
  let g := (g.markvalue g.registry).markmt
  { g with gcstate := .propagate }

def remarkupval (g : GlobalState) (uv : ℕ) : GlobalState :=
  match g.body uv with
  | some (.upval v _) => if g.isgray uv then g.markvalue v else g
  | _ => g

def remarkupvals (g : GlobalState) : GlobalState := g.uvhead.foldl remarkupval g

/-- All marking of `atomic` before userdata are separated. -/
def remark (g : GlobalState) (L : ℕ) : GlobalState :=
  let g := g.remarkupvals.propagateall
  let g := { g with gray := g.weak, weak := [] }
  let g := ((g.markobject L).markmt).propagateall
  let g := { g with gray := g.grayagain, grayagain := [] }
  g.propagateall

def atomic (g : GlobalState) (L : ℕ) : GlobalState :=
  let g := (g.remark L).luaC_separateudata false
  let g := g.marktmu.propagateall
  let g := g.weak.foldl cleartable g
  { g with currentwhite := !g.currentwhite, sweepstrgc := 0, sweepgc := 0, gcstate := .sweepstring }

/-! Sweep phases -/

def free (g : GlobalState) (o : ℕ) : GlobalState := { g with objects := g.objects.set o none }

/-- `luaF_freeupval`. Closed upvalues are on no list of open ones. -/
def freeupval (g : GlobalState) (uv : ℕ) : GlobalState :=
  { g.free uv with uvhead := g.uvhead.filter (· ≠ uv) }

/-- The body of the loop of `luaF_close`, with `luaC_linkupval` as it is outside `GCSpropagate`. -/
def closeupval (g : GlobalState) (uv : ℕ) : GlobalState :=
  if g.isdead uv then g.freeupval uv
  else match g.body uv with
    | some (.upval v _) =>
      let g := { g.setBody uv (.upval v true) with
        uvhead := g.uvhead.filter (· ≠ uv), rootgc := uv :: g.rootgc }
      if g.isgray uv then g.makewhite uv else g
    | _ => g

/-- `freeobj` for all but threads. -/
def freeflat (g : GlobalState) (o : ℕ) : GlobalState :=
  match g.body o with
  | some (.upval _ _) => g.freeupval o
  | _ => g.free o

/-- A thread that goes closes its upvalues. -/
def freeobj (g : GlobalState) (o : ℕ) : GlobalState :=
  match g.body o with
  | some (.thread _ _ _ _ openupval) => (openupval.foldl closeupval g).free o
  | _ => g.freeflat o

/-- The test of `sweeplist`: the byte against `deadmask`, which holds the other white and
`FIXEDBIT`. -/
def survives (g : GlobalState) (o : ℕ) : Bool := !g.isdead o || g.test (·.fixed) o

/-- `sweeplist` on a whole list of strings or open upvalues, where there are no threads, and what
it leaves of the list. -/
def sweepwholelist (g : GlobalState) : List ℕ → GlobalState × List ℕ
  | [] => (g, [])
  | curr :: rest =>
    if g.survives curr then
      let (g, kept) := (g.makewhite curr).sweepwholelist rest
      (g, curr :: kept)
    else (g.freeflat curr).sweepwholelist rest

def sweepthread (g : GlobalState) (th : ℕ) : GlobalState :=
  match g.body th with
  | some (.thread gt stack top ci openupval) =>
    let (g, kept) := g.sweepwholelist openupval
    g.setBody th (.thread gt stack top ci kept)
  | _ => g

/-- The body of the loop of `sweeplist` at place `p` of `rootgc`. What a thread links in front of
`p` moves it, unless `p` is the head itself. -/
def sweepobject (g : GlobalState) (p curr : ℕ) : GlobalState × ℕ :=
  if g.survives curr then (g.makewhite curr, p + 1)
  else
    let g := { g with rootgc := g.rootgc.eraseIdx p }
    let g' := g.freeobj curr
    (g', if p = 0 then 0 else p + (g'.rootgc.length - g.rootgc.length))

/-- `sweeplist` on `rootgc`. -/
def sweeplist (g : GlobalState) (p : ℕ) : ℕ → GlobalState × ℕ
  | 0 => (g, p)
  | count + 1 => match g.rootgc[p]? with
    | none => (g, p)
    | some curr =>
      let (g, p) := (g.sweepthread curr).sweepobject p curr
      g.sweeplist p count

/-! Finalizers -/

/-- `lua_rawgeti` on a table. -/
def rawgeti (g : GlobalState) (t : Value) (n : ℤ) : Value :=
  match t with
  | .obj o => match g.body o with
    | some (.table _ array node) =>
      if 1 ≤ n ∧ n ≤ array.length then array.getD (n - 1).toNat .nil
      else ((node.find? fun e => e.1 = .number n).map Prod.snd).getD .nil
    | _ => .nil
  | _ => .nil

/-- `lua_rawseti` on a table, with a value that is not an object or is in the table already. A new
key does not move the entries that are there. -/
def rawseti (g : GlobalState) (t : Value) (n : ℤ) (v : Value) : GlobalState :=
  match t with
  | .obj o => match g.body o with
    | some (.table metatable array node) =>
      if 1 ≤ n ∧ n ≤ array.length then
        g.setBody o (.table metatable (array.set (n - 1).toNat v) node)
      else if node.any (fun e => e.1 = .number n) then
        g.setBody o (.table metatable array
          (node.map fun e => if e.1 = .number n then (e.1, v) else e))
      else g.setBody o (.table metatable array (node ++ [(.number n, v)]))
    | _ => g
  | _ => g

/-- `luaL_unref` on the registry. -/
def unref (g : GlobalState) (ref : ℤ) : GlobalState :=
  if 0 ≤ ref then
    let g := g.rawseti g.registry ref (g.rawgeti g.registry 0)
    g.rawseti g.registry 0 (.number ref)
  else g

/-- The first of `tmudata` goes back behind the main thread, and its metamethod is called. Those of
this program end in `luaL_unref`: `released` are the references that the call gives up. -/
def GCTM (g : GlobalState) (released : List ℤ) : GlobalState :=
  match g.tmudata with
  | [] => g
  | o :: rest =>
    let (before, udata) := g.splitRoot
    let g := { g with tmudata := rest, rootgc := before ++ o :: udata }.makewhite o
    if g.needsFinalizer o then released.foldl unref g else g

/-- One step of the collector, in thread `L`, without its counting of memory and without `checkSizes`,
which only moves strings between the lists of `strt`. -/
def singlestep (g : GlobalState) (L : ℕ) (released : List ℤ) : GlobalState :=
  match g.gcstate with
  | .pause => g.markroot
  | .propagate => if g.gray = [] then g.atomic L else g.propagatemark
  | .sweepstring =>
    let (g, kept) := g.sweepwholelist (g.strt.getD g.sweepstrgc [])
    let g := { g with strt := g.strt.set g.sweepstrgc kept, sweepstrgc := g.sweepstrgc + 1 }
    if g.strt.length ≤ g.sweepstrgc then { g with gcstate := .sweep } else g
  | .sweep =>
    let (g, p) := g.sweeplist g.sweepgc 40
    let g := { g with sweepgc := p }
    if g.rootgc.length ≤ p then { g with gcstate := .finalize } else g
  | .finalize => if g.tmudata = [] then { g with gcstate := .pause } else g.GCTM released

/-- Light userdata are no object: the byte written there is of no concern to the collector. -/
def luaC_mark (g : GlobalState) (v : Value) : GlobalState :=
  match v with
  | .obj o => g.setMarked o fun _ => Marked.luaC_white g.currentwhite
  | _ => g

/-- What `LuaNetSocket_EventHandler` does to the collector's state before it calls the function. -/
def eventHandlerMarks (g : GlobalState) (socketRef eventRef : ℤ) : GlobalState :=
  let g := g.luaC_mark (g.rawgeti g.registry socketRef)
  g.luaC_mark (g.rawgeti g.registry eventRef)

end GlobalState
end H1Z1Server.Lua
