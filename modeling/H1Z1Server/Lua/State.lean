import Mathlib.Tactic
import H1Z1Server.Library.TriColour

/-! The collector's view of the state of Lua: the objects with their colours, and the lists that
`global_State` keeps of them. An object's address is its place in `objects`. -/
namespace H1Z1Server.Lua

inductive Value where
  | nil
  | boolean (b : Bool)
  | number (n : ℤ)
  | lightuserdata (p : ℕ)
  | deadkey
  | obj (o : ℕ)
deriving DecidableEq

/-- The object that a value refers to. -/
def Value.refs : Value → List ℕ
  | .obj o => [o]
  | _ => []

/-- The byte `marked`, bit by bit. Bit 3 says of userdata that it has been finalized, and of tables
that their keys are weak. -/
structure Marked where
  white0 : Bool
  white1 : Bool
  black : Bool
  bit3 : Bool
  valueWeak : Bool
  fixed : Bool
  sfixed : Bool

/-- An open upvalue's value is the one in its stack slot. -/
inductive Body where
  | string (content : String)
  | userdata (metatable : Option ℕ) (env : ℕ)
  | upval (v : Value) (closed : Bool)
  | cclosure (env : ℕ) (upvalue : List Value)
  | lclosure (env p : ℕ) (upvals : List ℕ)
  | table (metatable : Option ℕ) (array : List Value) (node : List (Value × Value))
  | thread (gt : Value) (stack : List Value) (top : ℕ) (ci : List ℕ) (openupval : List ℕ)
  | proto (source : Option ℕ) (k : List Value) (upvalues p locvars : List (Option ℕ))

structure GCObject where
  marked : Marked
  body : Body

inductive GCState where
  | pause
  | propagate
  | sweepstring
  | sweep
  | finalize
deriving DecidableEq

/-- `tmudata` begins with the object finalized next, and `sweepgc` is a place in `rootgc`. The
userdata are what `rootgc` has behind the main thread. Freed objects are `none`. -/
structure GlobalState where
  objects : List (Option GCObject)
  currentwhite : Bool
  gcstate : GCState
  sweepstrgc : ℕ
  sweepgc : ℕ
  rootgc : List ℕ
  strt : List (List ℕ)
  tmudata : List ℕ
  gray : List ℕ
  grayagain : List ℕ
  weak : List ℕ
  mainthread : ℕ
  registry : Value
  mt : List (Option ℕ)
  uvhead : List ℕ

namespace Marked

def gray : Marked := ⟨false, false, false, false, false, false, false⟩

def iswhite (m : Marked) : Bool := m.white0 || m.white1

/-- `luaC_white`: only the bit of the current white is set. -/
def luaC_white (currentwhite : Bool) : Marked :=
  ⟨!currentwhite, currentwhite, false, false, false, false, false⟩

def isdead (currentwhite : Bool) (m : Marked) : Bool :=
  if currentwhite then m.white0 else m.white1

def white2gray (m : Marked) : Marked := { m with white0 := false, white1 := false }

def gray2black (m : Marked) : Marked := { m with black := true }

def black2gray (m : Marked) : Marked := { m with black := false }

def makewhite (currentwhite : Bool) (m : Marked) : Marked :=
  { m with white0 := !currentwhite, white1 := currentwhite, black := false }

@[simp] theorem iswhite_luaC_white (w : Bool) : (luaC_white w).iswhite = true := by
  cases w <;> rfl

@[simp] theorem isdead_luaC_white (w : Bool) : (luaC_white w).isdead w = false := by
  cases w <;> rfl

@[simp] theorem iswhite_white2gray (m : Marked) : m.white2gray.iswhite = false := rfl

@[simp] theorem iswhite_gray2black (m : Marked) : m.gray2black.iswhite = m.iswhite := rfl

@[simp] theorem iswhite_black2gray (m : Marked) : m.black2gray.iswhite = m.iswhite := rfl

@[simp] theorem iswhite_makewhite (w : Bool) (m : Marked) : (m.makewhite w).iswhite = true := by
  cases w <;> rfl

@[simp] theorem isdead_makewhite (w : Bool) (m : Marked) : (m.makewhite w).isdead w = false := by
  cases w <;> rfl

theorem white2gray_of_not_white {m : Marked} (h : m.iswhite = false) : m.white2gray = m := by
  obtain ⟨white0, white1, _, _, _, _, _⟩ := m
  simp only [iswhite, Bool.or_eq_false_iff] at h
  simp [white2gray, h]

theorem isdead_of_not_white {m : Marked} (w : Bool) (h : m.iswhite = false) :
    m.isdead w = false := by
  simp only [iswhite, Bool.or_eq_false_iff] at h
  cases w <;> simp [isdead, h]

end Marked

namespace GlobalState

def get (g : GlobalState) (o : ℕ) : Option GCObject := g.objects[o]?.join

def body (g : GlobalState) (o : ℕ) : Option Body := (g.get o).map (·.body)

/-- Whether an object's `marked` passes a test. -/
def test (g : GlobalState) (p : Marked → Bool) (o : ℕ) : Bool := (g.get o).any fun x => p x.marked

def iswhite (g : GlobalState) (o : ℕ) : Bool := g.test Marked.iswhite o

def isblack (g : GlobalState) (o : ℕ) : Bool := g.test (·.black) o

def isgray (g : GlobalState) (o : ℕ) : Bool := g.test (fun m => !m.black && !m.iswhite) o

def isfinalized (g : GlobalState) (o : ℕ) : Bool := g.test (·.bit3) o

def isdead (g : GlobalState) (o : ℕ) : Bool := g.test (Marked.isdead g.currentwhite) o

def modifyObject (g : GlobalState) (o : ℕ) (f : GCObject → GCObject) : GlobalState :=
  { g with objects := g.objects.modify o (Option.map f) }

def setMarked (g : GlobalState) (o : ℕ) (f : Marked → Marked) : GlobalState :=
  g.modifyObject o fun x => { x with marked := f x.marked }

def setBody (g : GlobalState) (o : ℕ) (b : Body) : GlobalState :=
  g.modifyObject o fun x => { x with body := b }

def makewhite (g : GlobalState) (o : ℕ) : GlobalState :=
  g.setMarked o (Marked.makewhite g.currentwhite)

variable {g : GlobalState} {o a : ℕ}

/-- The bodies and the colours are those of the objects. -/
theorem body_congr {g' : GlobalState} (hobjects : g'.objects = g.objects) : g'.body = g.body := by
  unfold body get
  rw [hobjects]

theorem test_congr {g' : GlobalState} (hobjects : g'.objects = g.objects) : g'.test = g.test := by
  unfold test get
  rw [hobjects]

theorem get_modifyObject (g : GlobalState) (o : ℕ) (f : GCObject → GCObject) (a : ℕ) :
    (g.modifyObject o f).get a = if o = a then (g.get a).map f else g.get a := by
  unfold get modifyObject
  rw [List.getElem?_modify]
  split
  · cases g.objects[a]? <;> simp
  · simp

@[simp] theorem body_setMarked (g : GlobalState) (o : ℕ) (f : Marked → Marked) :
    (g.setMarked o f).body = g.body := by
  funext a
  simp only [body, setMarked, get_modifyObject]
  split <;> simp [Option.map_map, Function.comp_def]

theorem test_setMarked (g : GlobalState) (o : ℕ) (f : Marked → Marked) (p : Marked → Bool) (a : ℕ) :
    (g.setMarked o f).test p a = if o = a then g.test (fun m => p (f m)) a else g.test p a := by
  simp only [test, setMarked, get_modifyObject]
  split
  · cases g.get a <;> rfl
  · rfl

@[simp] theorem test_setBody (g : GlobalState) (o : ℕ) (b : Body) (p : Marked → Bool) :
    (g.setBody o b).test p = g.test p := by
  funext a
  simp only [test, setBody, get_modifyObject]
  split
  · cases g.get a <;> rfl
  · rfl

theorem body_setBody (g : GlobalState) (o : ℕ) (b : Body) (a : ℕ) :
    (g.setBody o b).body a = if o = a then (g.body a).map fun _ => b else g.body a := by
  simp only [body, setBody, get_modifyObject]
  split <;> simp [Option.map_map, Function.comp_def]

/-- A test that a change of the colour byte does not touch. -/
theorem test_setMarked_of_eq (g : GlobalState) (o : ℕ) {f : Marked → Marked} {p : Marked → Bool}
    (h : ∀ m, p (f m) = p m) : (g.setMarked o f).test p = g.test p := by
  funext a
  rw [test_setMarked]
  simp [h]

theorem test_of_forall {p : Marked → Bool} (h : ∀ m, p m = true) :
    g.test p a = (g.body a).isSome := by
  unfold test body
  cases g.get a <;> simp [h]

theorem isdead_of_not_white (h : g.iswhite o = false) : g.isdead o = false := by
  unfold isdead
  unfold iswhite at h
  unfold test at h ⊢
  cases hg : g.get o with
  | none => rfl
  | some x =>
    rw [hg] at h
    exact Marked.isdead_of_not_white g.currentwhite h

end GlobalState
end H1Z1Server.Lua
