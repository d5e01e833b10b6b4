import H1Z1Server.Lua.Api
import H1Z1Server.LuaSystem.LuaNetSocket

/-! `LuaNetSocket_EventHandler`: the stack of Lua while a datagram is given to a callback. -/
namespace H1Z1Server
open LuaApi
variable {N : Type} [LuaNumber N]

/-- A datagram for a connection: its userdata, whether that knows a Lua state, which bytes may be written
behind light userdata, where the receiver is in memory, how large a reader is, and what the callback does. -/
structure EventCall (N : Type) [LuaNumber N] where
  userdata : Option EventUserdata
  L : Bool
  mayStore : ℕ → Bool
  client : ℕ
  size : ℕ
  outcome : Outcome N
  effect : Heap N → Heap N

namespace EventCall

/-- `PushLuaStream` as far as the stack goes: what the reader holds is in its memory. -/
def pushLuaStream (L : Bool) (size : ℕ) : LuaM N Bool := do
  if !L then return false
  newuserdata size
  let _ ← newmetatable "ByteStreamReader"
  pushcfunction
  setfield (-2)
  pushcfunction
  setfield (-2)
  pushcfunction
  setfield (-2)
  setmetatable (-2)
  return true

/-- `LuaNetSocket_EventHandler`. -/
def eventHandler (d : EventCall N) : LuaM N Unit := do
  match d.userdata with
  | none => return
  | some ud =>
    if !d.L ∨ ud.funcRef = 0 ∨ ud.socketRef = 0 then return
    rawgeti ud.socketRef
    luaC_mark d.mayStore (-1)
    rawgeti ud.eventRef
    luaC_mark d.mayStore (-1)
    pop 2
    rawgeti ud.funcRef
    push (.lightuserdata d.client)
    if !(← pushLuaStream d.L d.size) then
      pop 1
      return
    if ← pcall (fun _ _ heap => (d.outcome, d.effect heap)) 0 2 0 then
      if (← type (-1)) ≠ .string then return
      let _ ← tolstring (-1)
      pop 1

/-- The callback is called. -/
def Reaches (d : EventCall N) : Prop :=
  ∃ ud, d.userdata = some ud ∧ d.L = true ∧ ud.funcRef ≠ 0 ∧ ud.socketRef ≠ 0

/-- If the callback is called, what the registry has for the socket and the event takes a mark. -/
def TakesMarks (d : EventCall N) (heap : Heap N) : Prop :=
  d.Reaches → ∀ ud, d.userdata = some ud →
    (heap.registered ud.socketRef).takesMark d.mayStore = true ∧
      (heap.registered ud.eventRef).takesMark d.mayStore = true

end EventCall

section Runs
variable {stack : List (Value N)} {heap : Heap N} {called : List (Value N × List (Value N))}

end Runs

end H1Z1Server
