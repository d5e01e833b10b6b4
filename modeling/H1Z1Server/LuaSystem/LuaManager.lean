import H1Z1Server.Stream.Buffer

/-! `LuaManager`: what running a script gives, and the operations on a manager and its Lua state. -/
namespace H1Z1Server

/-- A key or a value of a Lua table. Of a number, only the `int` of `lua_tointeger` is ever used. -/
inductive Element where
  | boolean
  | lightuserdata
  | number (n : Int32)
  | string (s : String)
  | table
  | function
  | userdata
  | thread
  deriving DecidableEq, Repr

def Element.typename : Element → String
  | boolean => "boolean"
  | lightuserdata => "userdata"
  | number _ => "number"
  | string _ => "string"
  | table => "table"
  | function => "function"
  | userdata => "userdata"
  | thread => "thread"

/-- The elements of a table, in the order in which `lua_next` enumerates them. -/
abbrev Elements := List (Element × Element)

/-- The result of a script: a table, or something of another type. -/
inductive ScriptValue where
  | table (elements : Elements)
  | other (typename : String)

/-- The finalizer of something that a script has made: a connection, or anything else, with what its finalizer
comes to. -/
inductive Finalizer where
  | eventConnection_GC
  | other (ends : Except Abort Unit)

/-- A call of a finalizer by `lua_close`, which goes on after an error of Lua. `EventConnection_GC` takes the
userdata of a connection for a pointer to one: undefined. -/
def Finalizer.call : Finalizer → Except Abort Unit
  | .eventConnection_GC => .error .undefinedBehaviour
  | .other (.error (.luaError _)) => .ok ()
  | .other ends => ends

def Finalizer.returns (f : Finalizer) : Bool := f.call.isOk

/-- What running a script file comes to. An error value may be other than a string, and a script that fails
may have made before what is to be finalized. An exception of C++ is caught neither by Lua nor by
`RequireFile`. -/
inductive Script where
  | missing
  | compileError (message : Option String)
  | runError (message : Option String) (made : List Finalizer)
  | throws (what : String)
  | undefined
  | returns (value : ScriptValue)

/-- The finalizers of what a script that fails has made. -/
def Script.made : Script → List Finalizer
  | .runError _ made => made
  | _ => []

namespace LuaManager

/-- `Close`, as far as it finalizes. -/
def close (finalizers : List Finalizer) : Except Abort Unit := finalizers.forM Finalizer.call

theorem close_eq_ok_iff (finalizers : List Finalizer) :
    close finalizers = .ok () ↔ finalizers.all Finalizer.returns = true := by
  induction finalizers with
  | nil => exact iff_of_true rfl rfl
  | cons f rest ih =>
    rw [List.all_cons, Bool.and_eq_true, ← ih, Finalizer.returns, close, List.forM_eq_forM, List.forM_cons]
    cases f.call with
    | error e => simp [bind, Except.bind, Except.isOk, Except.toBool]
    | ok _ => simp [bind, Except.bind, Except.isOk, Except.toBool, close]

/-- `RequireFile`, if it returns: the result on the stack, or what `GetError` says. -/
def requireFile : Script → Except Abort (Except String ScriptValue)
  | .missing => .ok (.error "File does not exist.")
  | .compileError message => .ok (.error (message.getD "No information given."))
  | .runError message _ => .ok (.error (message.getD "No information given."))
  | .throws what => .error (.exception what)
  | .undefined => .error .undefinedBehaviour
  | .returns value => .ok (.ok value)

/-- The operations that use a manager or its state. Those of `LuaTableReader` do so by calls of the
Lua API: its constructor by `luaL_ref`, its `Close` by `lua_pop` and `luaL_unref`. -/
inductive Operation where
  | setup
  | load (library : String)
  | requireFile (file : String)
  | getError
  | type
  | ref
  | nextElement
  | getKeyType
  | getKeyString
  | getType
  | getString
  | getInt
  | pop
  | unref
  | clearStack
  deriving DecidableEq, Repr

end LuaManager
end H1Z1Server
