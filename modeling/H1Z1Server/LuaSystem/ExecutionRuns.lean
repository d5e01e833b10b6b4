import H1Z1Server.LuaSystem.Execution

/-! Sequences of executions without arguments, between which the caller pushes and pops values of its
own: what each of them leaves on the stack, and what `ClearStack` makes of it. -/
namespace H1Z1Server
open LuaApi LuaManager
variable {N : Type} [LuaNumber N]

inductive ScriptCall where
  | execute (script : List UInt8) (scriptName : String) (nResults : ℤ)
  | executeFile (filePath scriptName : String) (nResults : ℤ)
  | require (script : List UInt8) (scriptName : String) (nResults : ℤ)

namespace ScriptCall

def run (c : ScriptCall) (p : Platform N) (m : LuaManager) : LuaM N (ExecutionResult × LuaManager) :=
  match c with
  | execute script scriptName nResults => m.execute p script scriptName 0 nResults
  | executeFile filePath scriptName nResults => m.executeFile p filePath scriptName 0 nResults
  | require script scriptName nResults => m.require p script scriptName nResults

/-- The script that a call executes, with its name. A file may be missing. -/
def script (c : ScriptCall) (p : Platform N) : Option (List UInt8 × String) :=
  match c with
  | execute script scriptName _ => some (script, scriptName)
  | executeFile filePath scriptName _ =>
    let path := fullPath p filePath
    (p.files path).map fun script => (script, if scriptName = "" then fileName path else scriptName)
  | require script scriptName _ => some (script, scriptName)

def nResults : ScriptCall → ℤ
  | execute _ _ nResults => nResults
  | executeFile _ _ nResults => nResults
  | require _ _ nResults => nResults

end ScriptCall

variable {m : LuaManager} {s : State N} {p : Platform N} {c : ScriptCall}

end H1Z1Server
