import H1Z1Server.Lua.Api
import H1Z1Server.LuaSystem.LuaManager

/-! `LuaManager`: the execution of scripts, and what it leaves on the stack of Lua. -/
namespace H1Z1Server
open LuaApi

inductive ExecutionResult where
  | noState
  | noFile
  | compileError
  | runError
  | success
  deriving DecidableEq, Repr

/-- The state of a manager. `L` says whether there is a Lua state. -/
structure LuaManager where
  L : Bool
  error : List UInt8
  stackCount : ℤ

/-- What a call of the manager finds: the files, the message of the compiler if it has one, and how
the functions behave that are called. When one returns, the stack has `room` slots from it on. -/
structure Platform (N : Type) [LuaNumber N] where
  localPath : String
  files : String → Option (List UInt8)
  compile : List UInt8 → String → Option (List UInt8)
  calls : Calls N
  room : ℕ

def messageBytes (s : String) : List UInt8 := s.toUTF8.toList

namespace LuaManager
variable {N : Type} [LuaNumber N]

/-- What `Setup` leaves. No one has set `stackCount` yet, and it is whatever the memory holds. -/
def setup (memory : ℤ) : LuaManager := ⟨true, messageBytes "No error occured.", memory⟩

/-- `luaL_loadbuffer`: a new function, or the message of the compiler. -/
def loadbuffer (p : Platform N) (script : List UInt8) (name : String) : LuaM N Bool := do
  match p.compile script name with
  | some message =>
    push (.string message)
    return true
  | none =>
    let heap := (← get).heap
    setHeap { heap with objects := heap.objects + 1 }
    push (.function heap.objects)
    return false

/-- What both error exits do with the value on the top. -/
def fail (m : LuaManager) (result : ExecutionResult) : LuaM N (ExecutionResult × LuaManager) := do
  if (← type (-1)) ≠ .string then
    return (result, { m with error := messageBytes "No information given." })
  let buf ← tolstring (-1)
  pop 1
  return (result, { m with error := buf.getD [] })

/-- `Execute`. -/
def execute (m : LuaManager) (p : Platform N) (script : List UInt8) (scriptName : String) (nArgs : ℕ)
    (nResults : ℤ) : LuaM N (ExecutionResult × LuaManager) := do
  if !m.L then return (.noState, m)
  let m := { m with stackCount := ← gettop }
  if ← loadbuffer p script ("=LuaManager#" ++ scriptName) then
    m.fail .compileError
  else if ← pcall p.calls p.room nArgs nResults then
    m.fail .runError
  else return (.success, m)

/-- `Require`. -/
def require (m : LuaManager) (p : Platform N) (script : List UInt8) (scriptName : String)
    (nResults : ℤ) : LuaM N (ExecutionResult × LuaManager) :=
  m.execute p script scriptName 0 nResults

/-- The path that `ExecuteFile` opens. -/
def fullPath (p : Platform N) (filePath : String) : String :=
  if filePath.contains ":/" ∨ filePath.contains ":\\" then filePath
  else p.localPath ++ "\\" ++ filePath

/-- The name of a file, without its directory and its extension. -/
def fileName (path : String) : String :=
  let name := (path.toList.reverse.takeWhile fun c => c ≠ '\\' ∧ c ≠ '/').reverse
  if '.' ∈ name then String.ofList ((name.reverse.dropWhile (· ≠ '.')).drop 1).reverse
  else String.ofList name

/-- `ExecuteFile`. -/
def executeFile (m : LuaManager) (p : Platform N) (filePath scriptName : String) (nArgs : ℕ)
    (nResults : ℤ) : LuaM N (ExecutionResult × LuaManager) :=
  let path := fullPath p filePath
  match p.files path with
  | none => return (.noFile, { m with error := messageBytes "File does not exist." })
  | some script =>
    m.execute p script (if scriptName = "" then fileName path else scriptName) nArgs nResults

/-- `ClearStack`. -/
def clearStack (m : LuaManager) : LuaM N Unit := do
  pop ((← gettop) - m.stackCount)

/-- What `GetError` gives for an error value. -/
def errorText : Value N → List UInt8
  | .string s => s
  | _ => messageBytes "No information given."

end LuaManager

open LuaManager
variable {N : Type} [LuaNumber N]

section Runs
variable {stack : List (Value N)} {heap : Heap N} {called : List (Value N × List (Value N))}

theorem fail_run (m : LuaManager) (result : ExecutionResult) (e : Value N) :
    (m.fail result).run ⟨e :: stack, heap, called⟩ =
      .ok (result, { m with error := errorText e }) ⟨leftBy e ++ stack, heap, called⟩ := by
  cases e with
  | string s =>
    simp only [LuaManager.fail, EStateM.run_bind, type_first, Value.type, ne_eq, not_true_eq_false, if_false,
      tolstring_first, pop_one]
    rfl
  | _ =>
    simp only [LuaManager.fail, EStateM.run_bind, type_first, Value.type, ne_eq]
    rfl

variable {m : LuaManager} {p : Platform N} {script : List UInt8} {scriptName : String}

/-- The heap with the function of a compiled script, whose number is that of the objects before. -/
def Platform.loaded (heap : Heap N) : Heap N := { heap with objects := heap.objects + 1 }

section Chunk
variable {rest args : List (Value N)} {f : Value N} {heap' : Heap N}

/-- A script that compiles: what lies below as many values as there are arguments is called. -/
theorem execute_chunk (hL : m.L = true)
    (hcompile : p.compile script ("=LuaManager#" ++ scriptName) = none) (nResults : ℤ)
    (hstack : .function heap.objects :: stack = args.reverse ++ f :: rest) :
    (m.execute p script scriptName args.length nResults).run ⟨stack, heap, called⟩ =
      if (p.calls f args (Platform.loaded heap)).1.fits p.room nResults then
        (if (p.calls f args (Platform.loaded heap)).1.failed then
            { m with stackCount := stack.length }.fail .runError
          else pure (.success, { m with stackCount := stack.length })).run
          ⟨(p.calls f args (Platform.loaded heap)).1.leaves nResults ++ rest,
            (p.calls f args (Platform.loaded heap)).2, (f, args) :: called⟩
      else .error .undefinedBehaviour ⟨args.reverse ++ f :: rest, Platform.loaded heap, called⟩ := by
  have hload : (loadbuffer p script ("=LuaManager#" ++ scriptName)).run ⟨stack, heap, called⟩ =
      .ok false ⟨args.reverse ++ f :: rest, Platform.loaded heap, called⟩ := by
    rw [loadbuffer, hcompile, ← hstack]
    rfl
  simp only [execute, hL, Bool.not_true, Bool.false_eq_true, if_false, EStateM.run_bind, gettop_run,
    hload, pcall_eq]
  cases (p.calls f args (Platform.loaded heap)).1.fits p.room nResults <;> rfl

theorem execute_returns (hL : m.L = true)
    (hcompile : p.compile script ("=LuaManager#" ++ scriptName) = none) {nResults : ℤ}
    (hstack : .function heap.objects :: stack = args.reverse ++ f :: rest) {results : List (Value N)}
    (hcall : p.calls f args (Platform.loaded heap) = (.returns results, heap'))
    (hfits : (Outcome.returns results).fits p.room nResults = true) :
    (m.execute p script scriptName args.length nResults).run ⟨stack, heap, called⟩ =
      .ok (.success, { m with stackCount := stack.length })
        ⟨(adjust nResults results).reverse ++ rest, heap', (f, args) :: called⟩ := by
  rw [execute_chunk hL hcompile nResults hstack, hcall, if_pos hfits]
  rfl

/-- Results that find no room are written past the end of the stack. -/
theorem execute_overflows (hL : m.L = true)
    (hcompile : p.compile script ("=LuaManager#" ++ scriptName) = none) {nResults : ℤ}
    (hstack : .function heap.objects :: stack = args.reverse ++ f :: rest)
    (hfits : (p.calls f args (Platform.loaded heap)).1.fits p.room nResults = false) :
    ∃ s', (m.execute p script scriptName args.length nResults).run ⟨stack, heap, called⟩ =
      .error .undefinedBehaviour s' := by
  rw [execute_chunk hL hcompile nResults hstack, hfits]
  exact ⟨_, rfl⟩

theorem execute_raises (hL : m.L = true)
    (hcompile : p.compile script ("=LuaManager#" ++ scriptName) = none) (nResults : ℤ)
    (hstack : .function heap.objects :: stack = args.reverse ++ f :: rest) {e : Value N}
    (hcall : p.calls f args (Platform.loaded heap) = (.raises e, heap')) :
    (m.execute p script scriptName args.length nResults).run ⟨stack, heap, called⟩ =
      .ok (.runError, { m with stackCount := stack.length, error := errorText e })
        ⟨leftBy e ++ rest, heap', (f, args) :: called⟩ := by
  rw [execute_chunk hL hcompile nResults hstack, hcall]
  exact fail_run _ _ e

end Chunk

end Runs

section Arguments

/-- The call of `Execute` calls the chunk with these arguments, and nothing else; and when it
succeeds, the results have replaced the arguments on the stack. -/
def ArgumentsReach (m : LuaManager) (p : Platform N) (script : List UInt8) (scriptName : String)
    (nResults : ℤ) (args rest : List (Value N)) (s : State N) : Prop :=
  ∃ result m' s', (m.execute p script scriptName args.length nResults).run s = .ok (result, m') s' ∧
    s'.called = (.function s.heap.objects, args) :: s.called ∧
    (result = .success → ∃ results heap,
      p.calls (.function s.heap.objects) args (Platform.loaded s.heap) = (.returns results, heap) ∧
        s'.stack = (adjust nResults results).reverse ++ rest)

theorem called_of_execute {m : LuaManager} {p : Platform N} {script : List UInt8} {scriptName : String}
    {s : State N} (hL : m.L = true) (hcompile : p.compile script ("=LuaManager#" ++ scriptName) = none)
    {nResults : ℤ} (args : List (Value N)) {rest : List (Value N)} {f : Value N}
    (hstack : .function s.heap.objects :: s.stack = args.reverse ++ f :: rest)
    {result : ExecutionResult} {m' : LuaManager} {s' : State N}
    (hrun : (m.execute p script scriptName args.length nResults).run s = .ok (result, m') s') :
    s'.called = (f, args) :: s.called ∧
      (p.calls f args (Platform.loaded s.heap)).1.fits p.room nResults = true := by
  obtain ⟨stack, heap, called⟩ := s
  cases hfits : (p.calls f args (Platform.loaded heap)).1.fits p.room nResults with
  | false =>
    have hover : ∃ s₁, (m.execute p script scriptName args.length nResults).run ⟨stack, heap, called⟩ =
        .error .undefinedBehaviour s₁ := execute_overflows hL hcompile hstack hfits
    obtain ⟨s₁, hover⟩ := hover
    rw [hover] at hrun
    cases hrun
  | true =>
    refine ⟨?_, rfl⟩
    cases hcall : p.calls f args (Platform.loaded heap) with
    | mk outcome heap' =>
      rw [hcall] at hfits
      cases outcome with
      | returns results =>
        rw [execute_returns hL hcompile hstack hcall hfits] at hrun
        cases hrun
        rfl
      | raises e =>
        rw [execute_raises hL hcompile nResults hstack hcall] at hrun
        cases hrun
        rfl

/-- The first argument is called, and the chunk is the last of those that it gets. -/
theorem called_of_arguments {m : LuaManager} {p : Platform N} {script : List UInt8} {scriptName : String}
    {s : State N} (hL : m.L = true) (hcompile : p.compile script ("=LuaManager#" ++ scriptName) = none)
    {nResults : ℤ} {a : Value N} {args rest : List (Value N)} (hstack : s.stack = (a :: args).reverse ++ rest)
    {result : ExecutionResult} {m' : LuaManager} {s' : State N}
    (hrun : (m.execute p script scriptName (a :: args).length nResults).run s = .ok (result, m') s') :
    s'.called = (a, args ++ [.function s.heap.objects]) :: s.called := by
  have hsplit : Value.function s.heap.objects :: s.stack =
      (args ++ [Value.function s.heap.objects]).reverse ++ a :: rest := by
    rw [hstack, List.reverse_cons, List.reverse_append, List.reverse_singleton, List.append_assoc,
      List.singleton_append, List.singleton_append, List.cons_append]
  have hlength : (a :: args).length = (args ++ [Value.function s.heap.objects]).length := by simp
  rw [hlength] at hrun
  exact (called_of_execute hL hcompile _ hsplit hrun).1

/-- The arguments reach the script exactly when there are none, and what the script returns finds its
places on the stack. -/
theorem argumentsReach_iff {m : LuaManager} (hL : m.L = true) {p : Platform N} {script : List UInt8}
    {scriptName : String} (hcompile : p.compile script ("=LuaManager#" ++ scriptName) = none)
    (nResults : ℤ) {s : State N} {args rest : List (Value N)} (hstack : s.stack = args.reverse ++ rest)
    (hfresh : ∀ o, .function o ∈ s.stack → o < s.heap.objects) :
    ArgumentsReach m p script scriptName nResults args rest s ↔ args = [] ∧
      (p.calls (.function s.heap.objects) [] (Platform.loaded s.heap)).1.fits p.room nResults = true := by
  have hsplit : Value.function s.heap.objects :: s.stack =
      ([] : List (Value N)).reverse ++ .function s.heap.objects :: s.stack := rfl
  constructor
  · rintro ⟨result, m', s', hrun, hcalled, -⟩
    cases args with
    | nil => exact ⟨rfl, (called_of_execute hL hcompile [] hsplit hrun).2⟩
    | cons a args =>
      rw [called_of_arguments hL hcompile hstack hrun] at hcalled
      injection hcalled with hcall
      injection hcall with hfirst
      have hmem : Value.function s.heap.objects ∈ s.stack := by
        rw [hstack, ← hfirst]
        simp
      exact absurd (hfresh _ hmem) (lt_irrefl _)
  · rintro ⟨rfl, hfits⟩
    have hrest : s.stack = rest := hstack
    obtain ⟨stack, heap, called⟩ := s
    cases hcall : p.calls (.function heap.objects) [] (Platform.loaded heap) with
    | mk outcome heap' =>
      rw [hcall] at hfits
      cases outcome with
      | returns results =>
        refine ⟨_, _, _, execute_returns hL hcompile hsplit hcall hfits, rfl, ?_⟩
        intro _
        rw [← hrest]
        exact ⟨results, heap', hcall, rfl⟩
      | raises e =>
        refine ⟨_, _, _, execute_raises hL hcompile nResults hsplit hcall, rfl, ?_⟩
        intro hsuccess
        cases hsuccess

/-- Scripts compile, do nothing and return nothing, and nothing else can be called. -/
def idlePlatform : Platform ℤ where
  localPath := ""
  files _ := none
  compile _ _ := none
  calls
    | .function _, _, heap => (.returns [], heap)
    | _, _, heap => (.raises (.string (messageBytes "attempt to call a number value")), heap)
  room := 20

theorem argumentsReach_iff_example :
    ArgumentsReach (setup 0) idlePlatform [] "0000" 2 [] [.nil] ⟨[.nil], .single .empty, []⟩ ↔
      ([] : List (Value ℤ)) = [] ∧ (idlePlatform.calls (.function 1) []
        (Platform.loaded (.single .empty))).1.fits idlePlatform.room 2 = true :=
  argumentsReach_iff rfl rfl 2 rfl (by simp)

/-- The one argument of a script is called in its place. -/
theorem argument_called :
    ¬ArgumentsReach (setup 0) idlePlatform [] "0000" 0 [.number 1] [] ⟨[.number 1], .single .empty, []⟩ := by
  rintro ⟨result, m', s', hrun, hcalled, -⟩
  have hnumber : s'.called = [(.number 1, [.function 1])] :=
    called_of_arguments rfl rfl rfl hrun
  rw [hnumber] at hcalled
  cases hcalled

end Arguments

end H1Z1Server
