import H1Z1Server.LuaSystem.LuaManager

/-! The loop of `main` that runs the servers: one Lua manager for each folder, its main script and its
config script, and the tables that these return. -/
namespace H1Z1Server
open MachineInt

/-- `Port` has no value until one is stored. -/
structure LuaServerData where
  configFile : String
  serverName : String
  host : String
  port : Option Int32
  deriving DecidableEq, Repr

/-- A folder under `Servers`: whether it has a main file, and what its main script and the config
script that is then required come to. -/
structure ServerFolder where
  folderName : String
  hasMain : Bool
  main : Script
  config : Script

inductive HostEvent where
  | print (line : String)
  | uses (op : LuaManager.Operation)
  | close
  | delete
  deriving DecidableEq, Repr

/-- The globals, what happened so far, and whether the manager of the current folder was closed. An
environment is given by the folder that its manager was made for. -/
structure Host where
  servers : List LuaServerData
  environments : List String
  closed : Bool
  events : List HostEvent

abbrev HostM := EStateM Abort Host

namespace ServerHost

def configFileName : String := "Config.lua"

def mainFileName : String := "Server.lua"

def emit (e : HostEvent) : HostM Unit := modify fun h => { h with events := h.events ++ [e] }

def print (line : String) : HostM Unit := emit (.print line)

/-- An operation on the manager or its state. To use a closed one is undefined. -/
def use (op : LuaManager.Operation) : HostM Unit := do
  emit (.uses op)
  if (← get).closed then throw .undefinedBehaviour

/-- `new LuaManager()`, which begins a manager of its own. -/
def newManager : HostM Unit := modify fun h => { h with closed := false }

/-- `lua->Close(); delete lua;` To close a state calls its finalizers. -/
def closeAndDelete (finalizers : List Finalizer) : HostM Unit := do
  emit .close
  MonadExcept.ofExcept (LuaManager.close finalizers)
  emit .delete
  modify fun h => { h with closed := true }

/-- A key that a table may have, the type that its value must have, and what is stored of it. -/
structure Field where
  key : String
  expects : String
  getter : LuaManager.Operation
  store : Element → LuaServerData → Option LuaServerData
  typed : ∀ value info, (store value info).isSome ↔ value.typename = expects

/-- A key with a string. -/
def stringField (key : String) (set : String → LuaServerData → LuaServerData) : Field where
  key
  expects := "string"
  getter := .getString
  store
    | .string s, info => some (set s info)
    | _, _ => none
  typed value info := by cases value <;> simp [Element.typename]

def serverInfoFields : List Field :=
  [stringField "ConfigFile" fun s info => { info with configFile := s }]

/-- `serverInfo.Host = config.GetInt()`: an `int` is assigned to a string as one character. -/
def portField : Field where
  key := "Port"
  expects := "number"
  getter := .getInt
  store
    | .number n, info => some { info with host := String.singleton (Char.ofNat (byte n).toNat) }
    | _, _ => none
  typed value info := by cases value <;> simp [Element.typename]

def configFields : List Field :=
  [stringField "ServerName" fun s info => { info with serverName := s },
    stringField "Host" fun s info => { info with host := s }, portField]

/-- The loop over a table, with the `exit` flag, the index of the reader and the data at its end. An ill-typed
element closes the manager, here that of a state with nothing to finalize. -/
def readElements (what : String) (fields : List Field) :
    Elements → ℤ → LuaServerData → HostM (Bool × ℤ × LuaServerData)
  | [], current_idx, info => do
    use .nextElement
    return (false, current_idx + 1, info)
  | (key, value) :: rest, current_idx, info => do
    use .nextElement
    use .getKeyType
    match key with
    | .string k =>
      use .getKeyString
      match fields.find? (·.key = k) with
      | some field =>
        use .getType
        match field.store value info with
        | some info =>
          use field.getter
          readElements what fields rest (current_idx + 1) info
        | none =>
          print ("[ERROR][LuaSystem]: Server " ++ what ++ " expects " ++ field.expects ++ " for '" ++
            field.key ++ "', got " ++ value.typename ++ " instead.\n\n")
          closeAndDelete []
          return (true, current_idx + 1, info)
      | none =>
        -- an unknown key ends the loop
        print ("[WARN][LuaSystem]: Unknown server " ++ what ++ " key: " ++ k ++ "\n")
        return (false, current_idx + 1, info)
    | _ =>
      print ("[ERROR][LuaSystem]: Server " ++ what ++ " expects only strings for keys, got " ++
        key.typename ++ " instead.\n\n")
      closeAndDelete []
      return (true, current_idx + 1, info)

/-- `LuaTableReader::Close`. The destructor finds the reader closed, and does nothing. -/
def closeReader (current_idx : ℤ) : HostM Unit := do
  if current_idx ≠ 0 then
    use .pop
  use .unref

/-- Reading a table from its constructor to `ClearStack`. There is no data if `exit` is set. -/
def readTable (what : String) (fields : List Field) (elements : Elements) (info : LuaServerData) :
    HostM (Option LuaServerData) := do
  use .ref
  let (exit, current_idx, info) ← readElements what fields elements (-1) info
  closeReader current_idx
  use .clearStack
  return if exit then none else some info

/-- The data of a server before its scripts have said anything. -/
def noData : LuaServerData := { configFile := "", serverName := "", host := "", port := none }

/-- What the main script returned, if not in error, with the name of the config file. -/
def readServerInfo : ScriptValue → HostM (Option LuaServerData)
  | .table elements => do
    let info ← readTable "info" serverInfoFields elements noData
    return info.map fun info =>
      if info.configFile.isEmpty then { info with configFile := configFileName } else info
  | .other _ => return some { noData with configFile := configFileName }

/-- What the config script returned. The reader throws if it is no table. -/
def readConfig (info : LuaServerData) : ScriptValue → HostM (Option LuaServerData)
  | .table elements => readTable "config" configFields elements info
  | .other typename => throw (.exception ("LuaTableReader expected table, got " ++ typename))

/-- The second half of a round: the config script, and the server with its environment. -/
def configure (folder : ServerFolder) (info : LuaServerData) : HostM Unit := do
  use (.requireFile info.configFile)
  match LuaManager.requireFile folder.config with
  | .error e => throw e
  | .ok (.error _) =>
    use .getError
    -- `printf` is given one argument for two `%s`
    throw .undefinedBehaviour
  | .ok (.ok result) =>
    match ← readConfig info result with
    | none => return
    | some info =>
      modify fun h => { h with
        servers := h.servers ++ [info]
        environments := h.environments ++ [folder.folderName] }
      print ("[LuaSystem]: Successfully ran server '" ++ mainFileName ++ "'.\n\n")

/-- One round of the loop. -/
def runServer (folder : ServerFolder) : HostM Unit := do
  if !folder.hasMain then
    print ("[Server]: Server folder '" ++ folder.folderName ++
      "' does not have a main server file. (Main File: " ++ mainFileName ++ ")\n\n")
    return
  print ("[LuaSystem]: Initializing for server '" ++ folder.folderName ++ "'...\n")
  newManager
  use .setup
  use (.load "LuaStream")
  use (.load "LuaNetSocket")
  use (.load "LuaDebug")
  print ("[LuaSystem]: Running server '" ++ folder.folderName ++ "'...\n")
  use (.requireFile mainFileName)
  match LuaManager.requireFile folder.main with
  | .error e => throw e
  | .ok (.error error) =>
    use .getError
    print ("[ERROR][LuaSystem]: Execution failed for server folder '" ++ folder.folderName ++
      "'. Error:\n" ++ error ++ "\n\n")
    closeAndDelete folder.main.made
  | .ok (.ok result) =>
    use .type
    match ← readServerInfo result with
    | none => return
    | some info => configure folder info

/-- The loop. -/
def runServers (folders : List ServerFolder) : HostM Unit := folders.forM runServer

end ServerHost
end H1Z1Server
