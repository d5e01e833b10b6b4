import Mathlib.Logic.Function.Basic
import H1Z1Server.LuaSystem.LuaStream

/-! `Packets`: packet structures, the tables of their opcodes, and the loops that write a table of
values as a packet and read one back. Error messages are without the position of the error. -/
namespace H1Z1Server

inductive NumberType where
  | dword
  | qword
  | word
  | byte
  deriving DecidableEq, Repr

/-- The entries of the table `Types`, and the numbers that are none of them. -/
inductive Types where
  | number (t : NumberType)
  | string
  | unknown (code : ℤ)
  deriving DecidableEq, Repr

/-- An element of a packet structure: `{ name, type, default }`. -/
structure Field where
  name : String
  type : Types
  default : Option LuaValue
  deriving DecidableEq, Repr

abbrev PacketStructure := List Field

/-- A Lua table with names as its keys. -/
abbrev LuaTable := String → Option LuaValue

/-- `data[name] or default`. -/
def Field.value (f : Field) (data : LuaTable) : Option LuaValue := data f.name <|> f.default

/-- The tables of the module: the packet structures among its locals, the names of the opcodes,
and the opcodes of the names. -/
structure PacketTables where
  locals : String → Option PacketStructure
  packetIds : LuaValue → Option String
  opCodes : LuaTable

namespace Packets

/-- The opcode of a structure, as the protected call of the opcode loop gets it. -/
def fieldOpCode (locals : String → Option PacketStructure) (v : String) : Except Abort LuaValue :=
  match locals v with
  | none => .error (.luaError "attempt to index field '?' (a nil value)")
  | some [] => .error (.luaError "attempt to index local 'field' (a nil value)")
  | some (field :: _) =>
    if field.name ≠ "PacketId" then
      .error (.luaError ("[ERROR][" ++ v ++
        "]: Packet structure invalid. First field is not 'PacketId' (REQURIED)."))
    else match field.default with
      | none => .error (.luaError "table index is nil")
      | some opcode => .ok opcode

/-- One round of the opcode loop. An error only prints a warning. -/
def registerPacket (tables : PacketTables) (v : String) : PacketTables :=
  match fieldOpCode tables.locals v with
  | .error _ => tables
  | .ok opcode => { tables with
      packetIds := Function.update tables.packetIds opcode (some v)
      opCodes := Function.update tables.opCodes v (some opcode) }

/-- The opcode loop over `ProcessedPackets`. -/
def register (locals : String → Option PacketStructure) (processed : List String) : PacketTables :=
  processed.foldl registerPacket ⟨locals, fun _ => none, fun _ => none⟩

theorem registerPacket_ok {tables : PacketTables} {v : String} {opcode : LuaValue}
    (h : fieldOpCode tables.locals v = .ok opcode) :
    registerPacket tables v = { tables with
      packetIds := Function.update tables.packetIds opcode (some v)
      opCodes := Function.update tables.opCodes v (some opcode) } := by
  rw [registerPacket, h]

theorem registerPacket_error {tables : PacketTables} {v : String} {e : Abort}
    (h : fieldOpCode tables.locals v = .error e) : registerPacket tables v = tables := by
  rw [registerPacket, h]

@[simp] theorem registerPacket_locals (tables : PacketTables) (v : String) :
    (registerPacket tables v).locals = tables.locals := by
  cases h : fieldOpCode tables.locals v with
  | ok opcode => rw [registerPacket_ok h]
  | error e => rw [registerPacket_error h]

theorem foldl_locals (tables : PacketTables) (processed : List String) :
    (processed.foldl registerPacket tables).locals = tables.locals := by
  induction processed generalizing tables with
  | nil => rfl
  | cons v processed ih => rw [List.foldl_cons, ih, registerPacket_locals]

variable (rt : LuaRuntime) (tables : PacketTables)

def getPacketId : StreamM String := do
  let opcode ← BufferReader.readWord
  return (tables.packetIds opcode).getD "Unknown"

def getPacketOpCode (packetId : String) : Option LuaValue := tables.opCodes packetId

def unknownType (packetId : String) (code : ℤ) (i : ℕ) (name : String) : Abort :=
  .luaError ("Packet '" ++ packetId ++ "' Error: Unknown element type (" ++ toString code ++
    ") at index '" ++ toString i ++ "' with name '" ++ name ++ "'.")

/-- One element of a packet, read. -/
def deserializeField (packetId : String) (i : ℕ) (f : Field) : StreamM LuaValue :=
  match f.type with
  | .number .dword => BufferReader.readDword
  | .number .qword => BufferReader.readQword
  | .number .word => BufferReader.readWord
  | .number .byte => BufferReader.readByte
  | .string => BufferReader.readString .untilNullTerm
  | .unknown code => throw (unknownType packetId code i f.name)

/-- The loop of `Deserialize` from index `i` on. -/
def deserializeFields (packetId : String) : ℕ → PacketStructure → LuaTable → StreamM LuaTable
  | _, [], result => return result
  | i, f :: rest, result => do
    if i = 1 then
      if f.name ≠ "PacketId" then
        throw (.luaError "Unable to deserialize, expected PacketId for first element of structure.")
      deserializeFields packetId (i + 1) rest
        (Function.update result "PacketId" (tables.opCodes packetId))
    else
      let value ← deserializeField packetId i f
      deserializeFields packetId (i + 1) rest (Function.update result f.name (some value))

def deserialize (packetId : String) : StreamM LuaTable :=
  match tables.locals packetId with
  | none => throw (.luaError "Unknown packetId, unable to deserialize.")
  | some packet => deserializeFields tables packetId 1 packet fun _ => none

/-- One element of a packet, written. -/
def serializeField (packetId : String) (data : LuaTable) (i : ℕ) (f : Field) : StreamM Unit :=
  match f.type with
  | .number .dword => BufferWriter.writeDword rt (f.value data)
  | .number .qword => BufferWriter.writeQword rt (f.value data)
  | .number .word => BufferWriter.writeWord rt (f.value data)
  | .number .byte => BufferWriter.writeByte rt (f.value data)
  | .string => BufferWriter.writeString rt (f.value data) .untilNullTerm
  | .unknown code => throw (unknownType packetId code i f.name)

/-- The loop of `Serialize` from index `i` on. -/
def serializeFields (packetId : String) (data : LuaTable) : ℕ → PacketStructure → StreamM Unit
  | _, [] => return ()
  | i, f :: rest => do
    if i = 1 then
      if f.name ≠ "PacketId" then
        throw (.luaError "Unable to serialize, expected PacketId for first element of structure.")
      BufferWriter.writeWord rt (tables.opCodes packetId)
    else
      serializeField rt packetId data i f
    serializeFields packetId data (i + 1) rest

/-- The writer is made before the structure is looked up. -/
def serialize (packetId : String) (data : LuaTable) : Except Abort ByteStreamBuffer := do
  let buffer ← ByteStream.new rt 0 true true
  match tables.locals packetId with
  | none => .error (.luaError "Unknown packetId, unable to deserialize.")
  | some packet =>
    match (serializeFields rt tables packetId data 1 packet).run buffer with
    | .ok _ buffer => .ok (BufferWriter.getBuffer buffer)
    | .error e _ => .error e

end Packets
end H1Z1Server
