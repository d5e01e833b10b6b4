import H1Z1Server.Stream.Reader

/-! `LuaStream`: the methods of the byte streams that Lua calls, and the conversions between
Lua values and the machine types of the streams. Numbers are those without a fraction. -/
namespace H1Z1Server
open MachineInt MemoryBlock ByteStreamBuffer

inductive LuaValue where
  | number (n : ℤ)
  | string (s : List UInt8)
  deriving DecidableEq, Repr

/-- What Lua and the streams take from the platform: the heap, the conversion of a `double` to an
`int` (defined where the number fits), and how Lua reads a string as a number and back. -/
structure LuaRuntime where
  malloc : Malloc
  toInt : ℤ → Option Int32
  toInt_exact : ∀ n, -2 ^ 31 ≤ n → n < 2 ^ 31 → toInt n = some (Int32.ofInt n)
  numeral : List UInt8 → Option ℤ
  text : ℤ → List UInt8

/-- The nearest `double` to an unsigned number, the even one of two. -/
def roundToDouble (n : ℕ) : ℕ :=
  if n < 2 ^ 53 then n
  else
    let unit := 2 ^ (Nat.log2 n - 52)
    let q := n / unit
    let r := n % unit
    (if unit < 2 * r ∨ unit = 2 * r ∧ q % 2 = 1 then q + 1 else q) * unit

namespace LuaStream

/-- `luaL_typerror` for the argument of a method, without the position of the call. -/
def typeError (f expected actual : String) (narg : ℕ) : Abort :=
  .luaError ("bad argument #" ++ toString narg ++ " to '" ++ f ++ "' (" ++ expected ++
    " expected, got " ++ actual ++ ")")

variable (rt : LuaRuntime)

/-- `luaL_checknumber` of the first argument of a method. -/
def checkNumber (f : String) : Option LuaValue → StreamM ℤ
  | some (.number n) => return n
  | some (.string s) =>
    match rt.numeral s with
    | some n => return n
    | none => throw (typeError f "number" "string" 1)
  | none => throw (typeError f "number" "nil" 1)

/-- `int value = luaL_checknumber(L, 2)`. A number that no `int` has makes it undefined. -/
def checkInt (f : String) (v : Option LuaValue) : StreamM Int32 := do
  match rt.toInt (← checkNumber rt f v) with
  | some i => return i
  | none => throw .undefinedBehaviour

/-- `luaL_checklstring` of the first argument of a method. -/
def checkString (f : String) : Option LuaValue → StreamM (List UInt8)
  | some (.string s) => return s
  | some (.number n) => return rt.text n
  | none => throw (typeError f "string" "nil" 1)

end LuaStream

namespace BufferReader

def readDword : StreamM LuaValue :=
  (fun d => .number d.toNat) <$> ByteStreamReader.readDword

def readWord : StreamM LuaValue :=
  (fun w => .number w.toNat) <$> ByteStreamReader.readWord

def readByte : StreamM LuaValue :=
  (fun b => .number b.toNat) <$> ByteStreamReader.readByte

def readQword : StreamM LuaValue :=
  (fun q => .number (roundToDouble q.toNat)) <$> ByteStreamReader.readQword

def readString (mode : StringInterpretMode) : StreamM LuaValue :=
  .string <$> ByteStreamReader.readString mode

end BufferReader

/-- `PushLuaStream`. -/
def pushLuaStream (buffer : Option Block) (bufferSize : Int32) : ByteStreamBuffer :=
  ByteStreamReader.initializeReader buffer (sizeT bufferSize) true

namespace BufferWriter
open LuaStream
variable (rt : LuaRuntime)

def writeDword (v : Option LuaValue) : StreamM Unit := do
  let value ← checkInt rt "WriteDword" v
  ByteStreamWriter.writeDword rt.malloc (dword value)

def writeWord (v : Option LuaValue) : StreamM Unit := do
  let value ← checkInt rt "WriteWord" v
  ByteStreamWriter.writeWord rt.malloc (word value)

def writeByte (v : Option LuaValue) : StreamM Unit := do
  let value ← checkInt rt "WriteByte" v
  ByteStreamWriter.writeByte rt.malloc (byte value)

/-- The `int` is extended with its sign. -/
def writeQword (v : Option LuaValue) : StreamM Unit := do
  let value ← checkInt rt "WriteQword" v
  ByteStreamWriter.writeQword rt.malloc (sizeT value)

def writeString (v : Option LuaValue) (mode : StringInterpretMode) : StreamM Unit := do
  let value ← checkString rt "WriteString" v
  ByteStreamWriter.writeString rt.malloc value mode

/-- A reader over the whole buffer of the writer, the room behind the cursor included. -/
def getBuffer (buffer : ByteStreamBuffer) : ByteStreamBuffer :=
  pushLuaStream buffer.buffer buffer.getBufferSize

end BufferWriter

/-- `ByteStream.New`. -/
def ByteStream.new (rt : LuaRuntime) (bufferSize : ℕ) (bigEndian autoBuffer : Bool) :
    Except Abort ByteStreamBuffer :=
  ByteStreamWriter.initializeWriter rt.malloc (UInt64.ofNat bufferSize) bigEndian autoBuffer

/-- A platform that helps nobody: a conversion out of range is undefined, and no buffer gets as
large as an `int` cannot tell. -/
def LuaRuntime.Strict (rt : LuaRuntime) : Prop :=
  (∀ n, 2 ^ 31 ≤ n → rt.toInt n = none) ∧ ∀ n, 2 ^ 31 ≤ n → rt.malloc n = none

/-- A platform on which nothing goes further than it must. -/
def strictRuntime : LuaRuntime where
  malloc n := if n < 2 ^ 31 then some fun _ => none else none
  toInt n := if -2 ^ 31 ≤ n ∧ n < 2 ^ 31 then some (Int32.ofInt n) else none
  toInt_exact _ hlo hhi := if_pos ⟨hlo, hhi⟩
  numeral _ := none
  text _ := []

theorem strictRuntime_strict : strictRuntime.Strict :=
  ⟨fun _ hn => if_neg (fun hand => absurd hand.2 (not_lt.mpr hn)), fun _ hn => if_neg (not_lt.mpr hn)⟩

theorem strictRuntime_serves (n : ℕ) (hn : n < 2 ^ 31) : (strictRuntime.malloc n).isSome := by
  rw [show strictRuntime.malloc n = some fun _ => none from if_pos hn]
  rfl

/-- A platform whose conversions out of range give one `int`. -/
def platform (out : Int32) : LuaRuntime where
  malloc _ := some fun _ => none
  toInt n := if -2 ^ 31 ≤ n ∧ n < 2 ^ 31 then some (Int32.ofInt n) else some out
  toInt_exact _ hlo hhi := if_pos ⟨hlo, hhi⟩
  numeral _ := none
  text _ := []

theorem platform_out {out : Int32} {n : ℤ} (h : ¬(-2 ^ 31 ≤ n ∧ n < 2 ^ 31)) :
    (platform out).toInt n = some out := if_neg h

end H1Z1Server
