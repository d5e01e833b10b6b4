import H1Z1Server.Library.ByteOrder
import H1Z1Server.Library.MemoryBlock
import H1Z1Server.Library.MachineInt

/-! The byte stream buffer: its fields, its allocation and the checks that every read and
write of the streams begins with. -/
namespace H1Z1Server
open MachineInt MemoryBlock

/-- The ways a call of the C++ code ends other than by returning. -/
inductive Abort where
  | exception (what : String)
  | luaError (message : String)
  | undefinedBehaviour
  deriving DecidableEq, Repr

/-- The outcome of `malloc(n)`: failure, or what surrounds the block of `n` bytes. -/
abbrev Malloc := ℕ → Option (ℤ → Option UInt8)

structure ByteStreamBuffer where
  buffer : Option Block
  bufferSize : UInt64
  idx : Int32
  autoBuffer : Bool
  bigEndian : Bool
  allocatedInst : Bool

/-- A method of a stream. What it did to the stream before an abort stays done. -/
abbrev StreamM := EStateM Abort ByteStreamBuffer

namespace ByteStreamBuffer

/-- `SetupBuffer(bufferSize, ...)`, which the allocating constructors repeat: the buffer is
null when its size is zero, and cleared otherwise. -/
def setupBuffer (malloc : Malloc) (bufferSize : UInt64) (bigEndian autoBuffer : Bool) :
    Except Abort ByteStreamBuffer :=
  if bufferSize > 0 then
    match malloc bufferSize.toNat with
    | none => .error .undefinedBehaviour -- `memset` on a null pointer
    | some beyond => .ok
        { buffer := some (Block.zeroed bufferSize.toNat beyond), bufferSize, idx := 0,
          autoBuffer, bigEndian, allocatedInst := true }
  else .ok
    { buffer := none, bufferSize, idx := 0, autoBuffer, bigEndian, allocatedInst := true }

/-- `SetupBuffer(buffer, bufferSize, ...)`: a stream over memory that belongs to somebody else. -/
def setupBufferOver (buffer : Option Block) (bufferSize : UInt64) (bigEndian autoBuffer : Bool) :
    ByteStreamBuffer :=
  { buffer, bufferSize, idx := 0, autoBuffer, bigEndian, allocatedInst := false }

def setIdx (idx : Int32) : StreamM Unit := modify fun s => { s with idx }

def getIdx (s : ByteStreamBuffer) : Int32 := s.idx

def getBufferSize (s : ByteStreamBuffer) : Int32 := narrow s.bufferSize

/-- A write through `buffer` at an offset. -/
def store (o : ℤ) (bs : List UInt8) : StreamM Unit := do
  match (← get).buffer.bind (·.store o bs) with
  | some m => modify fun s => { s with buffer := some m }
  | none => throw .undefinedBehaviour

/-- A read through `buffer` at an offset. -/
def load (o : ℤ) (n : ℕ) : StreamM (List UInt8) := do
  match (← get).buffer.bind (·.load o n) with
  | some bs => return bs
  | none => throw .undefinedBehaviour

/-- The source of the copy in `Resize`: the old buffer, of which `bufferSize` bytes are read. -/
def contents (s : ByteStreamBuffer) : Option (List UInt8) :=
  if s.bufferSize = 0 then some [] else s.buffer.bind (·.load 0 s.bufferSize.toNat)

/-- `Resize(bufferSize, persist)`. Without `persist` a failed allocation clears the parameter
that shadows `this->bufferSize`, so the size of the stream stays what it was. -/
def resize (malloc : Malloc) (bufferSize : UInt64) (persist : Bool) : StreamM Unit := do
  if !persist then
    match malloc bufferSize.toNat with
    | none => modify fun s => { s with buffer := none }
    | some beyond => modify fun s =>
        { s with buffer := some (Block.zeroed bufferSize.toNat beyond), bufferSize }
  else
    let old ← contents <$> get
    match malloc bufferSize.toNat, old with
    | some beyond, some bs =>
      match (Block.zeroed bufferSize.toNat beyond).store 0 bs with
      | some m => modify fun s => { s with buffer := some m, bufferSize }
      | none => throw .undefinedBehaviour -- more bytes copied than allocated
    | none, some [] =>
      -- nothing is copied, and nothing cleared when nothing was asked for
      if bufferSize = 0 then modify fun s => { s with buffer := none, bufferSize }
      else throw .undefinedBehaviour
    | _, _ => throw .undefinedBehaviour

/-- `AUTO_BUFFERF(size, forcecond)`. The free room is computed in `size_t`. -/
def autoBufferF (malloc : Malloc) (size : UInt64) (forcecond : Bool) : StreamM Unit := do
  let s ← get
  if (s.autoBuffer || forcecond) && size > s.bufferSize - sizeT s.idx then
    resize malloc (s.bufferSize + size) true

/-- `SAFETY_CHECK(f)`: the index at which the call works, and whether it advances `idx`. -/
def safetyCheck (f : String) (startIndex : Int32) : StreamM (Int32 × Bool) := do
  let s ← get
  if s.buffer.isNone || s.bufferSize == 0 then
    throw (.exception (f ++ " got null buffer or null size."))
  if startIndex == -1 then
    if s.idx == -1 then
      throw (.exception (f ++ " tried to access buffer with invalid index."))
    return (s.idx, true)
  return (startIndex, false)

end ByteStreamBuffer
end H1Z1Server
