import H1Z1Server.Stream.Writer

/-! `ByteStreamReader`: cursor-driven and indexed reads of a stream. -/
namespace H1Z1Server
open MachineInt MemoryBlock ByteOrder ByteStreamBuffer

/-- The number that bytes of a byte order stand for. -/
def decodeNat (bigEndian : Bool) (bs : List UInt8) : ℕ :=
  if bigEndian then ofBE bs else ofLE bs

namespace ByteStreamReader

/-- The constructor, which leaves `autoBuffer` at its default. -/
def newReader (buffer : Option Block) (bufferSize : UInt64) (bigEndian : Bool) :
    ByteStreamBuffer :=
  setupBufferOver buffer bufferSize bigEndian true

def initializeReader (buffer : Option Block) (bufferSize : UInt64) (bigEndian : Bool) :
    ByteStreamBuffer :=
  setupBufferOver buffer bufferSize bigEndian false

def tooMany (f : String) : Abort :=
  .exception (f ++ " tried to read too many bytes from the buffer.")

/-- `ReadData`. The pointer it returns is given as its offset in the buffer. -/
def readData (dataSize : UInt64) (startIndex : Int32 := -1) : StreamM Int32 := do
  let (startIndex, incrIndex) ← safetyCheck "ByteStreamReader::ReadData" startIndex
  let s ← get
  if sizeT startIndex + dataSize > s.bufferSize then
    throw (tooMany "ByteStreamReader::ReadData")
  if incrIndex then
    setIdx (narrow (sizeT startIndex + dataSize))
  return startIndex

/-- The reads of a number. They differ in their name, their size and how they swap bytes. -/
def readSized {α : Type} (f : String) (size : UInt64) (value : Bool → List UInt8 → α)
    (startIndex : Int32) : StreamM α := do
  let (startIndex, incrIndex) ← safetyCheck f startIndex
  let s ← get
  if sizeT startIndex + size > s.bufferSize then
    throw (tooMany f)
  let bs ← load startIndex.toInt size.toNat
  if incrIndex then
    setIdx (narrow (sizeT startIndex + size))
  return value s.bigEndian bs

def readByte (startIndex : Int32 := -1) : StreamM UInt8 :=
  readSized "ByteStreamReader::ReadByte" 1 (fun _ bs => UInt8.ofNat (ofLE bs)) startIndex

def readWord (startIndex : Int32 := -1) : StreamM UInt16 :=
  readSized "ByteStreamReader::ReadWord" 2
    (fun bigEndian bs => autoEndian2 bigEndian (UInt16.ofNat (ofLE bs))) startIndex

def readDword (startIndex : Int32 := -1) : StreamM UInt32 :=
  readSized "ByteStreamReader::ReadDword" 4
    (fun bigEndian bs => autoEndian4 bigEndian (UInt32.ofNat (ofLE bs))) startIndex

def readQword (startIndex : Int32 := -1) : StreamM UInt64 :=
  readSized "ByteStreamReader::ReadQword" 8
    (fun bigEndian bs => autoEndian8 bigEndian (UInt64.ofNat (ofLE bs))) startIndex

/-- The scan `while (*pBuffer && pBuffer <= buffer + bufferSize)` from offset `p`, which
examines a byte before it looks whether it may. `last` is the offset of
`buffer + bufferSize`, and `rounds` bounds the number of rounds. -/
def scan (m : Block) (last : ℤ) (stride : ℕ) : ℕ → ℤ → Option ℕ
  | 0, _ => some 0
  | rounds + 1, p =>
    match m.peek p with
    | none => none
    | some b =>
      if b ≠ 0 ∧ p ≤ last then (scan m last stride rounds (p + stride)).map (· + 1)
      else some 0

/-- The offset of `buffer + bufferSize`: pointers are 64 bits wide, so adding a size from
2^63 on moves the pointer down. -/
def endOffset (bufferSize : UInt64) : ℤ := (bufferSize.toNat : ℤ).bmod (2 ^ 64)

/-- The number of characters before the terminator, as the scan counts them in a `DWORD`. -/
def scanLength (s : ByteStreamBuffer) (startIndex : Int32) (wideString wideStringLE : Bool) :
    Option UInt32 := do
  let m ← s.buffer
  let start := startIndex.toInt + (if wideStringLE then 1 else 0)
  -- the loop ends past `last`, and examines its first byte in any case
  let rounds := (endOffset s.bufferSize - start + 1).toNat + 1
  let n ← scan m (endOffset s.bufferSize) (if wideString then 2 else 1) rounds start
  return UInt32.ofNat n

/-- The length check of the modes with a size prefix: the start of the string and its size.
`startIndex + str_size` is computed in `DWORD`. -/
def readPrefix (f : String) (startIndex : Int32) : StreamM (Int32 × UInt32) := do
  let s ← get
  if sizeT startIndex + 4 > s.bufferSize then
    throw (tooMany f)
  let str_size ← readDword startIndex
  if startIndex.toInt + 4 ≥ 2 ^ 31 then
    throw .undefinedBehaviour -- `startIndex += 4` overflows
  let startIndex := startIndex + 4
  if widen (dword startIndex + str_size) > s.bufferSize then
    throw (tooMany f)
  return (startIndex, str_size)

def readString (stringMode : StringInterpretMode := .givenSize) (startIndex : Int32 := -1)
    (wideString : Bool := false) (wideStringLE : Bool := false) : StreamM (List UInt8) := do
  let f := "ByteStreamReader::ReadString"
  let (startIndex, incrIndex) ← safetyCheck f startIndex
  let mut start := startIndex
  let mut str_size : UInt32 := 0
  match stringMode with
  | .givenSize | .givenSizeNullTerm =>
    (start, str_size) ← readPrefix f startIndex
  | .untilNullTerm =>
    match scanLength (← get) startIndex wideString wideStringLE with
    | none => throw .undefinedBehaviour
    | some n =>
      str_size := n
      if n == 1 then
        modify fun s => { s with idx := s.idx + 1 }
        return []
  let term (n : UInt32) : UInt32 := if stringMode == .givenSizeNullTerm then n else 0
  if wideString then
    -- every character is written to the temporary buffer, and `data` advanced past it
    let half := (str_size / 2).toNat
    let _ ← load (start.toInt + (if wideStringLE then 1 else 0)) half
    -- the string is then read, and `free` called, behind the converted characters
    if half ≠ 0 then throw .undefinedBehaviour
    if incrIndex then
      setIdx (narrowDword (dword start + str_size + term 2))
    return []
  else
    let result ← load start.toInt str_size.toNat
    if incrIndex then
      setIdx (narrowDword (dword start + str_size + term 1))
    return result

/-- `ReadWString`. A `wchar_t` is a `WORD` in the byte order of the machine. -/
def readWString (stringMode : StringInterpretMode := .givenSize) (startIndex : Int32 := -1)
    (wideStringLE : Bool := false) : StreamM (List UInt16) := do
  let f := "ByteStreamReader::ReadWString"
  let (startIndex, incrIndex) ← safetyCheck f startIndex
  let mut start := startIndex
  let mut str_size : UInt32 := 0
  match stringMode with
  | .givenSize | .givenSizeNullTerm =>
    (start, str_size) ← readPrefix f startIndex
  | .untilNullTerm =>
    match scanLength (← get) startIndex true wideStringLE with
    | none => throw .undefinedBehaviour
    | some n =>
      str_size := n
      if n == 1 then
        modify fun s => { s with idx := s.idx + 1 }
        return []
  let bs ← load start.toInt (2 * (str_size / 2).toNat)
  if incrIndex then
    setIdx (narrowDword (dword start + str_size +
      (if stringMode == .givenSizeNullTerm then 1 else 0)))
  return (bs.toChunks 2).map fun c => UInt16.ofNat (ofLE c)

end ByteStreamReader
end H1Z1Server
