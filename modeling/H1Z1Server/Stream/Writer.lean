import H1Z1Server.Stream.Buffer

/-! `ByteStreamWriter`: the appending and patching writes of a stream. -/
namespace H1Z1Server
open MachineInt MemoryBlock ByteOrder ByteStreamBuffer

inductive StringInterpretMode where
  | untilNullTerm
  | givenSize
  | givenSizeNullTerm
  deriving DecidableEq, Repr

/-- `AUTO_ENDIAN2`. -/
def autoEndian2 (bigEndian : Bool) (result : UInt16) : UInt16 :=
  if bigEndian then (result &&& 0xFF) <<< 8 ||| (result &&& 0xFF00) >>> 8 else result

/-- `AUTO_ENDIAN4`, with `_byteswap_ulong`. -/
def autoEndian4 (bigEndian : Bool) (result : UInt32) : UInt32 :=
  if bigEndian then UInt32.ofNat (byteSwap 4 result.toNat) else result

/-- `AUTO_ENDIAN8`, with `_byteswap_uint64`. -/
def autoEndian8 (bigEndian : Bool) (result : UInt64) : UInt64 :=
  if bigEndian then UInt64.ofNat (byteSwap 8 result.toNat) else result

private theorem swap16 {n : ℕ} (h : n < 65536) :
    (n &&& 255) <<< 8 % 65536 ||| (n &&& 65280) >>> 8 = byteSwap 2 n := by
  have hlow : n &&& 255 = n % 256 := Nat.and_two_pow_sub_one_eq_mod n 8
  have hhigh : (n &&& 65280) >>> 8 = n / 256 := by
    have hmask : 65280 >>> 8 = 2 ^ 8 - 1 := rfl
    rw [Nat.shiftRight_and_distrib, hmask, Nat.and_two_pow_sub_one_eq_mod,
      Nat.shiftRight_eq_div_pow]
    omega
  have hfit : (n % 256) <<< 8 % 65536 = (n % 256) <<< 8 := by
    rw [Nat.shiftLeft_eq]
    omega
  rw [hlow, hhigh, hfit, ← Nat.shiftLeft_add_eq_or_of_lt (by omega), Nat.shiftLeft_eq]
  simp [byteSwap, toLE, ofLE]
  omega

theorem toNat_autoEndian2 (bigEndian : Bool) (r : UInt16) :
    (autoEndian2 bigEndian r).toNat = if bigEndian then byteSwap 2 r.toNat else r.toNat := by
  cases bigEndian
  · rfl
  · have hswap := swap16 (n := r.toNat) r.toNat_lt
    simp [autoEndian2, ← hswap]

theorem toNat_autoEndian4 (bigEndian : Bool) (r : UInt32) :
    (autoEndian4 bigEndian r).toNat = if bigEndian then byteSwap 4 r.toNat else r.toNat := by
  have hlt := byteSwap_lt 4 r.toNat
  cases bigEndian
  · rfl
  · simp only [autoEndian4, if_true, UInt32.toNat_ofNat']
    omega

theorem toNat_autoEndian8 (bigEndian : Bool) (r : UInt64) :
    (autoEndian8 bigEndian r).toNat = if bigEndian then byteSwap 8 r.toNat else r.toNat := by
  have hlt := byteSwap_lt 8 r.toNat
  cases bigEndian
  · rfl
  · simp only [autoEndian8, if_true, UInt64.toNat_ofNat']
    omega

/-- A number of `w` bytes in the byte order of a stream. -/
def encodeNat (bigEndian : Bool) (w n : ℕ) : List UInt8 :=
  if bigEndian then toBE w n else toLE w n

@[simp] theorem length_encodeNat (bigEndian : Bool) (w n : ℕ) :
    (encodeNat bigEndian w n).length = w := by
  cases bigEndian <;> simp [encodeNat]

theorem toLE_autoEndian2 (bigEndian : Bool) (r : UInt16) :
    toLE 2 (autoEndian2 bigEndian r).toNat = encodeNat bigEndian 2 r.toNat := by
  rw [toNat_autoEndian2]
  cases bigEndian
  · rfl
  · exact toLE_byteSwap 2 r.toNat

theorem toLE_autoEndian4 (bigEndian : Bool) (r : UInt32) :
    toLE 4 (autoEndian4 bigEndian r).toNat = encodeNat bigEndian 4 r.toNat := by
  rw [toNat_autoEndian4]
  cases bigEndian
  · rfl
  · exact toLE_byteSwap 4 r.toNat

theorem toLE_autoEndian8 (bigEndian : Bool) (r : UInt64) :
    toLE 8 (autoEndian8 bigEndian r).toNat = encodeNat bigEndian 8 r.toNat := by
  rw [toNat_autoEndian8]
  cases bigEndian
  · rfl
  · exact toLE_byteSwap 8 r.toNat

namespace ByteStreamWriter
variable (malloc : Malloc)

/-- `Initialize`, and the sized constructor. -/
def initializeWriter (bufferSize : UInt64) (bigEndian autoBuffer : Bool) :
    Except Abort ByteStreamBuffer :=
  setupBuffer malloc bufferSize bigEndian autoBuffer

/-- The writes whose length is known beforehand. They differ in their name, their size and
the bytes that they put into a stream of a byte order. -/
def writeSized (f : String) (size : UInt64) (image : Bool → List UInt8) (startIndex : Int32) :
    StreamM Unit := do
  autoBufferF malloc size false
  let (startIndex, incrIndex) ← safetyCheck f startIndex
  let s ← get
  if sizeT startIndex + size > s.bufferSize then
    throw (.exception (f ++ " tried to write too many bytes to buffer."))
  store startIndex.toInt (image s.bigEndian)
  if incrIndex then
    setIdx (narrow (sizeT startIndex + size))

/-- The data are a block of their own, which growing and storing leave as it is: they do not lie in the buffer
that the writer may free before it copies them. -/
def writeData (data : List UInt8) (startIndex : Int32 := -1) : StreamM Unit :=
  writeSized malloc "ByteStreamWriter::WriteData" (UInt64.ofNat data.length) (fun _ => data)
    startIndex

def writeByte (data : UInt8) (startIndex : Int32 := -1) : StreamM Unit :=
  writeSized malloc "ByteStreamWriter::WriteByte" 1 (fun _ => [data]) startIndex

def writeWord (data : UInt16) (startIndex : Int32 := -1) : StreamM Unit :=
  writeSized malloc "ByteStreamWriter::WriteWord" 2
    (fun bigEndian => toLE 2 (autoEndian2 bigEndian data).toNat) startIndex

def writeDword (data : UInt32) (startIndex : Int32 := -1) : StreamM Unit :=
  writeSized malloc "ByteStreamWriter::WriteDword" 4
    (fun bigEndian => toLE 4 (autoEndian4 bigEndian data).toNat) startIndex

def writeQword (data : UInt64) (startIndex : Int32 := -1) : StreamM Unit :=
  writeSized malloc "ByteStreamWriter::WriteQword" 8
    (fun bigEndian => toLE 8 (autoEndian8 bigEndian data).toNat) startIndex

/-- The conversion loop of the wide branches. -/
def widenString (wideStringLE : Bool) (str : List UInt8) : List UInt8 :=
  str.flatMap fun c => if wideStringLE then [0, c] else [c, 0]

/-- The temporary buffer of a wide branch, after the conversion loop has advanced `data` by
two bytes a character. A null buffer has no readable byte. -/
def wideBuffer (str_size : Int32) (wide : List UInt8) : StreamM Block := do
  let data : Block := match malloc (sizeT str_size).toNat with
    | none => ⟨[], fun _ => none⟩
    | some beyond => Block.zeroed (sizeT str_size).toNat beyond
  match data.store 0 wide with
  | some data => return data
  | none => throw .undefinedBehaviour

/-- The end of a wide branch: the copy out of `data` from where the conversion loop left it,
and `free(data)`, which is undefined unless `data` still points to its block. -/
def copyWide (data : Block) (advanced : ℕ) (o : ℤ) (str_size : Int32) (idx : Option Int32) :
    StreamM Unit := do
  match data.load advanced (sizeT str_size).toNat with
  | none => throw .undefinedBehaviour
  | some bs =>
    store o bs
    match idx with
    | some idx => setIdx idx
    | none => pure ()
    if advanced ≠ 0 then throw .undefinedBehaviour

def writeString (str : List UInt8) (stringMode : StringInterpretMode := .givenSize)
    (autoResize : Bool := true) (startIndex : Int32 := -1) (wideString : Bool := false)
    (wideStringLE : Bool := false) : StreamM Unit := do
  let size := UInt64.ofNat str.length
  autoBufferF malloc ((if wideString then size * 2 else size) + 4) autoResize
  let (startIndex, incrIndex) ← safetyCheck "ByteStreamWriter::WriteString" startIndex
  let s ← get
  if sizeT startIndex + size > s.bufferSize && !autoResize then
    throw (.exception "ByteStreamWriter::WriteString tried to write too many bytes to buffer.")
  let wide := widenString wideStringLE str
  match stringMode, wideString with
  | .givenSize, true =>
    let str_size := narrow (size * 2)
    let data ← wideBuffer malloc str_size wide
    store startIndex.toInt (toLE 4 str.length)
    copyWide data wide.length (startIndex.toInt + 4) str_size
      (if incrIndex then some (narrow (sizeT (startIndex + str_size) + 4)) else none)
  | .givenSize, false =>
    -- the size is stored in the byte order of the machine, whatever `bigEndian` says
    store startIndex.toInt (toLE 4 str.length)
    store (startIndex.toInt + 4) str
    if incrIndex then
      setIdx (narrow (sizeT startIndex + size + 4))
  | .untilNullTerm, true =>
    let str_size := narrow (size * 2 + 2)
    let data ← wideBuffer malloc str_size wide
    match data.store wide.length [0, 0] with
    | none => throw .undefinedBehaviour
    | some data =>
      copyWide data wide.length startIndex.toInt str_size
        (if incrIndex then some (startIndex + str_size) else none)
  | .untilNullTerm, false =>
    let str := str ++ [0]
    store startIndex.toInt str
    if incrIndex then
      setIdx (narrow (sizeT startIndex + UInt64.ofNat str.length))
  | .givenSizeNullTerm, true =>
    let str_size := narrow (size * 2 + 2)
    let _ ← wideBuffer malloc str_size wide
    store startIndex.toInt (toLE 4 str.length)
    -- `*(WORD *)&data = 0` overwrote the pointer itself, from which the copy then reads
    throw .undefinedBehaviour
  | .givenSizeNullTerm, false =>
    let str := str ++ [0]
    store startIndex.toInt (toLE 4 (str.length - 1))
    store (startIndex.toInt + 4) str
    if incrIndex then
      setIdx (narrow (sizeT startIndex + UInt64.ofNat str.length + 4))

/-- `WriteWString`. A `wchar_t` is a `WORD`, stored in the byte order of the machine. -/
def writeWString (str : List UInt16) (stringMode : StringInterpretMode := .givenSize)
    (autoResize : Bool := true) (startIndex : Int32 := -1) : StreamM Unit := do
  let size := UInt64.ofNat str.length
  autoBufferF malloc (size * 2 + 4) autoResize
  let (startIndex, incrIndex) ← safetyCheck "ByteStreamWriter::WriteWString" startIndex
  let s ← get
  if sizeT startIndex + size + 4 > s.bufferSize && !autoResize then
    throw (.exception "ByteStreamWriter::WriteWString tried to write too many bytes to buffer.")
  let chars (str : List UInt16) := str.flatMap fun c => toLE 2 c.toNat
  match stringMode with
  | .givenSize =>
    store startIndex.toInt (toLE 4 str.length)
    store (startIndex.toInt + 4) (chars str)
    if incrIndex then
      setIdx (narrow (sizeT startIndex + UInt64.ofNat str.length * 2 + 4))
  | .untilNullTerm =>
    let str := str ++ [0]
    store startIndex.toInt (chars str)
    if incrIndex then
      setIdx (narrow (sizeT startIndex + UInt64.ofNat str.length * 2))
  | .givenSizeNullTerm =>
    let str := str ++ [0]
    store startIndex.toInt (toLE 4 (str.length - 1))
    store (startIndex.toInt + 4) (chars str)
    if incrIndex then
      setIdx (narrow (sizeT startIndex + UInt64.ofNat str.length * 2 + 4))

end ByteStreamWriter
end H1Z1Server
