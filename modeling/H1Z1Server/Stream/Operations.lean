import H1Z1Server.Stream.StringCopies
import H1Z1Server.Stream.Reader

/-! Sequences of writes and reads at the cursor, and the layout of what they write. -/
namespace H1Z1Server
open MachineInt MemoryBlock ByteOrder ByteStreamBuffer ByteStreamWriter ByteStreamReader

/-- A value that a stream can hold, by the call that writes it. -/
inductive Item where
  | byte (data : UInt8)
  | word (data : UInt16)
  | dword (data : UInt32)
  | qword (data : UInt64)
  | data (bs : List UInt8)
  | string (str : List UInt8)
  deriving DecidableEq, Repr

/-- The reads whose width is known beforehand. -/
inductive FixedRead where
  | byte
  | word
  | dword
  | qword
  | data (dataSize : ℕ)
  deriving DecidableEq, Repr

inductive ReadOp where
  | fixed (r : FixedRead)
  | string
  deriving DecidableEq, Repr

namespace FixedRead

def width : FixedRead → ℕ
  | byte => 1
  | word => 2
  | dword => 4
  | qword => 8
  | data dataSize => dataSize

/-- The read itself. The bytes that `ReadData` points to are those of the value. -/
def read : FixedRead → StreamM Item
  | byte => Item.byte <$> readByte
  | word => Item.word <$> readWord
  | dword => Item.dword <$> readDword
  | qword => Item.qword <$> readQword
  | data dataSize => do
    let offset ← readData (UInt64.ofNat dataSize)
    Item.data <$> load offset.toInt dataSize

/-- The value that the bytes of a read stand for. -/
def decode (bigEndian : Bool) : FixedRead → List UInt8 → Item
  | byte, bs => .byte (UInt8.ofNat (decodeNat bigEndian bs))
  | word, bs => .word (UInt16.ofNat (decodeNat bigEndian bs))
  | dword, bs => .dword (UInt32.ofNat (decodeNat bigEndian bs))
  | qword, bs => .qword (UInt64.ofNat (decodeNat bigEndian bs))
  | data _, bs => .data bs

end FixedRead

namespace Item

def write (malloc : Malloc) : Item → StreamM Unit
  | byte b => writeByte malloc b
  | word w => writeWord malloc w
  | dword d => writeDword malloc d
  | qword q => writeQword malloc q
  | data bs => writeData malloc bs
  | string str => writeString malloc str

/-- The bytes that a write puts at the cursor. -/
def encode (bigEndian : Bool) : Item → List UInt8
  | byte b => [b]
  | word w => encodeNat bigEndian 2 w.toNat
  | dword d => encodeNat bigEndian 4 d.toNat
  | qword q => encodeNat bigEndian 8 q.toNat
  | data bs => bs
  | string str => toLE 4 str.length ++ str

/-- The read that matches a write. -/
def readOp : Item → ReadOp
  | byte _ => .fixed .byte
  | word _ => .fixed .word
  | dword _ => .fixed .dword
  | qword _ => .fixed .qword
  | data bs => .fixed (.data bs.length)
  | string _ => .string

end Item

def ReadOp.read : ReadOp → StreamM Item
  | fixed r => r.read
  | string => Item.string <$> readString

def writeAll (malloc : Malloc) : List Item → StreamM Unit
  | [] => pure ()
  | it :: items => do
    it.write malloc
    writeAll malloc items

/-- The reads one after the other, up to the first that throws. -/
def readAll : List ReadOp → StreamM (List Item)
  | [] => pure []
  | op :: ops => do
    let it ← op.read
    let items ← readAll ops
    return it :: items

def encodeAll (bigEndian : Bool) (items : List Item) : List UInt8 :=
  items.flatMap (Item.encode bigEndian)

def totalWidth (reads : List FixedRead) : ℕ := (reads.map FixedRead.width).sum

theorem encodeAll_cons (bigEndian : Bool) (it : Item) (items : List Item) :
    encodeAll bigEndian (it :: items) = it.encode bigEndian ++ encodeAll bigEndian items := rfl

theorem totalWidth_cons (r : FixedRead) (reads : List FixedRead) :
    totalWidth (r :: reads) = r.width + totalWidth reads := by
  simp [totalWidth]

theorem encodeNat_decodeNat (bigEndian : Bool) {w : ℕ} {bs : List UInt8} (h : bs.length = w) :
    encodeNat bigEndian w (decodeNat bigEndian bs) = bs := by
  cases bigEndian
  · exact toLE_ofLE_of_length h
  · exact toBE_ofBE_of_length h

theorem decodeNat_encodeNat (bigEndian : Bool) {w n : ℕ} (h : n < 256 ^ w) :
    decodeNat bigEndian (encodeNat bigEndian w n) = n := by
  cases bigEndian
  · exact ofLE_toLE_of_lt h
  · exact ofBE_toBE_of_lt h

theorem decodeNat_lt (bigEndian : Bool) (bs : List UInt8) :
    decodeNat bigEndian bs < 256 ^ bs.length := by
  cases bigEndian
  · exact ofLE_lt bs
  · exact ofBE_lt bs

theorem autoEndian2_ofLE (bigEndian : Bool) {bs : List UInt8} (h : bs.length = 2) :
    autoEndian2 bigEndian (UInt16.ofNat (ofLE bs)) = UInt16.ofNat (decodeNat bigEndian bs) := by
  have hlt : ofLE bs < 2 ^ 16 := by simpa [h] using ofLE_lt bs
  apply UInt16.toNat_inj.mp
  rw [toNat_autoEndian2, UInt16.toNat_ofNat', UInt16.toNat_ofNat', Nat.mod_eq_of_lt hlt,
    byteSwap_ofLE h, Nat.mod_eq_of_lt (by simpa [h] using decodeNat_lt bigEndian bs)]
  rfl

theorem autoEndian4_ofLE (bigEndian : Bool) {bs : List UInt8} (h : bs.length = 4) :
    autoEndian4 bigEndian (UInt32.ofNat (ofLE bs)) = UInt32.ofNat (decodeNat bigEndian bs) := by
  have hlt : ofLE bs < 2 ^ 32 := by simpa [h] using ofLE_lt bs
  apply UInt32.toNat_inj.mp
  rw [toNat_autoEndian4, UInt32.toNat_ofNat', UInt32.toNat_ofNat', Nat.mod_eq_of_lt hlt,
    byteSwap_ofLE h, Nat.mod_eq_of_lt (by simpa [h] using decodeNat_lt bigEndian bs)]
  rfl

theorem autoEndian8_ofLE (bigEndian : Bool) {bs : List UInt8} (h : bs.length = 8) :
    autoEndian8 bigEndian (UInt64.ofNat (ofLE bs)) = UInt64.ofNat (decodeNat bigEndian bs) := by
  have hlt : ofLE bs < 2 ^ 64 := by simpa [h] using ofLE_lt bs
  apply UInt64.toNat_inj.mp
  rw [toNat_autoEndian8, UInt64.toNat_ofNat', UInt64.toNat_ofNat', Nat.mod_eq_of_lt hlt,
    byteSwap_ofLE h, Nat.mod_eq_of_lt (by simpa [h] using decodeNat_lt bigEndian bs)]
  rfl

/-- Writing a value that was read reproduces the bytes it was read from. -/
theorem encode_decode (bigEndian : Bool) {r : FixedRead} {bs : List UInt8}
    (h : bs.length = r.width) : (r.decode bigEndian bs).encode bigEndian = bs := by
  have hlt := decodeNat_lt bigEndian bs
  rw [h] at hlt
  cases r with
  | byte =>
    obtain ⟨b, rfl⟩ := List.length_eq_one_iff.mp h
    have hb : decodeNat bigEndian [b] = b.toNat := by
      cases bigEndian <;> simp [decodeNat, ofBE, ofLE]
    simp [FixedRead.decode, Item.encode, hb]
  | word =>
    rw [FixedRead.decode, Item.encode, UInt16.toNat_ofNat',
      Nat.mod_eq_of_lt (show _ < 2 ^ 16 from hlt)]
    exact encodeNat_decodeNat bigEndian h
  | dword =>
    rw [FixedRead.decode, Item.encode, UInt32.toNat_ofNat',
      Nat.mod_eq_of_lt (show _ < 2 ^ 32 from hlt)]
    exact encodeNat_decodeNat bigEndian h
  | qword =>
    rw [FixedRead.decode, Item.encode, UInt64.toNat_ofNat',
      Nat.mod_eq_of_lt (show _ < 2 ^ 64 from hlt)]
    exact encodeNat_decodeNat bigEndian h
  | data n => rfl

/-- Reading back what a write of known width has put there gives the value written. -/
theorem decode_encode (bigEndian : Bool) {r : FixedRead} {it : Item}
    (h : it.readOp = .fixed r) :
    (it.encode bigEndian).length = r.width ∧
      r.decode bigEndian (it.encode bigEndian) = it := by
  cases it with
  | byte b =>
    obtain rfl := ReadOp.fixed.inj h
    have hb : decodeNat bigEndian [b] = b.toNat := by
      cases bigEndian <;> simp [decodeNat, ofBE, ofLE]
    simp [FixedRead.decode, FixedRead.width, Item.encode, hb]
  | word w =>
    obtain rfl := ReadOp.fixed.inj h
    refine ⟨length_encodeNat _ _ _, ?_⟩
    rw [Item.encode, FixedRead.decode, decodeNat_encodeNat bigEndian w.toNat_lt, UInt16.ofNat_toNat]
  | dword d =>
    obtain rfl := ReadOp.fixed.inj h
    refine ⟨length_encodeNat _ _ _, ?_⟩
    rw [Item.encode, FixedRead.decode, decodeNat_encodeNat bigEndian d.toNat_lt, UInt32.ofNat_toNat]
  | qword q =>
    obtain rfl := ReadOp.fixed.inj h
    refine ⟨length_encodeNat _ _ _, ?_⟩
    rw [Item.encode, FixedRead.decode, decodeNat_encodeNat bigEndian q.toNat_lt, UInt64.ofNat_toNat]
  | data bs =>
    obtain rfl := ReadOp.fixed.inj h
    exact ⟨rfl, rfl⟩
  | string str => cases h

end H1Z1Server
