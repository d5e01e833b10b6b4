import H1Z1Server.Stream.Buffer
import H1Z1Server.Library.RC4

/-! `CRC4`: the cipher object, with the memory that its key schedule runs over. -/
namespace H1Z1Server
open ByteOrder

/-- Bytes of memory, by their distance from some place. -/
abbrev Memory := ℕ → UInt8

/-- The fields of a `CRC4` object. `key` stores the size of the key first. -/
structure CRC4 where
  key : List UInt8
  sbox : UInt8 → UInt8
  sbox_free : UInt8

namespace CRC4

/-- The memory from `sbox` on: the table, `sbox_free`, and what lies behind the object. -/
def fromSbox (o : CRC4) (behind : Memory) : Memory := fun a =>
  if a < 256 then o.sbox (UInt8.ofNat a) else if a = 256 then o.sbox_free else behind (a - 257)

/-- The loop that fills the table. -/
def fill (m : Memory) : Memory := fun a => if a < 256 then UInt8.ofNat a else m a

/-- A round of the schedule: `std::swap(sbox[i], sbox[j])`, wherever `sbox[i]` lies. -/
def scheduleStep (key : List UInt8) (s : Memory × ℕ) (i : ℕ) : Memory × ℕ :=
  let j := (s.2 + (key.getD (i % key.length) 0).toNat + (s.1 i).toNat) % 256
  (s.1 ∘ Equiv.swap i j, j)

/-- The schedule, which counts to `sizeof(this->key)`. -/
def schedule (key : List UInt8) (m : Memory) : Memory × ℕ :=
  (List.range 260).foldl (scheduleStep key) (m, 0)

/-- `Initialize(key, keySize)`, on the memory of an object and what lies behind it. -/
def initializeKey (o : CRC4) (behind : Memory) (key : List UInt8) (keySize : ℕ) :
    Except Abort (CRC4 × Memory) :=
  if keySize > 256 then .error (.exception "")
  else if keySize = 0 then .error .undefinedBehaviour -- `i % keySize`
  else
    let key := key.take keySize
    let m := (schedule key (fill (o.fromSbox behind))).1
    .ok ({ key := toLE 4 keySize ++ key ++ o.key.drop (4 + keySize)
           sbox := fun b => m b.toNat
           sbox_free := 1 }, fun a => m (a + 257))

/-- The constructor with a key, on memory with any contents. -/
def construct (raw : CRC4) (behind : Memory) (key : List UInt8) : Except Abort (CRC4 × Memory) :=
  initializeKey raw behind key key.length

/-- The constructor without a key. -/
def constructEmpty (raw : CRC4) : CRC4 := { raw with sbox_free := 0 }

/-- The loop of `Encrypt` over the bytes that are left. -/
def encryptLoop (sbox : UInt8 → UInt8) (i j : ℕ) : List UInt8 → (UInt8 → UInt8) × List UInt8
  | [] => (sbox, [])
  | b :: data =>
    let i := (i + 1) % 256
    let j := (j + (sbox (.ofNat i)).toNat) % 256
    let sbox := sbox ∘ Equiv.swap (.ofNat i) (.ofNat j)
    let rnd := sbox (.ofNat (((sbox (.ofNat i)).toNat + (sbox (.ofNat j)).toNat) % 256))
    let (sbox, rest) := encryptLoop sbox i j data
    (sbox, (rnd ^^^ b) :: rest)

/-- `Encrypt(data, dataSize)`: the object, what lies behind it, and the data afterwards. -/
def encrypt (o : CRC4) (behind : Memory) (data : List UInt8) :
    Except Abort (CRC4 × Memory × List UInt8) := do
  let (o, behind) ←
    if o.sbox_free = 0 then
      initializeKey o behind (o.key.drop 4) (ofLE (o.key.take 4))
    else pure (o, behind)
  let (sbox, data) := encryptLoop o.sbox 0 0 data
  return ({ o with sbox, sbox_free := 0 }, behind, data)

def decrypt (o : CRC4) (behind : Memory) (data : List UInt8) :
    Except Abort (CRC4 × Memory × List UInt8) :=
  o.encrypt behind data

/-- `CopyEncrypt`, which leaves the caller's data alone and returns the encrypted copy. -/
def copyEncrypt (o : CRC4) (behind : Memory) (data : List UInt8) :
    Except Abort (CRC4 × Memory × List UInt8) :=
  o.encrypt behind data

def copyDecrypt (o : CRC4) (behind : Memory) (data : List UInt8) :
    Except Abort (CRC4 × Memory × List UInt8) :=
  o.copyEncrypt behind data

end CRC4
end H1Z1Server
