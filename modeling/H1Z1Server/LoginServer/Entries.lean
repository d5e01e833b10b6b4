import H1Z1Server.LoginServer.Packets
import H1Z1Server.Stream.RoundTrip
import H1Z1Server.Stream.Terminated

/-! What a packet says: the values of its elements, the bytes they take on the wire, and the size
of the buffer that they are written into. -/
namespace H1Z1Server
open MachineInt MemoryBlock ByteOrder ByteStreamBuffer

def NumberType.width : NumberType → ℕ
  | dword => 4
  | qword => 8
  | word => 2
  | byte => 1

/-- An element with its value: a number that its type and a `double` hold, or a string without a
zero byte. -/
inductive Entry where
  | number (t : NumberType) (n : ℕ) (fits : n < 256 ^ t.width) (exact : n ≤ 2 ^ 53)
  | text (s : List UInt8) (terminated : 0 ∉ s) (short : s.length < 2 ^ 63)

namespace Entry

def type : Entry → Types
  | number t _ _ _ => .number t
  | text _ _ _ => .string

def value : Entry → LuaValue
  | number _ n _ _ => .number n
  | text s _ _ => .string s

/-- The bytes of an element. -/
def bytes : Entry → List UInt8
  | number t n _ _ => encodeNat true t.width n
  | text s _ _ => s ++ [0]

/-- The room that the writer makes sure of before it writes an element. -/
def need : Entry → ℕ
  | number t _ _ _ => t.width
  | text s _ _ => s.length + 4

/-- An `int` has the number. -/
def InRange : Entry → Prop
  | number _ n _ _ => n < 2 ^ 31
  | text _ _ _ => True

/-- An element whose bytes are all zero. -/
def Silent : Entry → Prop
  | number _ n _ _ => n = 0
  | text s _ _ => s = []

instance : DecidablePred InRange
  | number _ n _ _ => inferInstanceAs (Decidable (n < 2 ^ 31))
  | text _ _ _ => isTrue trivial

instance : DecidablePred Silent
  | number _ n _ _ => inferInstanceAs (Decidable (n = 0))
  | text s _ _ => inferInstanceAs (Decidable (s = []))

theorem length_bytes_le_need (e : Entry) : e.bytes.length ≤ e.need := by
  cases e with
  | number t n fits exact => exact (length_encodeNat _ _ _).le
  | text s terminated short =>
    rw [bytes, need, List.length_append, List.length_singleton]
    exact Nat.add_le_add_left (by norm_num) _

theorem length_bytes_pos (e : Entry) : 0 < e.bytes.length := by
  cases e with
  | number t n fits exact =>
    rw [bytes, length_encodeNat]
    cases t <;> decide
  | text s terminated short =>
    rw [bytes, List.length_append]
    exact Nat.succ_pos _

/-- The zero bytes behind the cursor after an element was written with `k` of them there. -/
def roomLeft (k : ℕ) (e : Entry) : ℕ := (if k < e.need then k + e.need else k) - e.bytes.length

end Entry

def entriesBytes (entries : List Entry) : List UInt8 := entries.flatMap Entry.bytes

def roomLeftAll : ℕ → List Entry → ℕ
  | k, [] => k
  | k, e :: entries => roomLeftAll (e.roomLeft k) entries

/-- The size of the buffer of a packet with these elements behind its opcode. -/
def packetSize (entries : List Entry) : ℕ := 2 + (entriesBytes entries).length + roomLeftAll 0 entries

theorem entriesBytes_cons (e : Entry) (entries : List Entry) :
    entriesBytes (e :: entries) = e.bytes ++ entriesBytes entries := rfl

theorem Entry.length_add_roomLeft (k : ℕ) (e : Entry) :
    e.bytes.length + e.roomLeft k = if k < e.need then k + e.need else k := by
  have hle := e.length_bytes_le_need
  unfold Entry.roomLeft
  split <;> omega

/-- The buffer of a packet never shrinks. -/
theorem le_roomLeftAll (k : ℕ) (entries : List Entry) :
    k ≤ (entriesBytes entries).length + roomLeftAll k entries := by
  induction entries generalizing k with
  | nil => exact Nat.le_add_left _ _
  | cons e entries ih =>
    have hstep := e.length_add_roomLeft k
    have hrest := ih (e.roomLeft k)
    rw [entriesBytes_cons, List.length_append, roomLeftAll]
    split at hstep <;> omega

/-- Elements that take all the room they need leave none. -/
theorem roomLeftAll_of_tight {entries : List Entry} (h : ∀ e ∈ entries, e.need = e.bytes.length) :
    roomLeftAll 0 entries = 0 := by
  induction entries with
  | nil => rfl
  | cons e entries ih =>
    rw [List.forall_mem_cons] at h
    have hpos := e.length_bytes_pos
    have hnone : e.roomLeft 0 = 0 := by
      unfold Entry.roomLeft
      split <;> omega
    rw [roomLeftAll, hnone, ih h.2]

/-- The element has this type in the structure, and this value in the table or by default. -/
def Field.Carries (data : LuaTable) (f : Field) (e : Entry) : Prop :=
  f.type = e.type ∧ f.value data = some e.value

end H1Z1Server
