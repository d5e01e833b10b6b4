import H1Z1Server.Stream.Buffer

/-! `NetSocket`: the handlers of a socket, and the step that gives them a datagram. -/
namespace H1Z1Server
open MachineInt MemoryBlock

/-- A received datagram as the handlers see it: the buffer of the socket, and how many of its
bytes were received. -/
structure Packet where
  data : Block
  data_size : Int32

/-- What `recvfrom` of Winsock returns for a datagram, given a buffer of `len` bytes: its length, if it
fits. -/
class Winsock where
  recvfrom (len : Int32) (datagram : List UInt8) : Int32
  recvfrom_fits : ∀ len datagram, (datagram.length : ℤ) ≤ len.toInt →
    recvfrom len datagram = Int32.ofInt datagram.length

/-- A datagram that does not fit is an error. -/
instance : Winsock where
  recvfrom len datagram := if (datagram.length : ℤ) ≤ len.toInt then Int32.ofInt datagram.length else -1
  recvfrom_fits _ _ h := if_pos h

/-- A socket, over its handler functions and their userdata. A handler that the map does not
know has null userdata, as `operator[]` of the map has it. -/
structure NetSocket (H U : Type) where
  bufferSize : ℕ
  socketHandlers : List H
  socketUserdata : H → Option U

namespace NetSocket
variable {H U : Type} [DecidableEq H]

def new (bufferSize : ℕ) : NetSocket H U := ⟨bufferSize, [], fun _ => none⟩

/-- `AddHandler`, with the index that it returns. -/
def addHandler (net : NetSocket H U) (handler : H) (userdata : U) : Int32 × NetSocket H U :=
  let socketHandlers := net.socketHandlers ++ [handler]
  (narrow (UInt64.ofNat socketHandlers.length - 1),
    { net with
      socketHandlers
      socketUserdata := Function.update net.socketUserdata handler (some userdata) })

/-- `RemoveHandler(int)`, which indexes the vector without a check. -/
def removeHandler (net : NetSocket H U) (i : Int32) : Except Abort (NetSocket H U) :=
  if 0 ≤ i.toInt then
    match net.socketHandlers[i.toInt.toNat]? with
    | none => .error .undefinedBehaviour
    | some handler => .ok { net with
        socketHandlers := net.socketHandlers.eraseIdx i.toInt.toNat
        socketUserdata := Function.update net.socketUserdata handler none }
  else .error .undefinedBehaviour

/-- `RemoveHandler(NetSocketHandler)`: the loop stops at the first occurrence. -/
def removeHandlerOf (net : NetSocket H U) (handler : H) : NetSocket H U :=
  match net.socketHandlers.idxOf? handler with
  | none => net
  | some i => { net with
      socketHandlers := net.socketHandlers.eraseIdx i
      socketUserdata := Function.update net.socketUserdata handler none }

def removeHandlers (net : NetSocket H U) : NetSocket H U :=
  { net with socketHandlers := [], socketUserdata := fun _ => none }

/-- The call of `recvfrom`, to which the size of the buffer is an `int`. -/
def recvfrom [Winsock] (net : NetSocket H U) (datagram : List UInt8) : Int32 :=
  Winsock.recvfrom (narrow (UInt64.ofNat net.bufferSize)) datagram

/-- The buffer of the listener: cleared, and then written by `recvfrom`. -/
def receiveBuffer (net : NetSocket H U) (beyond : ℤ → Option UInt8) (datagram : List UInt8) : Block :=
  ⟨datagram.take net.bufferSize ++ List.replicate (net.bufferSize - datagram.length) 0, beyond⟩

/-- `Listener`, with a buffer allocated amid `beyond`. The handlers run in their own monad. -/
def listener {m : Type → Type} [Monad m] [Winsock] (net : NetSocket H U)
    (call : H → Packet → Option U → m Unit) (beyond : ℤ → Option UInt8) (datagram : List UInt8) : m Unit :=
  let receivedBytes := net.recvfrom datagram
  if receivedBytes > 0 then
    net.socketHandlers.forM fun handler =>
      call handler ⟨net.receiveBuffer beyond datagram, receivedBytes⟩ (net.socketUserdata handler)
  else pure ()

omit [DecidableEq H] in
/-- A datagram that fits is received as a whole. -/
theorem recvfrom_eq [Winsock] {net : NetSocket H U} (hbuffer : net.bufferSize < 2 ^ 31) {datagram : List UInt8}
    (hfit : datagram.length ≤ net.bufferSize) : net.recvfrom datagram = Int32.ofInt datagram.length := by
  have hnat : (UInt64.ofNat net.bufferSize).toNat = net.bufferSize :=
    UInt64.toNat_ofNat_of_lt' (lt_trans hbuffer (by decide))
  have hint : (narrow (UInt64.ofNat net.bufferSize)).toInt = net.bufferSize := by
    rw [toInt_narrow (by omega), hnat]
  apply Winsock.recvfrom_fits
  rw [hint]
  exact_mod_cast hfit

omit [DecidableEq H] in
theorem recvfrom_pos [Winsock] {net : NetSocket H U} (hbuffer : net.bufferSize < 2 ^ 31)
    {datagram : List UInt8} (hpos : 0 < datagram.length) (hfit : datagram.length ≤ net.bufferSize) :
    net.recvfrom datagram > 0 := by
  rw [recvfrom_eq hbuffer hfit, gt_iff_lt, Int32.lt_iff_toInt_lt, toInt_ofInt (by omega) (by omega)]
  exact Int.natCast_pos.mpr hpos

end NetSocket
end H1Z1Server
