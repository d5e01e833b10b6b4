import H1Z1Server.LoginServer.Structures
import H1Z1Server.LuaSystem.Surroundings

/-! `Server.lua`: the callback of the login server, and the dispatch of a datagram to it. -/
namespace H1Z1Server
open MachineInt MemoryBlock ByteStreamBuffer

/-- What the server is seen to do, by the client that it does it to. -/
inductive ServerEvent (C : Type) where
  | print (line : String)
  | hexDump (bytes : List UInt8)
  | sendPacket (client : C) (bytes : List UInt8)

/-- The reader that a callback was given, and what it did so far. -/
structure CallbackState (C : Type) where
  data : ByteStreamBuffer
  events : List (ServerEvent C)

abbrev CallbackM (C : Type) := EStateM Abort (CallbackState C)

abbrev DispatchM (C : Type) := EStateM Abort (List (ServerEvent C))

namespace LoginServer
variable {C : Type}

/-- A method of the reader. -/
def onData {α : Type} (x : StreamM α) : CallbackM C α := fun st =>
  match x.run st.data with
  | .ok a data => .ok a { st with data }
  | .error e data => .error e { st with data }

def emit (e : ServerEvent C) : CallbackM C Unit :=
  modify fun st => { st with events := st.events ++ [e] }

/-- `string.format("%08X", n)`, which converts to 32 bits without a sign. -/
def formatHex (rt : LuaRuntime) : Option LuaValue → CallbackM C String
  | some (.number n) => hex n
  | some (.string s) =>
    match rt.numeral s with
    | some n => hex n
    | none => throw (.luaError "bad argument #2 to 'format' (number expected, got string)")
  | none => throw (.luaError "bad argument #2 to 'format' (number expected, got nil)")
where
  hex (n : ℤ) : CallbackM C String :=
    if 0 ≤ n ∧ n < 2 ^ 32 then
      let digits := (Nat.toDigits 16 n.toNat).map Char.toUpper
      return String.ofList (List.replicate (8 - digits.length) '0' ++ digits)
    else throw .undefinedBehaviour

/-- `Debug.HexDump`. It ends without a `return`, so that `leftover` is taken for the number of its results:
a call as a statement wants none, but a negative number stands for a yield, and the callback is not resumed. -/
def hexDump (leftover : Int32) (reader : ByteStreamBuffer) : CallbackM C Unit :=
  match reader.buffer.bind (·.load 0 reader.getBufferSize.toInt.toNat) with
  | some bytes => do
    emit (.hexDump bytes)
    if leftover < 0 then throw .undefinedBehaviour
  | none => throw .undefinedBehaviour

/-- `NetSocket_SendPacket`, with the result of `sendto` as a parameter. -/
def sendPacket (sendto : C → List UInt8 → Int32) (client : C) (reader : ByteStreamBuffer) :
    CallbackM C Bool :=
  match reader.buffer.bind (·.load 0 reader.getBufferSize.toInt.toNat) with
  | some bytes => do
    emit (.sendPacket client bytes)
    return sendto client bytes != 0
  | none => throw .undefinedBehaviour

/-- A call of `Serialize` from the callback. -/
def serializeCall (rt : LuaRuntime) (packetId : String) (data : LuaTable) :
    CallbackM C ByteStreamBuffer :=
  match Packets.serialize rt tables packetId data with
  | .ok reply => return reply
  | .error e => throw e

/-- The function that is connected to `OnRecieve`. -/
def onRecieve (rt : LuaRuntime) (leftover : Int32) (sendto : C → List UInt8 → Int32) (client : C) :
    CallbackM C Unit := do
  let packetId ← onData (Packets.getPacketId tables)
  if packetId = "LoginRequest" then
    let packet ← onData (Packets.deserialize tables packetId)
    let sessionId ← formatHex rt (packet "SessionId")
    emit (.print ("[LoginServer]: Client (" ++ sessionId ++ ") requested permission to login."))
    emit (.print "[LoginServer]: Sending client successful reply...")
    let reply ← serializeCall rt "LoginReply" fun name =>
      if name = "SessionId" then packet "SessionId" else none
    emit (.print "Login Reply:")
    hexDump leftover reply
    let sent ← sendPacket sendto client reply
    if !sent then
      emit (.print "[LoginServer]: Failed to send client login reply.")
  else if packetId = "ServerListRequest" then
    emit (.print "Yeet")
  else
    emit (.print ("[LoginServer]: Unknown/unhandled packet received: '" ++ packetId ++ "'. Content:"))
    hexDump leftover (← get).data

/-- The part of `LuaNetSocket_EventHandler` that makes the reader and calls the callback. The
protected call reports an error of Lua; an exception of the streams goes through it. -/
def protectedCall (client : C) (callback : C → CallbackM C Unit) (packet : Packet) : DispatchM C Unit :=
  fun events =>
    match (callback client).run ⟨pushLuaStream (some packet.data) packet.data_size, events⟩ with
    | .ok _ st => .ok () st.events
    | .error (.luaError message) st => .ok () (st.events ++
        [.print ("[ERROR][LuaNetSocket]: Error calling event function:\n\t" ++ message ++ "\n\n")])
    | .error e st => .error e st.events

/-- The socket of the login server, with its one connection. -/
def loginSocket (callback : C → CallbackM C Unit) : LuaNetSocket (C → CallbackM C Unit) :=
  (LuaNetSocket.new 0x5000).connect callback

/-- What the marks and the collector come to. -/
def collected (w : Surroundings) (ud : EventUserdata) : DispatchM C Unit :=
  match w.marks ud with
  | .ok _ => return
  | .error e => throw e

/-- One round of `NetSocket::Listener` of the login server, in its surroundings. -/
def dispatchAmid [Winsock] (w : Surroundings) (rt : LuaRuntime) (sendto : C → List UInt8 → Int32) (client : C)
    (beyond : ℤ → Option UInt8) (datagram : List UInt8) : DispatchM C Unit :=
  (loginSocket (onRecieve rt w.leftover sendto)).listener (collected w) (protectedCall client) beyond datagram

/-- The same where the marks are taken, the collector does no harm and `Debug.HexDump` has no results. -/
def dispatch [Winsock] (rt : LuaRuntime) (sendto : C → List UInt8 → Int32) (client : C)
    (beyond : ℤ → Option UInt8) (datagram : List UInt8) : DispatchM C Unit :=
  (loginSocket (onRecieve rt 0 sendto)).listener (fun _ => return) (protectedCall client) beyond datagram

end LoginServer
end H1Z1Server
