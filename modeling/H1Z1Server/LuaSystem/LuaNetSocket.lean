import H1Z1Server.Sockets.NetSocket
import H1Z1Server.Library.RefTable

/-! `LuaNetSocket`: the connections that Lua makes to the event of a socket. All of them share
one handler function, and keep what they need in the registry. -/
namespace H1Z1Server

inductive NetSocketHandler where
  | luaNetSocket_EventHandler
  deriving DecidableEq

/-- The values that the connections put into the registry. -/
inductive RegistryValue (F : Type) where
  | callback (f : F)
  | socket
  | event (ud : ℕ)

/-- The userdata of a connection, without its pointers to the socket and the Lua state. -/
structure EventUserdata where
  funcRef : ℕ
  socketRef : ℕ
  eventRef : ℕ
  handlerIndex : Int32

/-- A socket with its connections. Userdata is addressed by the order of its creation. -/
structure LuaNetSocket (F : Type) where
  net : NetSocket NetSocketHandler ℕ
  registry : RefTable (RegistryValue F)
  userdata : List EventUserdata

namespace LuaNetSocket
variable {F : Type}

def new (bufferSize : ℕ) : LuaNetSocket F := ⟨.new bufferSize, .empty, []⟩

/-- `NetSocket_Event_Connect`. -/
def connect (s : LuaNetSocket F) (f : F) : LuaNetSocket F :=
  let ud := s.userdata.length
  let (funcRef, registry) := s.registry.ref (.callback f)
  let (socketRef, registry) := registry.ref .socket
  let (eventRef, registry) := registry.ref (.event ud)
  let (handlerIndex, net) := s.net.addHandler .luaNetSocket_EventHandler ud
  { net, registry, userdata := s.userdata ++ [⟨funcRef, socketRef, eventRef, handlerIndex⟩] }

/-- `EventHandler_Disconnect`. It ends with `delete ud`, on memory that `lua_newuserdata` has
allocated: undefined, unless the heap takes pointers that are not its own. -/
def disconnect (foreignDelete : Bool) (s : LuaNetSocket F) (ud : ℕ) : Except Abort (LuaNetSocket F) :=
  match s.userdata[ud]? with
  | none => .error (.luaError "Unable to disconnect invalid event")
  | some e => do
    let registry := ((s.registry.unref e.funcRef).unref e.socketRef).unref e.eventRef
    let net ← s.net.removeHandler e.handlerIndex
    if foreignDelete then return { s with net, registry } else throw .undefinedBehaviour

/-- `LuaNetSocket_EventHandler`. Its parameters are the two marks, with all that the collector then does
until the callback has returned, and the protected call of a callback. A registry entry that is no function
is an error that the protected call reports. -/
def eventHandler {m : Type → Type} [Monad m] (s : LuaNetSocket F) (marks : EventUserdata → m Unit)
    (invoke : F → Packet → m Unit) (packet : Packet) : Option ℕ → m Unit
  | none => pure ()
  | some ud =>
    match s.userdata[ud]? with
    | none => pure ()
    | some e =>
      if e.funcRef = 0 ∨ e.socketRef = 0 then pure ()
      else do
        marks e
        match s.registry.get e.funcRef with
        | some (.callback f) => invoke f packet
        | _ => pure ()

/-- `NetSocket::Listener` of a socket that only Lua has connected to. -/
def listener {m : Type → Type} [Monad m] [Winsock] (s : LuaNetSocket F) (marks : EventUserdata → m Unit)
    (invoke : F → Packet → m Unit) (beyond : ℤ → Option UInt8) (datagram : List UInt8) : m Unit :=
  s.net.listener (fun _ packet ud => s.eventHandler marks invoke packet ud) beyond datagram

end LuaNetSocket
end H1Z1Server
