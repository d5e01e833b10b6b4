import H1Z1Server.LoginServer.Packets

/-! The packet structures of the login server, and the tables that its opcode loop makes. -/
namespace H1Z1Server

/-- Lua text in the range of ASCII, as the bytes of its characters. -/
def luaText (s : String) : List UInt8 := s.toList.map fun c => UInt8.ofNat c.toNat

namespace LoginServer

def loginReply : PacketStructure :=
  [ ⟨"PacketId", .number .word, some (.number 0x0002)⟩,
    ⟨"SessionId", .number .dword, some (.number 0)⟩,
    ⟨"Unk4_0", .number .dword, some (.number 0)⟩,
    ⟨"Unk1_0", .number .byte, some (.number 2)⟩,
    ⟨"Unk1_1", .number .byte, some (.number 1)⟩,
    ⟨"Unk1_2", .number .byte, some (.number 0)⟩,
    ⟨"Unk1_3", .number .byte, some (.number 0)⟩,
    ⟨"Unk1_4", .number .byte, some (.number 0)⟩,
    ⟨"Unk1_5", .number .byte, some (.number 2)⟩,
    ⟨"Unk4_1", .number .dword, some (.number 0)⟩,
    ⟨"Unk1_6", .number .byte, some (.number 3)⟩ ]

def loginRequest : PacketStructure :=
  [ ⟨"PacketId", .number .word, some (.number 0x0001)⟩,
    ⟨"SessionKey", .number .dword, some (.number 0)⟩,
    ⟨"SessionId", .number .dword, some (.number 0)⟩,
    ⟨"SessionLocale", .number .dword, some (.number 0)⟩,
    ⟨"SessionProtocol", .string, some (.string [])⟩ ]

def serverListRequest : PacketStructure :=
  [ ⟨"PacketId", .number .word, some (.number 0x000D)⟩ ]

/-- `ProcessedPackets`. -/
def processedPackets : List String := ["LoginReply", "LoginRequest", "ServerListRequest"]

/-- The locals of the module that hold packet structures. -/
def locals (name : String) : Option PacketStructure :=
  if name = "LoginReply" then some loginReply
  else if name = "LoginRequest" then some loginRequest
  else if name = "ServerListRequest" then some serverListRequest
  else none

def tables : PacketTables := Packets.register locals processedPackets

end LoginServer
end H1Z1Server
