import H1Z1Server.LoginServer.Server
import H1Z1Server.LoginServer.PacketRoundTrip

/-! The callback of the login server on any datagram: what it reads, what it sends, and which
exceptions leave it. -/
namespace H1Z1Server
open MachineInt MemoryBlock ByteOrder ByteStreamBuffer LoginServer

variable {C : Type} {rt : LuaRuntime} {s : ByteStreamBuffer} {done todo : List UInt8}

/-- A number that reaches past the end of the buffer. -/
theorem NumberType.read_throw (h : Facing s done todo) (hne : 0 < done.length + todo.length)
    (t : NumberType) (hfit : done.length < 2 ^ 31) (hmany : todo.length < t.width) :
    ∃ what, t.read.run s = .error (.exception what) s := by
  cases t with
  | dword =>
    have hrun := readSized_throw h hne "ByteStreamReader::ReadDword" 4
      (fun bigEndian bs => autoEndian4 bigEndian (UInt32.ofNat (ofLE bs)))
      ((Nat.add_lt_add_right hfit _).trans (by decide)) hmany
    exact ⟨_, run_map_error hrun⟩
  | qword =>
    have hrun := readSized_throw h hne "ByteStreamReader::ReadQword" 8
      (fun bigEndian bs => autoEndian8 bigEndian (UInt64.ofNat (ofLE bs)))
      ((Nat.add_lt_add_right hfit _).trans (by decide)) hmany
    exact ⟨_, run_map_error hrun⟩
  | word =>
    have hrun := readSized_throw h hne "ByteStreamReader::ReadWord" 2
      (fun bigEndian bs => autoEndian2 bigEndian (UInt16.ofNat (ofLE bs)))
      ((Nat.add_lt_add_right hfit _).trans (by decide)) hmany
    exact ⟨_, run_map_error hrun⟩
  | byte =>
    have hrun := readSized_throw h hne "ByteStreamReader::ReadByte" 1
      (fun _ bs => UInt8.ofNat (ofLE bs)) ((Nat.add_lt_add_right hfit _).trans (by decide)) hmany
    exact ⟨_, run_map_error hrun⟩

/-- The buffer of the listener with a datagram in it. -/
def received (beyond : ℤ → Option UInt8) (datagram : List UInt8) : Block :=
  ⟨datagram ++ List.replicate (0x5000 - datagram.length) 0, beyond⟩

/-- The reader that the callback is given. -/
def receivedReader (beyond : ℤ → Option UInt8) (datagram : List UInt8) : ByteStreamBuffer :=
  pushLuaStream (some (received beyond datagram)) (Int32.ofInt datagram.length)

/-- The userdata of the one connection. -/
def loginConnection : EventUserdata := ⟨1, 2, 3, 0⟩

theorem loginSocket_userdata (callback : C → CallbackM C Unit) :
    (loginSocket callback).userdata = [loginConnection] := by
  have hindex : narrow (UInt64.ofNat 1 - 1) = 0 := by decide
  show [EventUserdata.mk 1 2 3 (narrow (UInt64.ofNat 1 - 1))] = _
  rw [hindex, loginConnection]

section Listening
variable [Winsock] (sendto : C → List UInt8 → Int32) (client : C) (beyond : ℤ → Option UInt8)

/-- A datagram reaches the callback of the one connection, in a protected call behind the marks. -/
theorem listener_eq (marks : EventUserdata → DispatchM C Unit) (callback : C → CallbackM C Unit)
    {datagram : List UInt8} (hpos : 0 < datagram.length) (hfit : datagram.length ≤ 0x5000) :
    (loginSocket callback).listener marks (protectedCall client) beyond datagram = (do
      marks loginConnection
      protectedCall client callback ⟨received beyond datagram, Int32.ofInt datagram.length⟩) := by
  have hbuffer : (loginSocket callback).net.bufferSize < 2 ^ 31 := by
    show 0x5000 < 2 ^ 31
    decide
  have hnet : (loginSocket callback).net.recvfrom datagram = Int32.ofInt datagram.length :=
    NetSocket.recvfrom_eq hbuffer hfit
  have hreceived : (loginSocket callback).net.recvfrom datagram > 0 :=
    NetSocket.recvfrom_pos hbuffer hpos hfit
  have hbuf : (loginSocket callback).net.receiveBuffer beyond datagram = received beyond datagram := by
    show Block.mk (datagram.take 0x5000 ++ List.replicate (0x5000 - datagram.length) 0) beyond = _
    rw [List.take_of_length_le hfit, received]
  have hone : (loginSocket callback).net.socketHandlers = [.luaNetSocket_EventHandler] := rfl
  have hhandler : ∀ packet, (loginSocket callback).eventHandler marks (protectedCall client) packet
      ((loginSocket callback).net.socketUserdata .luaNetSocket_EventHandler) = (do
        marks loginConnection
        protectedCall client callback packet) := by
    intro packet
    show (loginSocket callback).eventHandler marks (protectedCall client) packet (some 0) = _
    simp only [LuaNetSocket.eventHandler, loginSocket_userdata, loginConnection]
    rfl
  unfold LuaNetSocket.listener NetSocket.listener
  rw [if_pos hreceived, hone, List.forM_eq_forM, List.forM_cons]
  dsimp only
  rw [hhandler, hbuf, hnet]
  exact bind_pure_unit

theorem dispatchAmid_eq (w : Surroundings) {datagram : List UInt8} (hpos : 0 < datagram.length)
    (hfit : datagram.length ≤ 0x5000) :
    dispatchAmid w rt sendto client beyond datagram = (do
      collected w loginConnection
      protectedCall client (onRecieve rt w.leftover sendto)
        ⟨received beyond datagram, Int32.ofInt datagram.length⟩) :=
  listener_eq client beyond _ _ hpos hfit

theorem dispatch_eq {datagram : List UInt8} (hpos : 0 < datagram.length) (hfit : datagram.length ≤ 0x5000) :
    dispatch rt sendto client beyond datagram =
      protectedCall client (onRecieve rt 0 sendto)
        ⟨received beyond datagram, Int32.ofInt datagram.length⟩ := by
  rw [dispatch, listener_eq client beyond _ _ hpos hfit]
  rfl

end Listening

theorem receivedReader_facing (beyond : ℤ → Option UInt8) {datagram : List UInt8}
    (hfit : datagram.length ≤ 0x5000) : Facing (receivedReader beyond datagram) [] datagram := by
  have hint : (Int32.ofInt datagram.length).toInt = datagram.length :=
    toInt_ofInt (by omega) (by omega)
  have hnat := toNat_sizeT_of_nonneg (i := Int32.ofInt datagram.length) (by omega)
  constructor
  · exact ⟨List.replicate (0x5000 - datagram.length) 0, beyond, rfl⟩
  · show (sizeT (Int32.ofInt datagram.length)).toNat = 0 + datagram.length
    omega
  · rfl

/-- The names that the opcodes stand for. -/
theorem packetIds_eq (opcode : ℕ) :
    (tables.packetIds (.number opcode)).getD "Unknown" =
      if opcode = 0x000D then "ServerListRequest" else if opcode = 0x0001 then "LoginRequest"
      else if opcode = 0x0002 then "LoginReply" else "Unknown" := by
  have htables : tables.packetIds = Function.update (Function.update (Function.update (fun _ => none)
    (.number 2) (some "LoginReply")) (.number 1) (some "LoginRequest")) (.number 13)
      (some "ServerListRequest") := rfl
  have hnumber : ∀ n : ℕ, LuaValue.number opcode = .number n ↔ opcode = n := fun n => by
    rw [LuaValue.number.injEq, Nat.cast_inj]
  have h13 : LuaValue.number opcode = .number 13 ↔ opcode = 13 := hnumber 13
  have h1 : LuaValue.number opcode = .number 1 ↔ opcode = 1 := hnumber 1
  have h2 : LuaValue.number opcode = .number 2 ↔ opcode = 2 := hnumber 2
  rw [htables]
  simp only [Function.update_apply]
  by_cases hserver : opcode = 13
  · rw [if_pos (h13.mpr hserver), if_pos hserver]
    rfl
  rw [if_neg (mt h13.mp hserver), if_neg hserver]
  by_cases hlogin : opcode = 1
  · rw [if_pos (h1.mpr hlogin), if_pos hlogin]
    rfl
  rw [if_neg (mt h1.mp hlogin), if_neg hlogin]
  by_cases hreply : opcode = 2
  · rw [if_pos (h2.mpr hreply), if_pos hreply]
    rfl
  rw [if_neg (mt h2.mp hreply), if_neg hreply]
  rfl

theorem onData_ok {α : Type} {x : StreamM α} {a : α} {s' : ByteStreamBuffer}
    {events : List (ServerEvent C)} (h : x.run s = .ok a s') :
    (onData x : CallbackM C α).run ⟨s, events⟩ = .ok a ⟨s', events⟩ := by
  unfold EStateM.run at h ⊢
  unfold onData EStateM.run
  simp only [h]

theorem onData_error {α : Type} {x : StreamM α} {e : Abort} {s' : ByteStreamBuffer}
    {events : List (ServerEvent C)} (h : x.run s = .error e s') :
    (onData x : CallbackM C α).run ⟨s, events⟩ = .error e ⟨s', events⟩ := by
  unfold EStateM.run at h ⊢
  unfold onData EStateM.run
  simp only [h]

theorem emit_run (e : ServerEvent C) (st : CallbackState C) :
    (emit e).run st = .ok () { st with events := st.events ++ [e] } := rfl

/-- The opcode of a datagram that has one. -/
def opcodeOf (datagram : List UInt8) : ℕ := decodeNat true (datagram.take 2)

theorem getPacketId_login {datagram : List UInt8} (h : Facing s [] datagram) (hbig : s.bigEndian = true)
    (hlen : 2 ≤ datagram.length) :
    ∃ s', (Packets.getPacketId tables).run s =
        .ok ((tables.packetIds (.number (opcodeOf datagram))).getD "Unknown") s' ∧
      Facing s' (datagram.take 2) (datagram.drop 2) ∧ s'.bigEndian = true ∧ s'.buffer = s.buffer := by
  have htake : (datagram.take 2).length = 2 := by
    rw [List.length_take]
    omega
  rw [← List.take_append_drop 2 datagram] at h
  obtain ⟨s', hrun, hafter, hbig', hbuf⟩ := NumberType.read_run h .word htake hbig (by
    rw [htake]
    decide)
  have hread : BufferReader.readWord.run s = .ok (.number (opcodeOf datagram)) s' := hrun
  refine ⟨s', ?_, hafter, hbig', hbuf⟩
  rw [Packets.getPacketId, run_bind_ok hread]
  rfl

theorem getPacketId_loginRequest {datagram : List UInt8} (h : Facing s [] datagram)
    (hbig : s.bigEndian = true) (hlen : 2 ≤ datagram.length) (hop : opcodeOf datagram = 0x0001) :
    ∃ s', (Packets.getPacketId tables).run s = .ok "LoginRequest" s' ∧
      Facing s' (datagram.take 2) (datagram.drop 2) ∧ s'.bigEndian = true ∧ s'.buffer = s.buffer := by
  have hname : (tables.packetIds (.number (opcodeOf datagram))).getD "Unknown" = "LoginRequest" := by
    rw [packetIds_eq, hop]
    rfl
  have hget := getPacketId_login h hbig hlen
  rwa [hname] at hget

/-- A number whose value is left open. -/
def zeroEntry (t : NumberType) : Entry := .number t 0 (Nat.pow_pos (by norm_num)) (Nat.zero_le _)

/-- The elements of a login request behind its opcode. -/
def requestEntries : List Entry :=
  [zeroEntry .dword, zeroEntry .dword, zeroEntry .dword, .text [] List.not_mem_nil (by decide)]

theorem request_carries :
    List.Forall₂ (Field.Carries fun _ => none) loginRequest.tail requestEntries :=
  .cons ⟨rfl, rfl⟩ (.cons ⟨rfl, rfl⟩ (.cons ⟨rfl, rfl⟩ (.cons ⟨rfl, rfl⟩ .nil)))

/-- A number that is there, and what is read behind it. -/
theorem readEntries_number {t : NumberType} {bs rest : List UInt8} (h : Facing s done (bs ++ rest))
    (hlen : bs.length = t.width) (hbig : s.bigEndian = true) (hidx : done.length + bs.length < 2 ^ 31) :
    ∃ s', Facing s' (done ++ bs) rest ∧ s'.bigEndian = true ∧ s'.buffer = s.buffer ∧
      ∀ entries, (readEntries (zeroEntry t :: entries)).run s =
        match (readEntries entries).run s' with
        | .ok vs s'' => .ok (.number (t.pushed (decodeNat true bs)) :: vs) s''
        | .error e s'' => .error e s'' := by
  obtain ⟨s', hrun, hafter, hbig', hbuf⟩ := NumberType.read_run h t hlen hbig hidx
  have hread : (zeroEntry t).read.run s = .ok (.number (t.pushed (decodeNat true bs))) s' := hrun
  refine ⟨s', hafter, hbig', hbuf, fun entries => ?_⟩
  rw [readEntries, run_bind_ok hread]
  cases hrest : (readEntries entries).run s' with
  | ok vs s'' =>
    rw [run_bind_ok hrest]
    rfl
  | error e s'' => rw [run_bind_error hrest]

/-- Numbers that together reach past the end of the buffer. -/
theorem readEntries_throw (types : List NumberType) (entries : List Entry) (h : Facing s done todo)
    (hne : 0 < done.length + todo.length) (hbig : s.bigEndian = true)
    (hfit : done.length + todo.length < 2 ^ 31)
    (hmany : todo.length < (types.map NumberType.width).sum) :
    ∃ what s', (readEntries (types.map zeroEntry ++ entries)).run s = .error (.exception what) s' := by
  induction types generalizing s done todo with
  | nil => exact absurd hmany (Nat.not_lt_zero _)
  | cons t types ih =>
    rw [List.map_cons, List.sum_cons] at hmany
    by_cases hshort : todo.length < t.width
    · obtain ⟨what, hrun⟩ := NumberType.read_throw h hne t (by omega) hshort
      have hread : (zeroEntry t).read.run s = .error (.exception what) s := hrun
      refine ⟨what, s, ?_⟩
      rw [List.map_cons, List.cons_append, readEntries, run_bind_error hread]
    · have htake : (todo.take t.width).length = t.width := by
        rw [List.length_take]
        omega
      have hdrop : (todo.drop t.width).length = todo.length - t.width := List.length_drop
      rw [← List.take_append_drop t.width todo] at h
      obtain ⟨s₁, h₁, hbig₁, -, hrun⟩ := readEntries_number h htake hbig (by omega)
      obtain ⟨what, s', hrest⟩ := ih h₁ (by rw [List.length_append]; omega) hbig₁
        (by rw [List.length_append]; omega) (by omega)
      refine ⟨what, s', ?_⟩
      rw [List.map_cons, List.cons_append, hrun, hrest]

/-- The session of a login request. -/
def sessionIdOf (datagram : List UInt8) : ℕ := decodeNat true ((datagram.drop 6).take 4)

theorem sessionIdOf_lt (datagram : List UInt8) : sessionIdOf datagram < 2 ^ 32 :=
  lt_of_lt_of_le (decodeNat_lt true _)
    (Nat.pow_le_pow_right (by norm_num) (List.length_take_le _ _) |>.trans (by norm_num))

/-- A number of four bytes, read from an offset of a datagram. -/
theorem readEntries_dword {datagram : List UInt8} {k : ℕ} (h : Facing s (datagram.take k) (datagram.drop k))
    (hbig : s.bigEndian = true) (hk : k + 4 ≤ datagram.length) (hsmall : k + 4 < 2 ^ 31) :
    ∃ s', Facing s' (datagram.take (k + 4)) (datagram.drop (k + 4)) ∧ s'.bigEndian = true ∧
      s'.buffer = s.buffer ∧ ∀ entries, (readEntries (zeroEntry .dword :: entries)).run s =
        match (readEntries entries).run s' with
        | .ok vs s'' =>
          .ok (.number (NumberType.dword.pushed (decodeNat true ((datagram.drop k).take 4))) :: vs) s''
        | .error e s'' => .error e s'' := by
  have hsplit : datagram.drop k = (datagram.drop k).take 4 ++ datagram.drop (k + 4) := by
    rw [← List.drop_drop, List.take_append_drop]
  have hfour : ((datagram.drop k).take 4).length = 4 := by
    rw [List.length_take, List.length_drop]
    omega
  have hle := List.length_take_le k datagram
  rw [hsplit] at h
  have hread := readEntries_number (t := .dword) h hfour hbig (by omega)
  rwa [← List.take_add] at hread

/-- A string in the last place. -/
theorem readEntries_string (s : ByteStreamBuffer) :
    (readEntries [.text [] List.not_mem_nil (by decide)]).run s =
      match (ByteStreamReader.readString .untilNullTerm).run s with
      | .ok str s' => .ok [.string str] s'
      | .error e s' => .error e s' := by
  cases hread : (ByteStreamReader.readString .untilNullTerm).run s with
  | ok str s' =>
    have htext : (Entry.text [] List.not_mem_nil (by decide)).read.run s = .ok (.string str) s' :=
      run_map_ok hread
    rw [readEntries, run_bind_ok htext]
    rfl
  | error e s' =>
    have htext : (Entry.text [] List.not_mem_nil (by decide)).read.run s = .error e s' :=
      run_map_error hread
    rw [readEntries, run_bind_error htext]

/-- What `Deserialize` makes of a login request, but for the reading of its string. -/
theorem deserialize_request {datagram : List UInt8}
    (h : Facing s (datagram.take 2) (datagram.drop 2)) (hbig : s.bigEndian = true)
    (hlen : 14 ≤ datagram.length) :
    ∃ s', Facing s' (datagram.take 14) (datagram.drop 14) ∧ s'.buffer = s.buffer ∧
      ∃ table : List UInt8 → LuaTable,
        (∀ str, table str "SessionId" = some (.number (sessionIdOf datagram))) ∧
        (Packets.deserialize tables "LoginRequest").run s =
          match (ByteStreamReader.readString .untilNullTerm).run s' with
          | .ok str s'' => .ok (table str) s''
          | .error e s'' => .error e s'' := by
  obtain ⟨s₁, h₁, hbig₁, hbuf₁, hrun₁⟩ := readEntries_dword h hbig (by omega) (by decide)
  obtain ⟨s₂, h₂, hbig₂, hbuf₂, hrun₂⟩ := readEntries_dword h₁ hbig₁ (by omega) (by decide)
  obtain ⟨s₃, h₃, hbig₃, hbuf₃, hrun₃⟩ := readEntries_dword h₂ hbig₂ (by omega) (by decide)
  have hdes := deserialize_run (s := s) loginRequest_registered request_carries
  refine ⟨s₃, h₃, hbuf₃.trans (hbuf₂.trans hbuf₁), fun str => assign (Function.update (fun _ => none)
    "PacketId" (some (.number 0x0001))) loginRequest.tail
    [.number (decodeNat true ((datagram.drop 2).take 4)), .number (sessionIdOf datagram),
      .number (decodeNat true ((datagram.drop 10).take 4)), .string str], fun str => rfl, ?_⟩
  show (Packets.deserialize (Packets.register locals processedPackets) "LoginRequest").run s = _
  rw [hdes]
  unfold requestEntries
  rw [hrun₁, hrun₂, hrun₃, readEntries_string]
  cases (ByteStreamReader.readString .untilNullTerm).run s₃ with
  | ok str s'' => rfl
  | error e s'' => rfl

end H1Z1Server
