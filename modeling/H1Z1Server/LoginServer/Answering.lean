import H1Z1Server.LoginServer.Dispatch

/-! What the login server answers: what its callback does with each kind of datagram, and which session a
login request is answered with. -/
namespace H1Z1Server
open MachineInt MemoryBlock ByteOrder ByteStreamBuffer LoginServer

variable {C : Type} {rt : LuaRuntime} {s : ByteStreamBuffer} {datagram : List UInt8}
  {beyond : ℤ → Option UInt8} {leftover : Int32}

/-- A platform with memory enough for the packets, and with some `int` for every number. -/
structure LuaRuntime.Ordinary (rt : LuaRuntime) : Prop where
  malloc : ∀ n < 2 ^ 31, (rt.malloc n).isSome
  toInt : ∀ n, (rt.toInt n).isSome

theorem loginReply_registered :
    Registered locals processedPackets "LoginReply" 0x0002 loginReply.tail := by
  constructor
  · decide
  · exact ⟨.number .word, rfl⟩
  · decide
  · intro v hv hop
    simp only [processedPackets, List.mem_cons, List.not_mem_nil, or_false] at hv
    rcases hv with rfl | rfl | rfl
    · rfl
    · cases hop
    · cases hop

theorem digit_fits (t : NumberType) (d : Fin 4) : d.val < 256 ^ t.width := by
  have hwidth : 256 ≤ 256 ^ t.width := by cases t <;> decide
  omega

theorem digit_exact (d : Fin 4) : d.val ≤ 2 ^ 53 := by
  omega

def digit (t : NumberType) (d : Fin 4) : Entry := .number t d (digit_fits t d) (digit_exact d)

/-- The defaults of a login reply behind its session. -/
def replyDefaults : List Entry :=
  [digit .dword 0, digit .byte 2, digit .byte 1, digit .byte 0, digit .byte 0, digit .byte 0,
    digit .byte 2, digit .dword 0, digit .byte 3]

/-- A login reply that carries these four bytes as its session. -/
def replyBytes (session : List UInt8) : List UInt8 :=
  [0x00, 0x02] ++ (session ++ [0, 0, 0, 0, 2, 1, 0, 0, 0, 2, 0, 0, 0, 0, 3])

/-- The bytes of a reader from its start to its end. -/
def wholeBuffer (reader : ByteStreamBuffer) : Option (List UInt8) :=
  reader.buffer.bind (·.load 0 reader.getBufferSize.toInt.toNat)

theorem wholeBuffer_of_facing {bs : List UInt8} (h : Facing s [] bs) (hfit : bs.length < 2 ^ 31) :
    wholeBuffer s = some bs := by
  obtain ⟨extra, beyond, hbuf⟩ := h.buffer
  have hsize : s.bufferSize.toNat = bs.length := by
    rw [h.bufferSize, List.length_nil, Nat.zero_add]
  have hint : s.getBufferSize.toInt = s.bufferSize.toNat := toInt_narrow (by omega)
  have hload : (Block.mk ([] ++ bs ++ extra) beyond).load 0 bs.length = some bs :=
    @Block.load_append ⟨[] ++ bs ++ extra, beyond⟩ [] bs extra rfl
  rw [wholeBuffer, hbuf, Option.bind_some, hint, Int.toNat_natCast, hsize, hload]

/-- The elements of a login reply behind its opcode. -/
def replyEntries (sessionId : ℕ) (h : sessionId < 2 ^ 32) : List Entry :=
  .number .dword sessionId h (h.le.trans (by norm_num)) :: replyDefaults

theorem reply_carries {sessionId : ℕ} (h : sessionId < 2 ^ 32) {data : LuaTable}
    (hdata : data = fun name => if name = "SessionId" then some (.number sessionId) else none) :
    List.Forall₂ (Field.Carries data) loginReply.tail (replyEntries sessionId h) := by
  subst hdata
  exact .cons ⟨rfl, rfl⟩ (.cons ⟨rfl, rfl⟩ (.cons ⟨rfl, rfl⟩ (.cons ⟨rfl, rfl⟩ (.cons ⟨rfl, rfl⟩
    (.cons ⟨rfl, rfl⟩ (.cons ⟨rfl, rfl⟩ (.cons ⟨rfl, rfl⟩ (.cons ⟨rfl, rfl⟩ (.cons ⟨rfl, rfl⟩
    .nil)))))))))

theorem packetSize_reply {sessionId : ℕ} (h : sessionId < 2 ^ 32) :
    packetSize (replyEntries sessionId h) = 21 ∧ roomLeftAll 0 (replyEntries sessionId h) = 0 := by
  have htight : ∀ e ∈ replyDefaults, e.need = e.bytes.length := by decide
  have hroom : roomLeftAll 0 (replyEntries sessionId h) = 0 :=
    roomLeftAll_of_tight (List.forall_mem_cons.mpr ⟨(length_encodeNat _ _ _).symm, htight⟩)
  have hdefaults : (entriesBytes replyDefaults).length = 15 := by decide
  have hsession : (Entry.number .dword sessionId h (h.le.trans (by norm_num))).bytes.length = 4 :=
    length_encodeNat _ _ _
  refine ⟨?_, hroom⟩
  rw [packetSize, hroom, replyEntries, entriesBytes_cons, List.length_append, hdefaults, hsession]

theorem replyDefaults_bytes :
    (replyDefaults.map Entry.bytes).flatten = [0, 0, 0, 0, 2, 1, 0, 0, 0, 2, 0, 0, 0, 0, 3] := by
  decide

theorem replyDefaults_inRange : ∀ e ∈ replyDefaults, e.InRange := by decide

/-- The reply to a session has it as the `int` it was converted to. -/
theorem reply_run (hm : ∀ n < 2 ^ 31, (rt.malloc n).isSome) {sessionId : ℕ}
    (hlt : sessionId < 2 ^ 32) {i : Int32} (hi : rt.toInt sessionId = some i) :
    ∃ r, Packets.serialize rt tables "LoginReply"
        (fun name => if name = "SessionId" then some (.number sessionId) else none) = .ok r ∧
      wholeBuffer r = some (replyBytes (encodeNat true 4 (dword i).toNat)) := by
  have hsend : List.Forall₂ (Entry.Sends rt) (replyEntries sessionId hlt)
      (encodeNat true 4 (dword i).toNat :: replyDefaults.map Entry.bytes) :=
    .cons ⟨i, hi, rfl⟩ (sends_entriesBytes replyDefaults_inRange)
  obtain ⟨hsize, hroom⟩ := packetSize_reply hlt
  obtain ⟨r, hserialize, -, hface⟩ := serialize_run loginReply_registered (reply_carries hlt rfl) hsend
    (by rw [hsize]; decide) hm
  have hopcode : encodeNat true 2 0x0002 = [0x00, 0x02] := by decide
  rw [hroom, List.replicate_zero, List.append_nil, List.flatten_cons, replyDefaults_bytes, hopcode]
    at hface
  refine ⟨r, hserialize, wholeBuffer_of_facing hface ?_⟩
  rw [replyBytes, List.length_append, List.length_append, length_encodeNat]
  decide

theorem hexDump_run {reader : ByteStreamBuffer} {bytes : List UInt8} (h : wholeBuffer reader = some bytes)
    (hleft : ¬leftover < 0) (st : CallbackState C) :
    (hexDump leftover reader).run st = .ok () { st with events := st.events ++ [.hexDump bytes] } := by
  unfold wholeBuffer at h
  rw [hexDump, h]
  dsimp only
  rw [if_neg hleft]
  rfl

/-- A number below zero leaves the callback where it is. -/
theorem hexDump_yields {reader : ByteStreamBuffer} {bytes : List UInt8} (h : wholeBuffer reader = some bytes)
    (hleft : leftover < 0) (st : CallbackState C) :
    (hexDump leftover reader).run st =
      .error .undefinedBehaviour { st with events := st.events ++ [.hexDump bytes] } := by
  unfold wholeBuffer at h
  rw [hexDump, h]
  dsimp only
  rw [if_pos hleft]
  rfl

theorem sendPacket_run {reader : ByteStreamBuffer} {bytes : List UInt8}
    (h : wholeBuffer reader = some bytes) (sendto : C → List UInt8 → Int32) (client : C)
    (st : CallbackState C) : (sendPacket sendto client reader).run st =
      .ok (sendto client bytes != 0) { st with events := st.events ++ [.sendPacket client bytes] } := by
  unfold wholeBuffer at h
  rw [sendPacket, h]
  rfl

theorem formatHex_run (rt : LuaRuntime) {n : ℕ} (h : n < 2 ^ 32) (st : CallbackState C) :
    ∃ text, (formatHex rt (some (.number n)) : CallbackM C String).run st = .ok text st := by
  have hin : (0 : ℤ) ≤ n ∧ (n : ℤ) < 2 ^ 32 := ⟨Int.natCast_nonneg _, by exact_mod_cast h⟩
  rw [formatHex, formatHex.hex, if_pos hin]
  exact ⟨_, rfl⟩

/-- The packets among the events, by the clients that they went to. -/
def sends : List (ServerEvent C) → List (C × List UInt8) :=
  List.filterMap fun
    | .sendPacket client bytes => some (client, bytes)
    | _ => none

/-- What the callback does with a login request, with the result of `SendPacket`. -/
def loginEvents (sessionId : String) (client : C) (reply : List UInt8) (sent : Bool) : List (ServerEvent C) :=
  [.print ("[LoginServer]: Client (" ++ sessionId ++ ") requested permission to login."),
    .print "[LoginServer]: Sending client successful reply...", .print "Login Reply:", .hexDump reply,
    .sendPacket client reply] ++
    if sent then [] else [.print "[LoginServer]: Failed to send client login reply."]

theorem sends_append (events events' : List (ServerEvent C)) :
    sends (events ++ events') = sends events ++ sends events' :=
  List.filterMap_append

@[simp] theorem sends_loginEvents (sessionId : String) (client : C) (reply : List UInt8) (sent : Bool) :
    sends (loginEvents sessionId client reply sent) = [(client, reply)] := by
  cases sent <;> rfl

/-- A login request whose string can be read leads to a reply, which is dumped and sent. -/
theorem onRecieve_reply (hrt : rt.Ordinary) (leftover : Int32) (h : Facing s [] datagram) (hbig : s.bigEndian = true)
    (hlen : 14 ≤ datagram.length) (hop : opcodeOf datagram = 0x0001)
    (hstring : ∀ s', Facing s' (datagram.take 14) (datagram.drop 14) → s'.buffer = s.buffer →
      ∃ str s'', (ByteStreamReader.readString .untilNullTerm).run s' = .ok str s'')
    {i : Int32} (hi : rt.toInt (sessionIdOf datagram) = some i) (sendto : C → List UInt8 → Int32)
    (client : C) (events : List (ServerEvent C)) :
    ∃ sessionId data reply, wholeBuffer reply = some (replyBytes (encodeNat true 4 (dword i).toNat)) ∧
      (onRecieve rt leftover sendto client).run ⟨s, events⟩ = (do
        hexDump leftover reply
        let sent ← sendPacket sendto client reply
        if !sent then
          emit (.print "[LoginServer]: Failed to send client login reply.") : CallbackM C Unit).run
        ⟨data, events ++
          [.print ("[LoginServer]: Client (" ++ sessionId ++ ") requested permission to login."),
            .print "[LoginServer]: Sending client successful reply...", .print "Login Reply:"]⟩ := by
  obtain ⟨s₁, hget, h₁, hbig₁, hbuf₁⟩ := getPacketId_loginRequest h hbig (by omega) hop
  obtain ⟨s₂, h₂, hbuf₂, table, htable, hdes⟩ := deserialize_request h₁ hbig₁ hlen
  obtain ⟨str, s₃, hread⟩ := hstring s₂ h₂ (hbuf₂.trans hbuf₁)
  rw [hread] at hdes
  obtain ⟨r, hserialize, hwhole⟩ := reply_run hrt.malloc (sessionIdOf_lt datagram) hi
  obtain ⟨text, hformat⟩ := formatHex_run rt (sessionIdOf_lt datagram) (⟨s₃, events⟩ : CallbackState C)
  refine ⟨text, s₃, r, hwhole, ?_⟩
  unfold onRecieve
  rw [run_bind_ok (onData_ok hget), if_pos rfl, run_bind_ok (onData_ok hdes), htable, run_bind_ok hformat,
    run_bind_ok (emit_run _ _), run_bind_ok (emit_run _ _), serializeCall, hserialize]
  dsimp only
  rw [run_bind_ok (EStateM.run_pure _ _), run_bind_ok (emit_run _ _)]
  simp only [List.append_assoc, List.cons_append, List.nil_append]

/-- It is answered once, if the dump returns. -/
theorem onRecieve_login (hrt : rt.Ordinary) (hleft : ¬leftover < 0) (h : Facing s [] datagram)
    (hbig : s.bigEndian = true) (hlen : 14 ≤ datagram.length) (hop : opcodeOf datagram = 0x0001)
    (hstring : ∀ s', Facing s' (datagram.take 14) (datagram.drop 14) → s'.buffer = s.buffer →
      ∃ str s'', (ByteStreamReader.readString .untilNullTerm).run s' = .ok str s'')
    {i : Int32} (hi : rt.toInt (sessionIdOf datagram) = some i) (sendto : C → List UInt8 → Int32)
    (client : C) (events : List (ServerEvent C)) :
    ∃ sessionId data, (onRecieve rt leftover sendto client).run ⟨s, events⟩ =
      .ok () ⟨data, events ++ loginEvents sessionId client (replyBytes (encodeNat true 4 (dword i).toNat))
        (sendto client (replyBytes (encodeNat true 4 (dword i).toNat)) != 0)⟩ := by
  obtain ⟨text, data, reply, hwhole, hrun⟩ :=
    onRecieve_reply hrt leftover h hbig hlen hop hstring hi sendto client events
  refine ⟨text, data, ?_⟩
  rw [hrun, run_bind_ok (hexDump_run hwhole hleft _), run_bind_ok (sendPacket_run hwhole sendto client _)]
  cases sendto client (replyBytes (encodeNat true 4 (dword i).toNat)) != 0 with
  | true => simp [loginEvents]
  | false => simp [loginEvents, emit_run]

/-- Any other opcode is only reported, and but for one the datagram is dumped. -/
theorem onRecieve_other (rt : LuaRuntime) (leftover : Int32) (h : Facing s [] datagram)
    (hbig : s.bigEndian = true) (hlen : 2 ≤ datagram.length) (hfit : datagram.length < 2 ^ 31)
    (hop : opcodeOf datagram ≠ 0x0001) (sendto : C → List UInt8 → Int32) (client : C) :
    ∃ st, (onRecieve rt leftover sendto client).run ⟨s, []⟩ =
      if opcodeOf datagram = 0x000D ∨ ¬leftover < 0 then .ok () st else .error .undefinedBehaviour st := by
  obtain ⟨s₁, hget, h₁, hbig₁, hbuf₁⟩ := getPacketId_login h hbig hlen
  have hwhole : wholeBuffer s₁ = some datagram := by
    obtain ⟨extra, beyond, hbuf⟩ := h.buffer
    have hsize := h₁.bufferSize
    rw [← List.length_append, List.take_append_drop] at hsize
    have hface : Facing { s₁ with idx := 0 } [] datagram :=
      ⟨⟨extra, beyond, hbuf₁.trans hbuf⟩, by rw [List.length_nil, Nat.zero_add]; exact hsize, rfl⟩
    have hsame : wholeBuffer { s₁ with idx := 0 } = some datagram := wholeBuffer_of_facing hface hfit
    exact hsame
  unfold onRecieve
  rw [run_bind_ok (onData_ok hget), packetIds_eq, if_neg hop]
  by_cases hserver : opcodeOf datagram = 0x000D
  · rw [if_pos hserver, if_neg (by decide), if_pos rfl]
    exact ⟨⟨s₁, [] ++ [.print "Yeet"]⟩, (if_pos (.inl hserver)).symm⟩
  rw [if_neg hserver]
  have hreport : ∀ packetId, ∃ st,
      ((do
        emit (.print
          ("[LoginServer]: Unknown/unhandled packet received: '" ++ packetId ++ "'. Content:"))
        let st ← get
        hexDump leftover st.data) : CallbackM C Unit).run ⟨s₁, []⟩ =
      if opcodeOf datagram = 0x000D ∨ ¬leftover < 0 then .ok () st else .error .undefinedBehaviour st := by
    intro packetId
    rw [run_bind_ok (emit_run _ _), run_bind_ok (EStateM.run_get _)]
    dsimp only
    by_cases hleft : leftover < 0
    · exact ⟨_, (hexDump_yields hwhole hleft _).trans (if_neg (by simp [hserver, hleft])).symm⟩
    · exact ⟨_, (hexDump_run hwhole hleft _).trans (if_pos (.inr hleft)).symm⟩
  by_cases hreply : opcodeOf datagram = 0x0002
  · rw [if_pos hreply, if_neg (by decide), if_neg (by decide)]
    exact hreport _
  · rw [if_neg hreply, if_neg (by decide), if_neg (by decide)]
    exact hreport _

/-- A datagram without an opcode throws. -/
theorem onRecieve_short (rt : LuaRuntime) (leftover : Int32) (h : Facing s [] datagram) (hpos : 0 < datagram.length)
    (hlen : datagram.length < 2) (sendto : C → List UInt8 → Int32) (client : C) :
    ∃ what st, (onRecieve rt leftover sendto client).run ⟨s, []⟩ = .error (.exception what) st := by
  obtain ⟨what, hrun⟩ := NumberType.read_throw h (by rw [List.length_nil]; omega) .word (by decide) hlen
  have hread : BufferReader.readWord.run s = .error (.exception what) s := hrun
  have hget : (Packets.getPacketId tables).run s = .error (.exception what) s := by
    rw [Packets.getPacketId, run_bind_error hread]
  unfold onRecieve
  exact ⟨_, _, run_bind_error (onData_error hget)⟩

/-- A login request that ends before its string throws. -/
theorem onRecieve_truncated (rt : LuaRuntime) (leftover : Int32) (h : Facing s [] datagram) (hbig : s.bigEndian = true)
    (hlen : 2 ≤ datagram.length) (hop : opcodeOf datagram = 0x0001) (hshort : datagram.length < 14)
    (sendto : C → List UInt8 → Int32) (client : C) :
    ∃ what st, (onRecieve rt leftover sendto client).run ⟨s, []⟩ = .error (.exception what) st := by
  obtain ⟨s₁, hget, h₁, hbig₁, -⟩ := getPacketId_loginRequest h hbig hlen hop
  have htake : (datagram.take 2).length = 2 := by
    rw [List.length_take]
    omega
  have hdrop : (datagram.drop 2).length = datagram.length - 2 := List.length_drop
  obtain ⟨what, s₂, hthrow⟩ := readEntries_throw [.dword, .dword, .dword]
    [.text [] List.not_mem_nil (by decide)] h₁ (by omega) hbig₁ (by omega) (by
      rw [hdrop]
      exact lt_of_lt_of_le (by omega) (show 12 ≤ _ by decide))
  have hdes := deserialize_run (s := s₁) loginRequest_registered request_carries
  have hrequest : (readEntries requestEntries).run s₁ = .error (.exception what) s₂ := hthrow
  rw [hrequest] at hdes
  unfold onRecieve
  rw [run_bind_ok (onData_ok hget), if_pos rfl]
  exact ⟨_, _, run_bind_error (onData_error hdes)⟩

/-- The string of a login request ends in the buffer of the listener. -/
def StringEnds (datagram : List UInt8) : Prop := datagram.length < 0x5000 ∨ 0 ∈ datagram.drop 14

instance : DecidablePred StringEnds := fun _ => inferInstanceAs (Decidable (_ ∨ _))

theorem received_drop (beyond : ℤ → Option UInt8) (hlen : 14 ≤ datagram.length) :
    (received beyond datagram).bytes.drop 14 =
      datagram.drop 14 ++ List.replicate (0x5000 - datagram.length) 0 := by
  rw [received, List.drop_append_of_le_length hlen]

/-- The string of a received login request. -/
theorem readString_received (h : Facing s (datagram.take 14) (datagram.drop 14))
    (hbuf : s.buffer = some (received beyond datagram)) (hlen : 14 ≤ datagram.length)
    (hfit : datagram.length ≤ 0x5000) (hends : StringEnds datagram) :
    ∃ str s', (ByteStreamReader.readString .untilNullTerm).run s = .ok str s' := by
  have hsize := h.bufferSize
  rw [← List.length_append, List.take_append_drop] at hsize
  have hne : s.bufferSize ≠ 0 := ne_zero_of_pos (by omega)
  have hidx := h.idx
  rw [List.length_take, Nat.min_eq_left hlen] at hidx
  have hdrop : (datagram.drop 14).length = datagram.length - 14 := List.length_drop
  have hsplit : ∃ str rest, (received beyond datagram).bytes.drop 14 = str ++ 0 :: rest ∧ 0 ∉ str ∧
      str.length ≤ datagram.length - 14 := by
    rw [received_drop beyond hlen]
    by_cases hzero : 0 ∈ datagram.drop 14
    · obtain ⟨str, rest, hstr, hnone⟩ := List.eq_append_cons_of_mem hzero
      refine ⟨str, rest ++ List.replicate (0x5000 - datagram.length) 0, ?_, hnone, ?_⟩
      · rw [hstr, List.append_assoc]
        rfl
      · rw [← hdrop, hstr, List.length_append]
        omega
    · have hshort := hends.resolve_right hzero
      obtain ⟨k, hk⟩ := Nat.exists_eq_succ_of_ne_zero (show 0x5000 - datagram.length ≠ 0 by omega)
      refine ⟨datagram.drop 14, List.replicate k 0, ?_, hzero, hdrop.le⟩
      rw [hk, List.replicate_succ]
  obtain ⟨str, rest, hbytes, hnone, hshort⟩ := hsplit
  obtain ⟨idx, -, hrun⟩ := readString_terminated hbuf hne (by omega) hidx hbytes hnone (by omega)
  exact ⟨_, _, hrun⟩

/-- A string that fills the buffer is read on into what lies behind it. -/
theorem onRecieve_stray (rt : LuaRuntime) (leftover : Int32) (h : Facing s [] datagram) (hbig : s.bigEndian = true)
    (hbuf : s.buffer = some (received beyond datagram)) (hop : opcodeOf datagram = 0x0001)
    (hfull : datagram.length = 0x5000) (hstray : 0 ∉ datagram.drop 14) (hbeyond : beyond 0x5000 = none)
    (sendto : C → List UInt8 → Int32) (client : C) :
    ∃ st, (onRecieve rt leftover sendto client).run ⟨s, []⟩ = .error .undefinedBehaviour st := by
  obtain ⟨s₁, hget, h₁, hbig₁, hbuf₁⟩ := getPacketId_loginRequest h hbig (by omega) hop
  obtain ⟨s₂, h₂, hbuf₂, table, -, hdes⟩ := deserialize_request h₁ hbig₁ (by omega)
  have hsize := h₂.bufferSize
  rw [← List.length_append, List.take_append_drop] at hsize
  have hblock : (received beyond datagram).size = 0x5000 := by
    show (datagram ++ List.replicate (0x5000 - datagram.length) 0).length = _
    rw [List.length_append, List.length_replicate]
    omega
  have hne : s₂.bufferSize ≠ 0 := ne_zero_of_pos (by omega)
  have hidx := h₂.idx
  rw [List.length_take, Nat.min_eq_left (by omega)] at hidx
  have hbytes : 0 ∉ (received beyond datagram).bytes.drop 14 := by
    rw [received_drop beyond (by omega), hfull, Nat.sub_self, List.replicate_zero, List.append_nil]
    exact hstray
  have hread := readString_stray (hbuf₂.trans (hbuf₁.trans hbuf)) hne (by omega) (by omega) hidx (by omega)
    hbytes (by rw [hblock]; exact hbeyond)
  rw [hread] at hdes
  unfold onRecieve
  rw [run_bind_ok (onData_ok hget), if_pos rfl]
  exact ⟨_, run_bind_error (onData_error hdes)⟩

theorem protectedCall_ok {client : C} {callback : C → CallbackM C Unit} {packet : Packet}
    {events events' : List (ServerEvent C)} {data : ByteStreamBuffer}
    (h : (callback client).run ⟨pushLuaStream (some packet.data) packet.data_size, events⟩ =
      .ok () ⟨data, events'⟩) : (protectedCall client callback packet).run events = .ok () events' := by
  unfold EStateM.run at h ⊢
  unfold protectedCall EStateM.run
  simp only [h]

theorem platform_ordinary (out : Int32) : (platform out).Ordinary := by
  constructor
  · intro n hn
    rfl
  · intro n
    unfold platform
    dsimp only
    split <;> rfl

/-- A login request that can be read is answered once, with its session as the `int` it was
converted to. -/
theorem dispatch_login_events [Winsock] {rt : LuaRuntime} (hrt : rt.Ordinary) (hlen : 14 ≤ datagram.length)
    (hfit : datagram.length ≤ 0x5000) (hop : opcodeOf datagram = 0x0001) (hends : StringEnds datagram)
    {i : Int32} (hi : rt.toInt (sessionIdOf datagram) = some i) (sendto : C → List UInt8 → Int32)
    (client : C) (beyond : ℤ → Option UInt8) (events : List (ServerEvent C)) :
    ∃ sessionId, (dispatch rt sendto client beyond datagram).run events =
      .ok () (events ++ loginEvents sessionId client (replyBytes (encodeNat true 4 (dword i).toNat))
        (sendto client (replyBytes (encodeNat true 4 (dword i).toNat)) != 0)) := by
  have h := receivedReader_facing beyond hfit
  rw [dispatch_eq sendto client beyond (by omega) hfit]
  have hleft : ¬(0 : Int32) < 0 := by decide
  obtain ⟨sessionId, data, hrun⟩ := onRecieve_login hrt hleft h rfl hlen hop
    (fun s' h' hbuf' => readString_received h' hbuf' hlen hfit hends) hi sendto client events
  exact ⟨sessionId, protectedCall_ok hrun⟩

theorem dispatch_login [Winsock] {rt : LuaRuntime} (hrt : rt.Ordinary) (hlen : 14 ≤ datagram.length)
    (hfit : datagram.length ≤ 0x5000) (hop : opcodeOf datagram = 0x0001) (hends : StringEnds datagram)
    {i : Int32} (hi : rt.toInt (sessionIdOf datagram) = some i) (sendto : C → List UInt8 → Int32)
    (client : C) (beyond : ℤ → Option UInt8) :
    ∃ events, (dispatch rt sendto client beyond datagram).run [] = .ok () events ∧
      sends events = [(client, replyBytes (encodeNat true 4 (dword i).toNat))] := by
  obtain ⟨sessionId, hrun⟩ := dispatch_login_events hrt hlen hfit hop hends hi sendto client beyond []
  exact ⟨_, hrun, by simp⟩

/-- A complete login request: its opcode, three numbers, and a string that ends. -/
structure LoginRequest (datagram : List UInt8) : Prop where
  fits : datagram.length ≤ 0x5000
  opcode : opcodeOf datagram = 0x0001
  numbers : 14 ≤ datagram.length
  terminated : 0 ∈ datagram.drop 14

/-- A login request is answered on every platform with one reply of 21 bytes that has the session
of the request. -/
def Echoes [Winsock] (client : C) (datagram : List UInt8) : Prop :=
  ∀ rt : LuaRuntime, rt.Ordinary → ∀ sendto beyond, ∃ events,
    (dispatch rt sendto client beyond datagram).run [] = .ok () events ∧
      sends events = [(client, replyBytes ((datagram.drop 6).take 4))] ∧
      (replyBytes ((datagram.drop 6).take 4)).length = 21

theorem length_session (hlen : 14 ≤ datagram.length) : ((datagram.drop 6).take 4).length = 4 := by
  rw [List.length_take, List.length_drop]
  omega

/-- The reply echoes the session exactly when its `int` is the same four bytes. -/
theorem replyBytes_eq_iff (hlen : 14 ≤ datagram.length) (i : Int32) :
    replyBytes (encodeNat true 4 (dword i).toNat) = replyBytes ((datagram.drop 6).take 4) ↔
      (dword i).toNat = sessionIdOf datagram := by
  have hsession := length_session hlen
  have hdword : (dword i).toNat < 256 ^ 4 := (dword i).toNat_lt
  unfold replyBytes
  rw [List.append_right_inj, List.append_left_inj]
  constructor
  · intro heq
    rw [← decodeNat_encodeNat true hdword, heq]
    rfl
  · intro heq
    rw [heq, sessionIdOf, encodeNat_decodeNat true hsession]

/-- The session of a login request is echoed exactly when it is below 2^31. -/
theorem reply_echoes_iff [Winsock] (h : LoginRequest datagram) (client : C) :
    Echoes client datagram ↔ sessionIdOf datagram < 2 ^ 31 := by
  have hends : StringEnds datagram := .inr h.terminated
  constructor
  · intro hechoes
    by_contra hlarge
    have hrange : ¬(-2 ^ 31 ≤ (sessionIdOf datagram : ℤ) ∧ (sessionIdOf datagram : ℤ) < 2 ^ 31) :=
      fun hand => hlarge (by exact_mod_cast hand.2)
    have hout : (platform 0).toInt (sessionIdOf datagram) = some 0 := platform_out hrange
    obtain ⟨events, hrun, hsends, -⟩ := hechoes (platform 0) (platform_ordinary 0) (fun _ _ => 0) fun _ => none
    obtain ⟨events', hrun', hsends'⟩ := dispatch_login (platform_ordinary 0) h.numbers h.fits h.opcode
      hends hout (fun _ _ => 0) client fun _ => none
    rw [hrun] at hrun'
    cases hrun'
    rw [hsends'] at hsends
    have hbytes := (Prod.mk.inj (List.cons.inj hsends).1).2
    have hzero := (replyBytes_eq_iff h.numbers 0).mp hbytes
    have hdword : (dword 0).toNat = 0 := rfl
    omega
  · intro hsmall rt hrt sendto beyond
    have hexact := rt.toInt_exact (sessionIdOf datagram) (by omega) (by omega)
    obtain ⟨events, hrun, hsends⟩ := dispatch_login hrt h.numbers h.fits h.opcode hends hexact sendto
      client beyond
    have hint : (Int32.ofInt (sessionIdOf datagram)).toInt = sessionIdOf datagram :=
      toInt_ofInt (by omega) (by omega)
    have hdword := toNat_dword_of_nonneg (i := Int32.ofInt (sessionIdOf datagram)) (by omega)
    rw [(replyBytes_eq_iff h.numbers _).mpr (by omega)] at hsends
    refine ⟨events, hrun, hsends, ?_⟩
    rw [replyBytes, List.length_append, List.length_append, length_session h.numbers]
    rfl

/-- A login request with this session. -/
def requestWithSession (session : List UInt8) : List UInt8 :=
  [0x00, 0x01, 0, 0, 0, 0] ++ session ++ [0, 0, 0, 0, 65, 0]

theorem reply_echoes_example :
    Echoes (C := ℕ) 7 (requestWithSession [0x7F, 0xFF, 0xFF, 0xFF]) ↔
      sessionIdOf (requestWithSession [0x7F, 0xFF, 0xFF, 0xFF]) < 2 ^ 31 :=
  reply_echoes_iff ⟨by decide, by decide, by decide, by decide⟩ 7

/-- With the conversions of an x64 processor the largest session comes back as 0x80000000. -/
theorem largest_session_lost :
    LoginRequest (requestWithSession [0xFF, 0xFF, 0xFF, 0xFF]) ∧
      ¬Echoes (C := ℕ) 7 (requestWithSession [0xFF, 0xFF, 0xFF, 0xFF]) := by
  refine ⟨⟨by decide, by decide, by decide, by decide⟩, fun hechoes => ?_⟩
  obtain ⟨events, hrun, hsends, -⟩ := hechoes (platform Int32.minValue)
    (platform_ordinary Int32.minValue) (fun _ _ => 0) fun _ => none
  have hnumbers : 14 ≤ (requestWithSession [0xFF, 0xFF, 0xFF, 0xFF]).length := by decide
  have hout : (platform Int32.minValue).toInt
      (sessionIdOf (requestWithSession [0xFF, 0xFF, 0xFF, 0xFF])) = some Int32.minValue := by decide
  obtain ⟨events', hrun', hsends'⟩ := dispatch_login (platform_ordinary Int32.minValue) hnumbers
    (by decide) (by decide) (by decide) hout (fun _ _ => 0) (7 : ℕ) fun _ => none
  rw [hrun] at hrun'
  cases hrun'
  rw [hsends'] at hsends
  exact absurd hsends (by decide)

end H1Z1Server
