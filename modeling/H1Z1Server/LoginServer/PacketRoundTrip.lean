import H1Z1Server.LoginServer.Serializing
import H1Z1Server.LoginServer.Deserializing
import H1Z1Server.LoginServer.Structures

/-! Packets written by `Serialize` and read back by `GetPacketId` and `Deserialize`: exactly which
packets survive that, over every platform. -/
namespace H1Z1Server
open MachineInt MemoryBlock ByteOrder ByteStreamBuffer Packets

variable {rt : LuaRuntime} {s : ByteStreamBuffer} {locals : String → Option PacketStructure}

namespace Packets

/-- What the registration of a packet sets, and that of no other one changes, is set in the end. -/
theorem foldl_sets {P : PacketTables → Prop} {tables : PacketTables} {processed : List String} {id : String}
    (hself : ∀ t, t.locals = tables.locals → P (registerPacket t id))
    (hkeep : ∀ t, t.locals = tables.locals → ∀ v ∈ processed, v ≠ id → P t → P (registerPacket t v))
    (hid : id ∈ processed ∨ P tables) : P (processed.foldl registerPacket tables) := by
  induction processed generalizing tables with
  | nil => exact hid.resolve_left List.not_mem_nil
  | cons v processed ih =>
    rw [List.foldl_cons]
    have hlocals := registerPacket_locals tables v
    apply ih
    · intro t ht
      exact hself t (ht.trans hlocals)
    · intro t ht w hw
      exact hkeep t (ht.trans hlocals) w (List.mem_cons_of_mem v hw)
    by_cases hv : v = id
    · subst hv
      exact .inr (hself tables rfl)
    · apply hid.imp
      · intro hmem
        exact (List.mem_cons.mp hmem).resolve_left (Ne.symm hv)
      · exact hkeep tables rfl v List.mem_cons_self hv

theorem foldl_opCodes {tables : PacketTables} {processed : List String} {id : String}
    {opcode : LuaValue} (hop : fieldOpCode tables.locals id = .ok opcode)
    (hid : id ∈ processed ∨ tables.opCodes id = some opcode) :
    (processed.foldl registerPacket tables).opCodes id = some opcode := by
  apply foldl_sets (P := fun t => t.opCodes id = some opcode) _ _ hid
  · intro t ht
    rw [registerPacket_ok (ht ▸ hop)]
    exact Function.update_self ..
  · intro t _ v _ hv hset
    cases h : fieldOpCode t.locals v with
    | error e => rw [registerPacket_error h, hset]
    | ok other =>
      rw [registerPacket_ok h]
      exact (Function.update_of_ne (Ne.symm hv) ..).trans hset

theorem foldl_packetIds {tables : PacketTables} {processed : List String} {id : String}
    {opcode : LuaValue} (hop : fieldOpCode tables.locals id = .ok opcode)
    (hdistinct : ∀ v ∈ processed, fieldOpCode tables.locals v = .ok opcode → v = id)
    (hid : id ∈ processed ∨ tables.packetIds opcode = some id) :
    (processed.foldl registerPacket tables).packetIds opcode = some id := by
  apply foldl_sets (P := fun t => t.packetIds opcode = some id) _ _ hid
  · intro t ht
    rw [registerPacket_ok (ht ▸ hop)]
    exact Function.update_self ..
  · intro t ht v hmem hv hset
    cases h : fieldOpCode t.locals v with
    | error e => rw [registerPacket_error h, hset]
    | ok other =>
      rw [registerPacket_ok h]
      have hne : opcode ≠ other := by
        rintro rfl
        exact hv (hdistinct v hmem (ht ▸ h))
      exact (Function.update_of_ne hne ..).trans hset

end Packets

/-- A registered packet: its structure begins with its opcode, which no other one has. -/
structure Registered (locals : String → Option PacketStructure) (processed : List String)
    (packetId : String) (opcode : ℕ) (fields : List Field) : Prop where
  listed : packetId ∈ processed
  structured : ∃ type, locals packetId = some (⟨"PacketId", type, some (.number opcode)⟩ :: fields)
  word : opcode < 2 ^ 16
  distinct : ∀ v ∈ processed, fieldOpCode locals v = .ok (.number opcode) → v = packetId

variable {processed : List String} {packetId : String} {opcode : ℕ} {fields : List Field}

theorem Registered.fieldOpCode (h : Registered locals processed packetId opcode fields) :
    fieldOpCode locals packetId = .ok (.number opcode) := by
  obtain ⟨type, hlocal⟩ := h.structured
  rw [Packets.fieldOpCode, hlocal]
  rfl

theorem Registered.opCodes (h : Registered locals processed packetId opcode fields) :
    (register locals processed).opCodes packetId = some (.number opcode) :=
  foldl_opCodes h.fieldOpCode (.inl h.listed)

theorem Registered.packetIds (h : Registered locals processed packetId opcode fields) :
    (register locals processed).packetIds (.number opcode) = some packetId :=
  foldl_packetIds h.fieldOpCode h.distinct (.inl h.listed)

theorem Registered.locals_eq (h : Registered locals processed packetId opcode fields) :
    ∃ type, (register locals processed).locals packetId =
      some (⟨"PacketId", type, some (.number opcode)⟩ :: fields) := by
  rw [register, foldl_locals]
  exact h.structured

/-- The entry of the opcode. -/
def opcodeEntry (opcode : ℕ) (h : opcode < 2 ^ 16) : Entry :=
  .number .word opcode h (h.le.trans (by norm_num))

variable {data : LuaTable} {entries : List Entry}

theorem serializeField_eq {f : Field} {e : Entry} (h : f.Carries data e) (i : ℕ) :
    serializeField rt packetId data i f = e.write rt := by
  obtain ⟨htype, hvalue⟩ := h
  unfold serializeField
  rw [htype, hvalue]
  cases e with
  | number t n fits exact => cases t <;> rfl
  | text str terminated short => rfl

theorem serializeFields_eq (tables : PacketTables) (h : List.Forall₂ (Field.Carries data) fields entries)
    {i : ℕ} (hi : i ≠ 0) :
    serializeFields rt tables packetId data (i + 1) fields = writeEntries rt entries := by
  induction h generalizing i with
  | nil => rfl
  | cons hcarries _ ih =>
    rw [serializeFields, if_neg (by omega), serializeField_eq hcarries, ih (by omega)]
    rfl

/-- The whole packet is its opcode and its entries, written one after the other. -/
theorem serialize_eq (hreg : Registered locals processed packetId opcode fields)
    (h : List.Forall₂ (Field.Carries data) fields entries) :
    serialize rt (register locals processed) packetId data =
      match (writeEntries rt (opcodeEntry opcode hreg.word :: entries)).run
          ⟨none, 0, 0, true, true, true⟩ with
      | .ok _ buffer => .ok (BufferWriter.getBuffer buffer)
      | .error e _ => .error e := by
  obtain ⟨type, hlocal⟩ := hreg.locals_eq
  have hnew : ByteStream.new rt 0 true true = .ok ⟨none, 0, 0, true, true, true⟩ := rfl
  have hfields : serializeFields rt (register locals processed) packetId data 1
      (⟨"PacketId", type, some (.number opcode)⟩ :: fields) =
        writeEntries rt (opcodeEntry opcode hreg.word :: entries) := by
    rw [serializeFields, if_pos rfl, serializeFields_eq _ h one_ne_zero, hreg.opCodes]
    rfl
  have hbind : ∀ f : ByteStreamBuffer → Except Abort ByteStreamBuffer,
      (Except.ok ⟨none, 0, 0, true, true, true⟩ >>= f) = f ⟨none, 0, 0, true, true, true⟩ :=
    fun _ => rfl
  rw [serialize, hnew, hbind, hlocal]
  generalize writeEntries rt (opcodeEntry opcode hreg.word :: entries) = written at hfields ⊢
  subst hfields
  rfl

theorem holds_empty : Holds ⟨none, 0, 0, true, true, true⟩ [] (List.replicate 0 0) :=
  ⟨⟨rfl, .inl ⟨rfl, rfl⟩⟩, rfl⟩

/-- The values of the fields, put into a table in the order of the structure. -/
def assign (result : LuaTable) : List Field → List LuaValue → LuaTable
  | f :: fields, v :: vs => assign (Function.update result f.name (some v)) fields vs
  | _, _ => result

theorem deserializeField_eq {f : Field} {e : Entry} (h : f.Carries data e) (i : ℕ) :
    deserializeField packetId i f = e.read := by
  obtain ⟨htype, -⟩ := h
  unfold deserializeField
  rw [htype]
  cases e with
  | number t n fits exact => cases t <;> rfl
  | text str terminated short => rfl

theorem deserializeFields_run (tables : PacketTables)
    (h : List.Forall₂ (Field.Carries data) fields entries) {i : ℕ} (hi : i ≠ 0) (result : LuaTable) :
    (deserializeFields tables packetId (i + 1) fields result).run s =
      match (readEntries entries).run s with
      | .ok vs s' => .ok (assign result fields vs) s'
      | .error e s' => .error e s' := by
  induction h generalizing i result s with
  | nil => rfl
  | @cons f e fields entries hcarries _ ih =>
    rw [deserializeFields, if_neg (by omega), deserializeField_eq hcarries, readEntries]
    cases hread : e.read.run s with
    | error a s' => rw [run_bind_error hread, run_bind_error hread]
    | ok v s' =>
      rw [run_bind_ok hread, run_bind_ok hread, ih (by omega)]
      cases hrest : (readEntries entries).run s' with
      | error a s'' => rw [run_bind_error hrest]
      | ok vs s'' =>
        rw [run_bind_ok hrest]
        rfl

theorem assign_of_notMem {result : LuaTable} {vs : List LuaValue} {name : String}
    (h : name ∉ fields.map Field.name) : assign result fields vs name = result name := by
  induction fields generalizing result vs with
  | nil => rfl
  | cons f fields ih =>
    rw [List.map_cons, List.mem_cons, not_or] at h
    cases vs with
    | nil => rfl
    | cons v vs => rw [assign, ih h.2, Function.update_of_ne h.1]

/-- The table holds the values that were expected exactly when they are those that were read. -/
theorem assign_iff (h : List.Forall₂ (Field.Carries data) fields entries)
    (hnames : (fields.map Field.name).Nodup) {vs : List LuaValue} (hlen : vs.length = entries.length)
    (result : LuaTable) :
    (∀ f ∈ fields, assign result fields vs f.name = f.value data) ↔ vs = entries.map Entry.value := by
  induction h generalizing vs result with
  | nil =>
    rw [List.length_nil, List.length_eq_zero_iff] at hlen
    subst hlen
    exact ⟨fun _ => rfl, fun _ => nofun⟩
  | @cons f e fields entries hcarries _ ih =>
    obtain ⟨v, vs, rfl⟩ := List.exists_cons_of_length_eq_add_one hlen
    rw [List.map_cons, List.nodup_cons] at hnames
    rw [List.forall_mem_cons, List.map_cons, List.cons.injEq, assign, assign_of_notMem hnames.1,
      Function.update_self, hcarries.2, Option.some.injEq]
    exact and_congr_right fun _ => ih hnames.2 (Nat.succ_injective hlen) _

theorem length_of_readEntries {vs : List LuaValue} {s' : ByteStreamBuffer}
    (h : (readEntries entries).run s = .ok vs s') : vs.length = entries.length := by
  induction entries generalizing s vs s' with
  | nil =>
    cases h
    rfl
  | cons e entries ih =>
    rw [readEntries] at h
    cases hread : e.read.run s with
    | error a s₁ =>
      rw [run_bind_error hread] at h
      cases h
    | ok v s₁ =>
      rw [run_bind_ok hread] at h
      cases hrest : (readEntries entries).run s₁ with
      | error a s₂ =>
        rw [run_bind_error hrest] at h
        cases h
      | ok ws s₂ =>
        rw [run_bind_ok hrest] at h
        cases h
        rw [List.length_cons, List.length_cons, ih hrest]

/-- A packet survives a platform: it is written, its name is found, and the table that is read back
has the opcode and every value that was given or is the default, and nothing else. -/
def RoundTripsOn (rt : LuaRuntime) (tables : PacketTables) (packetId : String) (opcode : ℕ)
    (fields : List Field) (data : LuaTable) : Prop :=
  ∃ r r' r'' result, serialize rt tables packetId data = .ok r ∧
    (getPacketId tables).run r = .ok packetId r' ∧
    (deserialize tables packetId).run r' = .ok result r'' ∧
    result "PacketId" = some (.number opcode) ∧
    (∀ f ∈ fields, result f.name = f.value data) ∧
    ∀ name, name ≠ "PacketId" → name ∉ fields.map Field.name → result name = none

/-- A packet survives every platform on which buffers of less than 2^31 bytes can be had. -/
def RoundTrips (tables : PacketTables) (packetId : String) (opcode : ℕ) (fields : List Field)
    (data : LuaTable) : Prop :=
  ∀ rt : LuaRuntime, (∀ n < 2 ^ 31, (rt.malloc n).isSome) →
    RoundTripsOn rt tables packetId opcode fields data

/-- What a packet that survives must be like: every number an `int`, nothing that is read too
early, and a buffer whose size an `int` can tell. -/
def Survives (entries : List Entry) : Prop :=
  (∀ e ∈ entries, e.InRange) ∧ StaysAligned entries ∧ packetSize entries < 2 ^ 31

instance : DecidablePred Survives := fun entries =>
  inferInstanceAs (Decidable ((∀ e ∈ entries, e.InRange) ∧ StaysAligned entries ∧
    packetSize entries < 2 ^ 31))

theorem entriesBytes_opcode (h : opcode < 2 ^ 16) (entries : List Entry) :
    entriesBytes (opcodeEntry opcode h :: entries) = encodeNat true 2 opcode ++ entriesBytes entries :=
  rfl

theorem packetSize_opcode (h : opcode < 2 ^ 16) (entries : List Entry) :
    (entriesBytes (opcodeEntry opcode h :: entries)).length +
      roomLeftAll 0 (opcodeEntry opcode h :: entries) = packetSize entries := by
  rw [entriesBytes_opcode, List.length_append, length_encodeNat]
  rfl

/-- With memory enough, `Serialize` returns a reader over what the entries are sent as. -/
theorem serialize_run (hreg : Registered locals processed packetId opcode fields)
    (h : List.Forall₂ (Field.Carries data) fields entries) {sent : List (List UInt8)}
    (hsend : List.Forall₂ (Entry.Sends rt) entries sent) (hfit : packetSize entries < 2 ^ 31)
    (hm : ∀ n < 2 ^ 31, (rt.malloc n).isSome) :
    ∃ r, serialize rt (register locals processed) packetId data = .ok r ∧ r.bigEndian = true ∧
      Facing r [] (encodeNat true 2 opcode ++
        (sent.flatten ++ List.replicate (roomLeftAll 0 entries) 0)) := by
  have hsize := packetSize_opcode hreg.word entries
  have hopcode : (opcodeEntry opcode hreg.word).InRange := hreg.word.trans (by norm_num)
  obtain ⟨w, hrun, hafter⟩ := writeEntries_run (.cons (Entry.sends_bytes hopcode) hsend) holds_empty rfl rfl
    (by rw [List.length_nil, Nat.zero_add, hsize]; exact hfit) hm
  have hbytes : (opcodeEntry opcode hreg.word).bytes = encodeNat true 2 opcode := rfl
  have hroom : roomLeftAll 0 (opcodeEntry opcode hreg.word :: entries) = roomLeftAll 0 entries := rfl
  rw [List.nil_append, List.flatten_cons, hbytes, hroom] at hafter
  have hlen : sent.flatten.length = (entriesBytes entries).length := length_flatten_sent hsend
  have hreader := hafter.newReader (by rw [List.length_append, length_encodeNat]; omega) (by
    rw [List.length_append, length_encodeNat, List.length_replicate, hlen]
    exact hfit) true
  rw [List.append_assoc] at hreader
  refine ⟨BufferWriter.getBuffer w, ?_, rfl, ⟨hreader.buffer, hreader.bufferSize, hreader.idx⟩⟩
  rw [serialize_eq hreg h, hrun]

/-- `GetPacketId` finds the name of the packet, and leaves the reader behind the opcode. -/
theorem getPacketId_run (hreg : Registered locals processed packetId opcode fields) {rest : List UInt8}
    (h : Facing s [] (encodeNat true 2 opcode ++ rest)) (hbig : s.bigEndian = true) :
    ∃ s', (getPacketId (register locals processed)).run s = .ok packetId s' ∧
      Facing s' (encodeNat true 2 opcode) rest ∧ s'.bigEndian = true := by
  obtain ⟨s', hrun, hafter, hbig', -⟩ := NumberType.read_run h .word (length_encodeNat _ _ _) hbig
    (by rw [length_encodeNat]; decide)
  rw [decodeNat_encodeNat true hreg.word] at hrun
  have hread : BufferReader.readWord.run s = .ok (.number opcode) s' := hrun
  refine ⟨s', ?_, hafter, hbig'⟩
  rw [getPacketId, run_bind_ok hread, hreg.packetIds]
  rfl

/-- `Deserialize` begins with the opcode, and then reads the fields. -/
theorem deserialize_run (hreg : Registered locals processed packetId opcode fields)
    (h : List.Forall₂ (Field.Carries data) fields entries) :
    (deserialize (register locals processed) packetId).run s =
      match (readEntries entries).run s with
      | .ok vs s' => .ok (assign (Function.update (fun _ => none) "PacketId" (some (.number opcode)))
          fields vs) s'
      | .error e s' => .error e s' := by
  obtain ⟨type, hlocal⟩ := hreg.locals_eq
  unfold deserialize
  rw [hlocal]
  dsimp only
  rw [deserializeFields, if_pos rfl, hreg.opCodes]
  exact deserializeFields_run _ h one_ne_zero _

/-- What was serialized comes back exactly when its reads stay aligned. -/
theorem roundTripsOn_iff (hreg : Registered locals processed packetId opcode fields)
    (hnames : ("PacketId" :: fields.map Field.name).Nodup)
    (h : List.Forall₂ (Field.Carries data) fields entries) (hin : ∀ e ∈ entries, e.InRange)
    (hfit : packetSize entries < 2 ^ 31) (hm : ∀ n < 2 ^ 31, (rt.malloc n).isSome) :
    RoundTripsOn rt (register locals processed) packetId opcode fields data ↔ StaysAligned entries := by
  obtain ⟨r, hserialize, hbig, hface⟩ := serialize_run hreg h (sends_entriesBytes hin) hfit hm
  rw [← List.flatMap_def] at hface
  obtain ⟨r', hget, hface', hbig'⟩ := getPacketId_run hreg hface hbig
  have hread := readEntries_iff hface' hbig' (by
    rw [length_encodeNat, List.length_replicate]
    exact hfit)
  obtain ⟨hpid, hnames⟩ := List.nodup_cons.mp hnames
  have htable := deserialize_run (s := r') hreg h
  rw [← hread]
  constructor
  · rintro ⟨r₀, r₁, r₂, result, hser, hid, hdes, -, hvalues, -⟩
    rw [hserialize] at hser
    obtain rfl := Except.ok.inj hser
    rw [hget] at hid
    cases hid
    rw [htable] at hdes
    cases hvs : (readEntries entries).run r' with
    | error e s' =>
      rw [hvs] at hdes
      cases hdes
    | ok vs s' =>
      rw [hvs] at hdes
      cases hdes
      rw [assign_iff h hnames (length_of_readEntries hvs)] at hvalues
      exact ⟨_, by rw [hvalues]⟩
  · rintro ⟨r'', hvs⟩
    rw [hvs] at htable
    refine ⟨r, r', r'', _, hserialize, hget, htable, ?_, ?_, ?_⟩
    · rw [assign_of_notMem hpid, Function.update_self]
    · exact (assign_iff h hnames (by rw [List.length_map]) _).mpr rfl
    · intro name hne hnot
      rw [assign_of_notMem hnot, Function.update_of_ne hne]

/-- On the strict platform, what is written at all is in range and fits. -/
theorem inRange_of_serialize (hreg : Registered locals processed packetId opcode fields)
    (h : List.Forall₂ (Field.Carries data) fields entries) {r : ByteStreamBuffer}
    (hserialize : serialize strictRuntime (register locals processed) packetId data = .ok r) :
    (∀ e ∈ entries, e.InRange) ∧ packetSize entries < 2 ^ 31 := by
  rw [serialize_eq hreg h] at hserialize
  cases hrun : (writeEntries strictRuntime (opcodeEntry opcode hreg.word :: entries)).run
      ⟨none, 0, 0, true, true, true⟩ with
  | error e s' =>
    rw [hrun] at hserialize
    cases hserialize
  | ok u s' =>
    obtain ⟨hin, hfit⟩ := writeEntries_strict strictRuntime_strict strictRuntime_serves holds_empty
      rfl rfl (by decide) hrun
    rw [List.length_nil, Nat.zero_add, packetSize_opcode] at hfit
    exact ⟨fun e he => hin e (List.mem_cons_of_mem _ he), hfit⟩

/-- A packet survives every platform exactly when its numbers are below 2^31, its first string is
not a single byte and has only zeros and empty strings behind it, and its buffer is smaller than
2^31 bytes. The last is necessary only as a platform may refuse larger blocks. -/
theorem packet_round_trip_iff (hreg : Registered locals processed packetId opcode fields)
    (hnames : ("PacketId" :: fields.map Field.name).Nodup)
    (h : List.Forall₂ (Field.Carries data) fields entries) :
    RoundTrips (register locals processed) packetId opcode fields data ↔ Survives entries := by
  constructor
  · intro htrips
    have hstrict := htrips strictRuntime strictRuntime_serves
    obtain ⟨r, -, -, -, hserialize, -⟩ := hstrict
    obtain ⟨hin, hfit⟩ := inRange_of_serialize hreg h hserialize
    have haligned := (roundTripsOn_iff hreg hnames h hin hfit strictRuntime_serves).mp
      (htrips strictRuntime strictRuntime_serves)
    exact ⟨hin, haligned, hfit⟩
  · rintro ⟨hin, haligned, hfit⟩ rt hm
    exact (roundTripsOn_iff hreg hnames h hin hfit hm).mpr haligned

/-- The values of a login request. -/
def loginRequestData (sessionKey sessionId sessionLocale : ℕ) (sessionProtocol : List UInt8) : LuaTable
  | "SessionKey" => some (.number sessionKey)
  | "SessionId" => some (.number sessionId)
  | "SessionLocale" => some (.number sessionLocale)
  | "SessionProtocol" => some (.string sessionProtocol)
  | _ => none

theorem loginRequest_registered : Registered LoginServer.locals LoginServer.processedPackets
    "LoginRequest" 0x0001 LoginServer.loginRequest.tail := by
  constructor
  · decide
  · exact ⟨.number .word, rfl⟩
  · decide
  · intro v hv hop
    simp only [LoginServer.processedPackets, List.mem_cons, List.not_mem_nil, or_false] at hv
    rcases hv with rfl | rfl | rfl
    · cases hop
    · rfl
    · cases hop

theorem packet_round_trip_example :
    RoundTrips LoginServer.tables "LoginRequest" 0x0001 LoginServer.loginRequest.tail
        (loginRequestData 7 0x7FFFFFFF 9 [76, 111]) ↔
      Survives [.number .dword 7 (by decide) (by decide),
        .number .dword 0x7FFFFFFF (by decide) (by decide), .number .dword 9 (by decide) (by decide),
        .text [76, 111] (by decide) (by decide)] :=
  packet_round_trip_iff loginRequest_registered (by decide)
    (.cons ⟨rfl, rfl⟩ (.cons ⟨rfl, rfl⟩ (.cons ⟨rfl, rfl⟩ (.cons ⟨rfl, rfl⟩ .nil))))

/-- A login request whose protocol is one byte long comes back without it. -/
theorem short_protocol_lost :
    ¬RoundTrips LoginServer.tables "LoginRequest" 0x0001 LoginServer.loginRequest.tail
      (loginRequestData 7 8 9 [65]) := by
  intro htrips
  have hcarries : List.Forall₂ (Field.Carries (loginRequestData 7 8 9 [65]))
      LoginServer.loginRequest.tail [.number .dword 7 (by decide) (by decide),
        .number .dword 8 (by decide) (by decide), .number .dword 9 (by decide) (by decide),
        .text [65] (by decide) (by decide)] :=
    .cons ⟨rfl, rfl⟩ (.cons ⟨rfl, rfl⟩ (.cons ⟨rfl, rfl⟩ (.cons ⟨rfl, rfl⟩ .nil)))
  have haligned := (roundTripsOn_iff loginRequest_registered (by decide) hcarries (by decide)
    (by decide) strictRuntime_serves).mp (htrips strictRuntime strictRuntime_serves)
  exact absurd haligned (by decide)

end H1Z1Server
