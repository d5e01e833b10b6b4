import H1Z1Server.LoginServer.PacketRoundTrip

/-! The size of a serialized packet: the spare bytes that strings leave in the buffer of the writer,
and the packets that leave none. -/
namespace H1Z1Server
open MachineInt MemoryBlock ByteOrder ByteStreamBuffer LuaStream Packets

variable {rt : LuaRuntime} {s : ByteStreamBuffer} {log : List UInt8} {k : ℕ} {data : LuaTable}
  {packetId : String} {fields : List Field}

/-- A value in the range of an element: a number that its type holds, or a string. -/
inductive Content where
  | number (t : NumberType) (n : ℕ) (fits : n < 256 ^ t.width)
  | text (str : List UInt8) (short : str.length < 2 ^ 63)

namespace Content

def type : Content → Types
  | number t _ _ => .number t
  | text _ _ => .string

def value : Content → LuaValue
  | number _ n _ => .number n
  | text str _ => .string str

/-- The bytes of an element: its width, or the length of the string and one. -/
def size : Content → ℕ
  | number t _ _ => t.width
  | text str _ => str.length + 1

/-- The room that the writer makes sure of before it writes an element. -/
def need : Content → ℕ
  | number t _ _ => t.width
  | text str _ => str.length + 4

/-- The spare bytes behind an element that found `k` of them. -/
def spare (k : ℕ) (c : Content) : ℕ := (if k < c.need then k + c.need else k) - c.size

theorem size_le_need (c : Content) : c.size ≤ c.need := by
  cases c with
  | number t n fits => exact le_rfl
  | text str short => exact Nat.add_le_add_left (by norm_num) _

theorem size_add_spare (k : ℕ) (c : Content) :
    c.size + c.spare k = if k < c.need then k + c.need else k := by
  have hle := c.size_le_need
  unfold spare
  split <;> omega

end Content

/-- The element has this type in the structure, and this value in the table or by default. -/
def Field.Takes (data : LuaTable) (f : Field) (c : Content) : Prop :=
  f.type = c.type ∧ f.value data = some c.value

def contentSize (contents : List Content) : ℕ := (contents.map Content.size).sum

def spareAll : ℕ → List Content → ℕ
  | k, [] => k
  | k, c :: contents => spareAll (c.spare k) contents

/-- The elements use up the spare bytes. A string leaves three behind itself, on top of those that
were not enough for it or else less its size; a number takes its width of them if there are enough,
and none otherwise. -/
def Snug : ℕ → List Content → Prop
  | k, [] => k = 0
  | k, .number t _ _ :: contents => Snug (if k < t.width then k else k - t.width) contents
  | k, .text str _ :: contents =>
    Snug (if k < str.length + 4 then k + 3 else k - (str.length + 1)) contents

instance decidableSnug : (k : ℕ) → (contents : List Content) → Decidable (Snug k contents)
  | k, [] => inferInstanceAs (Decidable (k = 0))
  | _, .number _ _ _ :: contents => decidableSnug _ contents
  | _, .text _ _ :: contents => decidableSnug _ contents

theorem contentSize_cons (c : Content) (contents : List Content) :
    contentSize (c :: contents) = c.size + contentSize contents := by
  simp [contentSize]

theorem spareAll_eq_zero_iff (k : ℕ) (contents : List Content) :
    spareAll k contents = 0 ↔ Snug k contents := by
  induction contents generalizing k with
  | nil => rfl
  | cons c contents ih =>
    rw [spareAll, ih]
    cases c with
    | number t n fits =>
      have hspare : (Content.number t n fits).spare k = if k < t.width then k else k - t.width := by
        by_cases hlt : k < t.width <;> simp [Content.spare, Content.need, Content.size, hlt]
      rw [hspare, Snug]
    | text str short =>
      have hspare : (Content.text str short).spare k =
          if k < str.length + 4 then k + 3 else k - (str.length + 1) := by
        by_cases hlt : k < str.length + 4
        · simp only [Content.spare, Content.need, Content.size, hlt, if_true]
          omega
        · simp only [Content.spare, Content.need, Content.size, hlt, if_false]
      rw [hspare, Snug]

/-- The buffer of a packet never shrinks. -/
theorem le_spareAll (k : ℕ) (contents : List Content) :
    k ≤ contentSize contents + spareAll k contents := by
  induction contents generalizing k with
  | nil => exact Nat.le_add_left _ _
  | cons c contents ih =>
    have hstep := c.size_add_spare k
    have hrest := ih (c.spare k)
    rw [contentSize_cons, spareAll]
    split at hstep <;> omega

/-- Numbers alone leave no spare bytes. -/
theorem snug_of_numbers {contents : List Content}
    (h : ∀ c ∈ contents, ∃ t n fits, c = .number t n fits) : Snug 0 contents := by
  induction contents with
  | nil => rfl
  | cons c contents ih =>
    rw [List.forall_mem_cons] at h
    obtain ⟨⟨t, n, fits, rfl⟩, hrest⟩ := h
    simpa [Snug] using ih hrest

/-- A string at the end of a packet leaves at least three. -/
theorem not_snug_of_text_last (k : ℕ) (contents : List Content) (str : List UInt8)
    (short : str.length < 2 ^ 63) : ¬Snug k (contents ++ [.text str short]) := by
  induction contents generalizing k with
  | nil =>
    simp only [List.nil_append, Snug]
    split <;> omega
  | cons c contents ih =>
    cases c with
    | number t n fits => exact ih _
    | text str short => exact ih _

theorem serializeField_number (rt : LuaRuntime) (packetId : String) {f : Field} {t : NumberType} {n : ℕ}
    (htype : f.type = .number t) (hvalue : f.value data = some (.number n)) (i : ℕ) :
    ∃ name, serializeField rt packetId data i f =
      checkInt rt name (some (.number n)) >>= fun value => (t.item value).write rt.malloc := by
  have hfield : serializeField rt packetId data i f = BufferWriter.writeNumber rt t (some (.number n)) := by
    unfold serializeField
    rw [htype, hvalue]
    cases t <;> rfl
  rw [hfield]
  exact writeNumber_item rt t _

theorem serializeField_text {f : Field} {str : List UInt8} (htype : f.type = .string)
    (hvalue : f.value data = some (.string str)) (i : ℕ) :
    serializeField rt packetId data i f =
      BufferWriter.writeString rt (some (.string str)) .untilNullTerm := by
  unfold serializeField
  rw [htype, hvalue]

/-- One element, written behind the log of a writer whose room is all zero. -/
theorem serializeField_run (packetId : String) (hconv : ∀ z, (rt.toInt z).isSome) {f : Field} {c : Content}
    (htakes : f.Takes data c) (i : ℕ) (h : Holds s log (List.replicate k 0)) (hbig : s.bigEndian = true)
    (hauto : s.autoBuffer = true) (hidx : log.length + c.size < 2 ^ 31)
    (hgrow : k < c.need → Serves rt.malloc (log.length + k + c.need)) :
    ∃ s' bs, (serializeField rt packetId data i f).run s = .ok () s' ∧ bs.length = c.size ∧
      Holds s' (log ++ bs) (List.replicate (c.spare k) 0) ∧
      s'.bigEndian = true ∧ s'.autoBuffer = true := by
  obtain ⟨htype, hvalue⟩ := htakes
  cases c with
  | number t n fits =>
    obtain ⟨name, hfield⟩ := serializeField_number rt packetId htype hvalue i
    obtain ⟨int, hint⟩ := Option.isSome_iff_exists.mp (hconv n)
    obtain ⟨s', hrun, hafter⟩ := writeNumber_run name t hint h hbig hauto hidx hgrow
    exact ⟨s', _, by rw [hfield, hrun], length_encode_item t int, hafter⟩
  | text str short =>
    obtain ⟨s', hrun, hafter⟩ := writeText_run str h hbig hauto
      (by simp only [Content.size] at hidx; omega) hgrow
    exact ⟨s', _, by rw [serializeField_text htype hvalue, hrun], by simp [Content.size], hafter⟩

/-- The elements of a packet behind its opcode. -/
theorem serializeFields_run (packetId : String) (hconv : ∀ z, (rt.toInt z).isSome)
    (hm : ∀ n < 2 ^ 31, (rt.malloc n).isSome)
    (tables : PacketTables) {contents : List Content}
    (htakes : List.Forall₂ (Field.Takes data) fields contents) {i : ℕ} (hi : i ≠ 0)
    (h : Holds s log (List.replicate k 0)) (hbig : s.bigEndian = true) (hauto : s.autoBuffer = true)
    (hfit : log.length + contentSize contents + spareAll k contents < 2 ^ 31) :
    ∃ s' bs, (serializeFields rt tables packetId data (i + 1) fields).run s = .ok () s' ∧
      bs.length = contentSize contents ∧
      Holds s' (log ++ bs) (List.replicate (spareAll k contents) 0) := by
  induction htakes generalizing s log k i with
  | nil => exact ⟨s, [], rfl, rfl, by rwa [List.append_nil]⟩
  | @cons f c fields contents hhead _ ih =>
    rw [contentSize_cons, spareAll] at hfit
    have hstep := c.size_add_spare k
    have hrest := le_spareAll (c.spare k) contents
    have hgrow : k < c.need → Serves rt.malloc (log.length + k + c.need) := by
      intro hlt
      rw [if_pos hlt] at hstep
      exact ⟨by omega, hm _ (by omega)⟩
    obtain ⟨s₁, bs, hwrite, hlen, h₁, hbig₁, hauto₁⟩ :=
      serializeField_run packetId hconv hhead (i + 1) h hbig hauto (by omega) hgrow
    obtain ⟨s₂, bs', hrun, hlen', h₂⟩ := ih (Nat.succ_ne_zero i) h₁ hbig₁ hauto₁
      (by rw [List.length_append]; omega)
    refine ⟨s₂, bs ++ bs', ?_, ?_, ?_⟩
    · rw [serializeFields, if_neg (by omega), run_bind_ok hwrite, hrun]
    · rw [List.length_append, contentSize_cons, hlen, hlen']
    · rw [← List.append_assoc]
      exact h₂

/-- Without memory from 2^31 bytes on, an element that asks for it is not written. -/
theorem serializeField_starved (hconv : ∀ z, (rt.toInt z).isSome)
    (hmalloc : ∀ n, 2 ^ 31 ≤ n → rt.malloc n = none) {f : Field} {c : Content}
    (htakes : f.Takes data c) (i : ℕ) (h : Holds s log (List.replicate k 0))
    (hauto : s.autoBuffer = true) (hsize : log.length + k < 2 ^ 31) (hshort : k < c.need)
    (hlarge : 2 ^ 31 ≤ log.length + k + c.need) :
    (serializeField rt packetId data i f).run s = .error .undefinedBehaviour s := by
  have hroom : (List.replicate k (0 : UInt8)).length = k := List.length_replicate
  have hm := hmalloc _ hlarge
  obtain ⟨htype, hvalue⟩ := htakes
  rw [← hroom] at hshort hsize hm
  cases c with
  | number t n fits =>
    obtain ⟨name, hfield⟩ := serializeField_number rt packetId htype hvalue i
    obtain ⟨int, hint⟩ := Option.isSome_iff_exists.mp (hconv n)
    have hwidth : t.width ≤ 8 := by cases t <;> decide
    rw [hfield, run_bind_ok (checkInt_run name hint)]
    exact item_write_starved h hauto t int hshort (by omega) hm
  | text str short =>
    rw [serializeField_text htype hvalue]
    exact writeString_starved h .untilNullTerm hshort (by simp only [Content.need] at *; omega) hm

/-- On such a platform a packet is written only if its buffer stays below that. -/
theorem serializeFields_starved (hconv : ∀ z, (rt.toInt z).isSome)
    (hm : ∀ n < 2 ^ 31, (rt.malloc n).isSome) (hmalloc : ∀ n, 2 ^ 31 ≤ n → rt.malloc n = none)
    (tables : PacketTables) {contents : List Content}
    (htakes : List.Forall₂ (Field.Takes data) fields contents) {i : ℕ} (hi : i ≠ 0)
    (h : Holds s log (List.replicate k 0)) (hbig : s.bigEndian = true) (hauto : s.autoBuffer = true)
    (hsize : log.length + k < 2 ^ 31) {s' : ByteStreamBuffer}
    (hrun : (serializeFields rt tables packetId data (i + 1) fields).run s = .ok () s') :
    log.length + contentSize contents + spareAll k contents < 2 ^ 31 := by
  induction htakes generalizing s log k i with
  | nil => exact hsize
  | @cons f c fields contents hhead _ ih =>
    have hstep := c.size_add_spare k
    rw [serializeFields, if_neg (by omega)] at hrun
    by_cases hlarge : k < c.need ∧ 2 ^ 31 ≤ log.length + k + c.need
    · rw [run_bind_error (serializeField_starved hconv hmalloc hhead (i + 1) h hauto hsize hlarge.1
        hlarge.2)] at hrun
      cases hrun
    · have hgrow : k < c.need → Serves rt.malloc (log.length + k + c.need) := by
        intro hlt
        have hsmall : ¬2 ^ 31 ≤ log.length + k + c.need := fun hle => hlarge ⟨hlt, hle⟩
        exact ⟨by omega, hm _ (by omega)⟩
      have hnext : log.length + c.size + c.spare k < 2 ^ 31 := by
        split at hstep <;> omega
      obtain ⟨s₁, bs, hwrite, hlen, h₁, hbig₁, hauto₁⟩ :=
        serializeField_run packetId hconv hhead (i + 1) h hbig hauto (by omega) hgrow
      rw [run_bind_ok hwrite] at hrun
      have hrest := ih (Nat.succ_ne_zero i) h₁ hbig₁ hauto₁
        (by rw [List.length_append, hlen]; exact hnext) hrun
      rw [List.length_append, hlen] at hrest
      rw [contentSize_cons, spareAll]
      omega

/-- The opcode is the first word of every packet. -/
theorem writeOpcode_run (hconv : ∀ z, (rt.toInt z).isSome) (hm : ∀ n < 2 ^ 31, (rt.malloc n).isSome)
    (opcode : ℕ) :
    ∃ s' bs, (BufferWriter.writeWord rt (some (.number opcode))).run ⟨none, 0, 0, true, true, true⟩ =
        .ok () s' ∧
      bs.length = 2 ∧ Holds s' bs (List.replicate 0 0) ∧ s'.bigEndian = true ∧ s'.autoBuffer = true := by
  obtain ⟨int, hint⟩ := Option.isSome_iff_exists.mp (hconv opcode)
  obtain ⟨s', hrun, hafter⟩ := writeNumber_run "WriteWord" .word hint holds_empty rfl rfl (by decide)
    (fun _ => ⟨by decide, hm _ (by decide)⟩)
  exact ⟨s', _, hrun, length_encode_item .word int, hafter⟩

/-- A packet structure among the locals: the opcode, and the fields behind it. -/
structure Listed (locals : String → Option PacketStructure) (processed : List String)
    (packetId : String) (opcode : ℕ) (fields : List Field) : Prop where
  listed : packetId ∈ processed
  structured : ∃ type, locals packetId = some (⟨"PacketId", type, some (.number opcode)⟩ :: fields)

variable {locals : String → Option PacketStructure} {processed : List String} {opcode : ℕ}

theorem Listed.opCodes (h : Listed locals processed packetId opcode fields) :
    (register locals processed).opCodes packetId = some (.number opcode) := by
  obtain ⟨type, hlocal⟩ := h.structured
  have hop : fieldOpCode locals packetId = .ok (.number opcode) := by
    rw [fieldOpCode, hlocal]
    rfl
  exact foldl_opCodes hop (.inl h.listed)

/-- The opcode, and then the fields: what `Serialize` writes into a new writer. -/
theorem serialize_listed (h : Listed locals processed packetId opcode fields) :
    serialize rt (register locals processed) packetId data =
      match (BufferWriter.writeWord rt (some (.number opcode)) >>= fun _ =>
          serializeFields rt (register locals processed) packetId data 2 fields).run
            ⟨none, 0, 0, true, true, true⟩ with
      | .ok _ buffer => .ok (BufferWriter.getBuffer buffer)
      | .error e _ => .error e := by
  obtain ⟨type, hlocal⟩ := h.structured
  have hlocal' : (register locals processed).locals packetId =
      some (⟨"PacketId", type, some (.number opcode)⟩ :: fields) := by
    rw [register, foldl_locals]
    exact hlocal
  have hnew : ByteStream.new rt 0 true true = .ok ⟨none, 0, 0, true, true, true⟩ := rfl
  have hbind : ∀ f : ByteStreamBuffer → Except Abort ByteStreamBuffer,
      (Except.ok ⟨none, 0, 0, true, true, true⟩ >>= f) = f ⟨none, 0, 0, true, true, true⟩ :=
    fun _ => rfl
  have hfields : serializeFields rt (register locals processed) packetId data 1
      (⟨"PacketId", type, some (.number opcode)⟩ :: fields) =
        (BufferWriter.writeWord rt (some (.number opcode)) >>= fun _ =>
          serializeFields rt (register locals processed) packetId data 2 fields) := by
    rw [serializeFields, if_pos rfl, h.opCodes]
    rfl
  rw [serialize, hnew, hbind, hlocal']
  generalize (BufferWriter.writeWord rt (some (.number opcode)) >>= fun _ =>
    serializeFields rt (register locals processed) packetId data 2 fields) = written at hfields ⊢
  subst hfields
  rfl

/-- Two bytes, the elements and their spare bytes: what the reader of a packet holds. -/
theorem serialize_size (hconv : ∀ z, (rt.toInt z).isSome) (hm : ∀ n < 2 ^ 31, (rt.malloc n).isSome)
    (hlisted : Listed locals processed packetId opcode fields) {contents : List Content}
    (htakes : List.Forall₂ (Field.Takes data) fields contents)
    (hfit : 2 + contentSize contents + spareAll 0 contents < 2 ^ 31) :
    ∃ r, serialize rt (register locals processed) packetId data = .ok r ∧
      r.getBufferSize.toInt = ((2 + contentSize contents + spareAll 0 contents : ℕ) : ℤ) := by
  obtain ⟨s₁, opBytes, hop, hlen, h₁, hbig, hauto⟩ := writeOpcode_run hconv hm opcode
  obtain ⟨w, bs, hrun, hsize, h₂⟩ := serializeFields_run packetId hconv hm
    (register locals processed) htakes one_ne_zero h₁ hbig hauto (by rw [hlen]; exact hfit)
  have hbytes : w.bufferSize.toNat = 2 + contentSize contents + spareAll 0 contents := by
    rw [h₂.backed.1]
    simp only [List.length_append, List.length_replicate, hlen, hsize]
  have hint : (narrow w.bufferSize).toInt = w.bufferSize.toNat := toInt_narrow (by omega)
  have hback := toNat_sizeT_of_nonneg (i := narrow w.bufferSize) (by omega)
  refine ⟨BufferWriter.getBuffer w, ?_, ?_⟩
  · rw [serialize_listed hlisted, run_bind_ok hop, hrun]
  · show (narrow (sizeT (narrow w.bufferSize))).toInt = _
    rw [toInt_narrow (by omega), ← hbytes]
    omega

/-- On every platform with memory enough for packets below 2^31 bytes and some `int` for every
number, the reader that `Serialize` returns has exactly `n` bytes. -/
def SerializesTo (tables : PacketTables) (packetId : String) (data : LuaTable) (n : ℕ) : Prop :=
  ∀ rt : LuaRuntime, (∀ z, (rt.toInt z).isSome) → (∀ n < 2 ^ 31, (rt.malloc n).isSome) →
    ∃ r, serialize rt tables packetId data = .ok r ∧ r.getBufferSize.toInt = n

/-- A platform with an `int` for every number, and no memory from 2^31 bytes on. -/
def cappedRuntime : LuaRuntime where
  malloc n := if n < 2 ^ 31 then some fun _ => none else none
  toInt n := some (Int32.ofInt n)
  toInt_exact _ _ _ := rfl
  numeral _ := none
  text _ := []

theorem cappedRuntime_converts (z : ℤ) : (cappedRuntime.toInt z).isSome := rfl

theorem cappedRuntime_serves (n : ℕ) (hn : n < 2 ^ 31) : (cappedRuntime.malloc n).isSome := by
  rw [show cappedRuntime.malloc n = some fun _ => none from if_pos hn]
  rfl

/-- A packet is exactly as long as its encoding when strings leave no spare bytes behind, and its size
is below 2^31, as a platform may refuse larger blocks. -/
theorem packet_size_exact_iff (hlisted : Listed locals processed packetId opcode fields)
    {contents : List Content} (htakes : List.Forall₂ (Field.Takes data) fields contents) :
    SerializesTo (register locals processed) packetId data (2 + contentSize contents) ↔
      Snug 0 contents ∧ 2 + contentSize contents < 2 ^ 31 := by
  constructor
  · intro hexact
    have hconv := cappedRuntime_converts
    have hm := cappedRuntime_serves
    obtain ⟨r, hrun, hsize⟩ := hexact cappedRuntime hconv hm
    have hfit : 2 + contentSize contents + spareAll 0 contents < 2 ^ 31 := by
      obtain ⟨s₁, opBytes, hop, hlen, h₁, hbig, hauto⟩ := writeOpcode_run hconv hm opcode
      rw [serialize_listed hlisted, run_bind_ok hop] at hrun
      cases hfields : (serializeFields cappedRuntime (register locals processed) packetId data 2
          fields).run s₁ with
      | error e s' =>
        rw [hfields] at hrun
        cases hrun
      | ok u s' =>
        have hsmall := serializeFields_starved hconv hm
          (fun n hn => if_neg (not_lt.mpr hn)) (register locals processed) htakes one_ne_zero h₁ hbig hauto
          (by rw [hlen]; decide) hfields
        rwa [hlen] at hsmall
    obtain ⟨r', hrun', hsize'⟩ := serialize_size hconv hm hlisted htakes hfit
    rw [hrun] at hrun'
    cases hrun'
    rw [← spareAll_eq_zero_iff]
    omega
  · rintro ⟨hsnug, hfit⟩ rt hconv hm
    have hnone := (spareAll_eq_zero_iff 0 contents).mpr hsnug
    have hrun := serialize_size hconv hm hlisted htakes (by rw [hnone]; exact hfit)
    rwa [hnone] at hrun

/-- The values of a login reply to session 7. -/
def replyContents : List Content :=
  [.number .dword 7 (by decide), .number .dword 0 (by decide), .number .byte 2 (by decide),
    .number .byte 1 (by decide), .number .byte 0 (by decide), .number .byte 0 (by decide),
    .number .byte 0 (by decide), .number .byte 2 (by decide), .number .dword 0 (by decide),
    .number .byte 3 (by decide)]

def replyData (name : String) : Option LuaValue := if name = "SessionId" then some (.number 7) else none

theorem reply_takes :
    List.Forall₂ (Field.Takes replyData) LoginServer.loginReply.tail replyContents :=
  .cons ⟨rfl, rfl⟩ (.cons ⟨rfl, rfl⟩ (.cons ⟨rfl, rfl⟩ (.cons ⟨rfl, rfl⟩ (.cons ⟨rfl, rfl⟩
    (.cons ⟨rfl, rfl⟩ (.cons ⟨rfl, rfl⟩ (.cons ⟨rfl, rfl⟩ (.cons ⟨rfl, rfl⟩
      (.cons ⟨rfl, rfl⟩ .nil)))))))))

/-- A login reply has no strings, and takes 21 bytes. -/
theorem packet_size_exact_example :
    SerializesTo LoginServer.tables "LoginReply" replyData (2 + contentSize replyContents) :=
  (packet_size_exact_iff (⟨by decide, .number .word, rfl⟩ : Listed LoginServer.locals
    LoginServer.processedPackets "LoginReply" 0x0002 LoginServer.loginReply.tail) reply_takes).mpr
    (by decide)

/-- A login request with the protocol "A" is encoded in 16 bytes, and has three more in its buffer. -/
theorem login_request_padded :
    ¬SerializesTo LoginServer.tables "LoginRequest" (loginRequestData 7 8 9 [65]) 16 := by
  intro hexact
  have hlisted : Listed LoginServer.locals LoginServer.processedPackets "LoginRequest" 0x0001
      LoginServer.loginRequest.tail := ⟨by decide, .number .word, rfl⟩
  have htakes : List.Forall₂ (Field.Takes (loginRequestData 7 8 9 [65])) LoginServer.loginRequest.tail
      [.number .dword 7 (by decide), .number .dword 8 (by decide), .number .dword 9 (by decide),
        .text [65] (by decide)] :=
    .cons ⟨rfl, rfl⟩ (.cons ⟨rfl, rfl⟩ (.cons ⟨rfl, rfl⟩ (.cons ⟨rfl, rfl⟩ .nil)))
  obtain ⟨r, hrun, hlen⟩ := serialize_size cappedRuntime_converts cappedRuntime_serves hlisted htakes
    (by decide)
  obtain ⟨r', hrun', hlen'⟩ := hexact cappedRuntime cappedRuntime_converts cappedRuntime_serves
  cases hrun.symm.trans hrun'
  exact absurd (hlen.symm.trans hlen') (by decide)

end H1Z1Server
