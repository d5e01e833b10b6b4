import H1Z1Server.Stream.Appending

/-! The string writes as one: they make room, check, and copy encoded characters behind a size, in front of a
terminator, or both. -/
namespace H1Z1Server
open MachineInt MemoryBlock ByteOrder ByteStreamBuffer ByteStreamWriter

variable {malloc : Malloc} {s : ByteStreamBuffer} {log room : List UInt8}

/-- The end of a string write: the cursor moves when no index was given. -/
def advance (incrIndex : Bool) (idx : UInt64) : StreamM Unit :=
  if incrIndex then setIdx (narrow idx) else pure ()

/-- What the string writes do once there is room: their checks, and the copying of their mode. -/
def checkedWrite (f : String) (autoResize : Bool) (startIndex : Int32) (bound : UInt64 → UInt64)
    (copy : Int32 → Bool → StreamM Unit) : StreamM Unit := do
  let (startIndex, incrIndex) ← safetyCheck f startIndex
  let s ← get
  if bound (sizeT startIndex) > s.bufferSize && !autoResize then
    throw (.exception (f ++ " tried to write too many bytes to buffer."))
  copy startIndex incrIndex

/-- The bytes that a string of `n` characters of `w` bytes takes in the buffer. -/
def writtenBytes (w n : ℕ) : StringInterpretMode → ℕ
  | .givenSize => 4 + n * w
  | .untilNullTerm => (n + 1) * w
  | .givenSizeNullTerm => 4 + (n + 1) * w

/-- What the string writes copy, by their mode. They differ in how a character is encoded, and in
how they count the bytes of `n` of them. -/
def copyChars {α : Type} (encode : List α → List UInt8) (span : UInt64 → UInt64) (nul : α)
    (str : List α) (mode : StringInterpretMode) (startIndex : Int32) (incrIndex : Bool) :
    StreamM Unit :=
  match mode with
  | .givenSize => do
    store startIndex.toInt (toLE 4 str.length)
    store (startIndex.toInt + 4) (encode str)
    advance incrIndex (sizeT startIndex + span (UInt64.ofNat str.length) + 4)
  | .untilNullTerm => do
    store startIndex.toInt (encode (str ++ [nul]))
    advance incrIndex (sizeT startIndex + span (UInt64.ofNat (str ++ [nul]).length))
  | .givenSizeNullTerm => do
    store startIndex.toInt (toLE 4 ((str ++ [nul]).length - 1))
    store (startIndex.toInt + 4) (encode (str ++ [nul]))
    advance incrIndex (sizeT startIndex + span (UInt64.ofNat (str ++ [nul]).length) + 4)

/-- The bytes of wide characters, in the byte order of the machine. -/
def wideBytes (str : List UInt16) : List UInt8 := str.flatMap fun c => toLE 2 c.toNat

theorem writeString_eq (str : List UInt8) (mode : StringInterpretMode) (autoResize : Bool)
    (startIndex : Int32) (wideStringLE : Bool) :
    writeString malloc str mode autoResize startIndex false wideStringLE =
      autoBufferF malloc (UInt64.ofNat str.length + 4) autoResize >>= fun _ =>
        checkedWrite "ByteStreamWriter::WriteString" autoResize startIndex
          (fun p => p + UInt64.ofNat str.length) (copyChars id id 0 str mode) := by
  cases mode <;> rfl

theorem writeWString_eq (str : List UInt16) (mode : StringInterpretMode) (autoResize : Bool)
    (startIndex : Int32) :
    writeWString malloc str mode autoResize startIndex =
      autoBufferF malloc (UInt64.ofNat str.length * 2 + 4) autoResize >>= fun _ =>
        checkedWrite "ByteStreamWriter::WriteWString" autoResize startIndex
          (fun p => p + UInt64.ofNat str.length + 4) (copyChars wideBytes (· * 2) 0 str mode) := by
  cases mode <;> rfl

@[simp] theorem length_wideBytes (str : List UInt16) : (wideBytes str).length = str.length * 2 := by
  simp [wideBytes, List.length_flatMap]

/-- Characters of `w` bytes, counted without overflow as long as `size_t` holds their bytes. -/
structure Encoding {α : Type} (encode : List α → List UInt8) (span : UInt64 → UInt64) (w : ℕ) : Prop where
  pos : 0 < w
  length : ∀ str, (encode str).length = str.length * w
  span : ∀ n, n * w < 2 ^ 64 → (span (UInt64.ofNat n)).toNat = n * w

theorem narrowChars : Encoding (id : List UInt8 → List UInt8) id 1 := by
  refine ⟨one_pos, fun str => (Nat.mul_one str.length).symm, fun n hlt => ?_⟩
  rw [Nat.mul_one] at hlt ⊢
  exact toNat_ofNat_of_lt hlt

theorem wideChars : Encoding wideBytes (· * 2) 2 := by
  refine ⟨two_pos, length_wideBytes, fun n hlt => ?_⟩
  have hn : (UInt64.ofNat n).toNat = n := toNat_ofNat_of_lt (by omega)
  rw [UInt64.toNat_mul, hn, show (2 : UInt64).toNat = 2 from rfl, Nat.mod_eq_of_lt hlt]

section Copying
variable {α : Type} {encode : List α → List UInt8} {span : UInt64 → UInt64} {w : ℕ}

theorem Encoding.terminated_ne_nil (hc : Encoding encode span w) (str : List α) (nul : α) :
    encode (str ++ [nul]) ≠ [] := by
  intro hnil
  have hzero := hc.length (str ++ [nul])
  rw [hnil, List.length_append, List.length_singleton] at hzero
  exact absurd hzero (Nat.mul_pos (Nat.succ_pos str.length) hc.pos).ne

/-- The bytes that a string is stored as. -/
def stringImage (encode : List α → List UInt8) (nul : α) (str : List α) : StringInterpretMode → List UInt8
  | .givenSize => toLE 4 str.length ++ encode str
  | .untilNullTerm => encode (str ++ [nul])
  | .givenSizeNullTerm => toLE 4 str.length ++ encode (str ++ [nul])

theorem Encoding.length_image (hc : Encoding encode span w) (nul : α) (str : List α)
    (mode : StringInterpretMode) : (stringImage encode nul str mode).length = writtenBytes w str.length mode := by
  cases mode <;> simp [stringImage, writtenBytes, hc.length]

theorem Encoding.written_pos (hc : Encoding encode span w) (n : ℕ) (mode : StringInterpretMode) :
    0 < writtenBytes w n mode := by
  have hpos := Nat.mul_pos (Nat.succ_pos n) hc.pos
  cases mode <;> simp only [writtenBytes] <;> omega

/-- A string is stored behind its size. -/
theorem storeCounted_run (h : Holds s log room) (n : ℕ) (bs : List UInt8) (hle : 4 + bs.length ≤ room.length)
    (idx : UInt64) :
    ∃ s', (do
        store s.idx.toInt (toLE 4 n)
        store (s.idx.toInt + 4) bs
        advance true idx : StreamM Unit).run s = .ok () s' ∧
      Backed s' (log ++ (toLE 4 n ++ bs) ++ room.drop (4 + bs.length)) ∧ s'.idx = narrow idx ∧
      s'.bigEndian = s.bigEndian ∧ s'.autoBuffer = s.autoBuffer := by
  have hfour : (toLE 4 n).length = 4 := length_toLE 4 n
  obtain ⟨s₁, hrun₁, h₁, -, hbig₁, hauto₁⟩ := h.backed.append (toLE 4 n) (by omega) (by omega)
  obtain ⟨s₂, hrun₂, h₂, -, hbig₂, hauto₂⟩ := h₁.append bs
    (by rw [List.length_drop]; omega) (by rw [List.length_append]; omega)
  have hlog : log ++ toLE 4 n ++ bs = log ++ (toLE 4 n ++ bs) := List.append_assoc _ _ _
  rw [List.drop_drop, hfour, hlog] at h₂
  rw [List.length_append, hfour, Nat.cast_add, Nat.cast_ofNat] at hrun₂
  refine ⟨{ s₂ with idx := narrow idx }, ?_, h₂, rfl, hbig₂.trans hbig₁, hauto₂.trans hauto₁⟩
  rw [h.idx, run_bind_ok hrun₁, run_bind_ok hrun₂]
  rfl

/-- The copying of a string that there is room for. -/
theorem copyChars_stores (hc : Encoding encode span w) (h : Holds s log room) (nul : α) (str : List α)
    (mode : StringInterpretMode) (hfits : writtenBytes w str.length mode ≤ room.length) :
    ∃ s' idx, (copyChars encode span nul str mode s.idx true).run s = .ok () s' ∧
      Backed s' (log ++ stringImage encode nul str mode ++ room.drop (writtenBytes w str.length mode)) ∧
      s'.idx = narrow idx ∧ idx.toNat = log.length + writtenBytes w str.length mode ∧
      s'.bigEndian = s.bigEndian ∧ s'.autoBuffer = s.autoBuffer := by
  have hcursor := h.sizeT_idx
  have hlt := s.bufferSize.toNat_lt
  have hsize := h.size
  have hlen : (str ++ [nul]).length = str.length + 1 := by simp
  have hbytes : (encode (str ++ [nul])).length = (str.length + 1) * w := by rw [hc.length, hlen]
  have hfour : (4 : UInt64).toNat = 4 := rfl
  cases mode with
  | givenSize =>
    simp only [writtenBytes] at hfits
    have hspan := hc.span str.length (by omega)
    obtain ⟨s', hrun, h', hidx, hsame⟩ := storeCounted_run h str.length (encode str)
      (by rw [hc.length]; exact hfits) (sizeT s.idx + span (UInt64.ofNat str.length) + 4)
    rw [hc.length] at h'
    refine ⟨s', _, hrun, h', hidx, ?_, hsame⟩
    simp only [UInt64.toNat_add, hcursor, hspan, hfour, writtenBytes]
    omega
  | untilNullTerm =>
    simp only [writtenBytes] at hfits
    have hspan := hc.span (str.length + 1) (by omega)
    have hpos : 0 < (str.length + 1) * w := Nat.mul_pos (Nat.succ_pos str.length) hc.pos
    obtain ⟨s₁, hrun₁, h₁, -, hbig₁, hauto₁⟩ := h.backed.append (encode (str ++ [nul]))
      (by rw [hbytes]; exact hfits) (by omega)
    rw [hbytes] at h₁
    refine ⟨{ s₁ with idx := narrow (sizeT s.idx + span (UInt64.ofNat (str ++ [nul]).length)) }, _, ?_, h₁, rfl,
      ?_, hbig₁, hauto₁⟩
    · unfold copyChars
      rw [h.idx, run_bind_ok hrun₁]
      rfl
    · simp only [UInt64.toNat_add, hcursor, hlen, hspan, writtenBytes]
      omega
  | givenSizeNullTerm =>
    simp only [writtenBytes] at hfits
    have hspan := hc.span (str.length + 1) (by omega)
    obtain ⟨s', hrun, h', hidx, hsame⟩ := storeCounted_run h ((str ++ [nul]).length - 1) (encode (str ++ [nul]))
      (by rw [hbytes]; exact hfits) (sizeT s.idx + span (UInt64.ofNat (str ++ [nul]).length) + 4)
    rw [hbytes, hlen, Nat.add_sub_cancel] at h'
    refine ⟨s', _, hrun, h', hidx, ?_, hsame⟩
    simp only [UInt64.toNat_add, hcursor, hlen, hspan, hfour, writtenBytes]
    omega

/-- The same, when an `int` has its end. -/
theorem copyChars_run (hc : Encoding encode span w) (h : Holds s log room) (nul : α) (str : List α)
    (mode : StringInterpretMode) (hfits : writtenBytes w str.length mode ≤ room.length)
    (hint : log.length + writtenBytes w str.length mode < 2 ^ 31) :
    ∃ s', (copyChars encode span nul str mode s.idx true).run s = .ok () s' ∧
      Holds s' (log ++ stringImage encode nul str mode) (room.drop (writtenBytes w str.length mode)) ∧
      s'.bigEndian = s.bigEndian ∧ s'.autoBuffer = s.autoBuffer := by
  obtain ⟨s', idx, hrun, h', hidx, hend, hsame⟩ := copyChars_stores hc h nul str mode hfits
  refine ⟨s', hrun, ⟨h', ?_⟩, hsame⟩
  rw [hidx, toInt_narrow (by omega), hend, List.length_append, hc.length_image]

end Copying

/-- A string write at the cursor that may grow: what it copies, once it has grown. -/
theorem stringWrite_grown (h : Holds s log room) (f : String) (bound : UInt64 → UInt64)
    (copy : Int32 → Bool → StreamM Unit) {need : UInt64}
    (hgrow : room.length < need.toNat → Serves malloc (log.length + room.length + need.toNat))
    (hpos : 0 < (reserve room need.toNat).length) :
    ∃ s', (autoBufferF malloc need true >>= fun _ => checkedWrite f true (-1) bound copy).run s =
        (copy s'.idx true).run s' ∧
      Holds s' log (reserve room need.toNat) ∧ s'.bigEndian = s.bigEndian ∧ s'.autoBuffer = s.autoBuffer := by
  obtain ⟨s₁, hgrown, h₁, hbig₁, hauto₁⟩ := autoBufferF_run h true need (.inl (by simp)) hgrow
  refine ⟨s₁, ?_, h₁, hbig₁, hauto₁⟩
  unfold checkedWrite
  rw [run_bind_ok hgrown, run_bind_ok (safetyCheck_cursor h₁ (by omega) f), run_bind_ok (EStateM.run_get _)]
  simp only [Bool.not_true, Bool.and_false, Bool.false_eq_true, if_false]

theorem toNat_length_add_four {n : ℕ} (h : n + 4 < 2 ^ 64) :
    (UInt64.ofNat n + 4).toNat = n + 4 := by
  rw [UInt64.toNat_add, toNat_ofNat_of_lt (by omega), show (4 : UInt64).toNat = 4 from rfl,
    Nat.mod_eq_of_lt h]

theorem writeString_grown (h : Holds s log room) (str : List UInt8) (mode : StringInterpretMode)
    (hstr : str.length + 4 < 2 ^ 64)
    (hgrow : room.length < str.length + 4 → Serves malloc (log.length + room.length + (str.length + 4))) :
    ∃ s', (writeString malloc str mode).run s = (copyChars id id 0 str mode s'.idx true).run s' ∧
      Holds s' log (reserve room (str.length + 4)) ∧
      s'.bigEndian = s.bigEndian ∧ s'.autoBuffer = s.autoBuffer := by
  have hneed := toNat_length_add_four hstr
  have hle := le_length_reserve room (str.length + 4)
  rw [writeString_eq]
  rw [← hneed] at hgrow hle ⊢
  exact stringWrite_grown h _ _ _ hgrow (by omega)

/-- `WriteString` in its default mode appends the size of the string and the string. -/
theorem writeString_run (h : Holds s log room) {str : List UInt8} (hidx : log.length + str.length + 4 < 2 ^ 31)
    (hgrow : room.length < str.length + 4 → Serves malloc (log.length + room.length + (str.length + 4))) :
    ∃ s', (writeString malloc str).run s = .ok () s' ∧
      Holds s' (log ++ (toLE 4 str.length ++ str)) (roomAfter room (str.length + 4)) ∧
      s'.bigEndian = s.bigEndian ∧ s'.autoBuffer = s.autoBuffer := by
  have hwritten : writtenBytes 1 str.length .givenSize = str.length + 4 := by simp [writtenBytes, Nat.add_comm]
  have hle := le_length_reserve room (str.length + 4)
  obtain ⟨s₁, hgrown, h₁, hbig₁, hauto₁⟩ := writeString_grown h str .givenSize (by omega) hgrow
  obtain ⟨s₂, hrun, h₂, hbig₂, hauto₂⟩ := copyChars_run narrowChars h₁ 0 str .givenSize
    (by rw [hwritten]; exact hle) (by rw [hwritten]; omega)
  rw [hwritten] at h₂
  exact ⟨s₂, hgrown.trans hrun, h₂, hbig₂.trans hbig₁, hauto₂.trans hauto₁⟩

/-- A terminated string takes its bytes and a zero, after room for three more was made. -/
theorem writeString_untilNullTerm_run (h : Holds s log room) (str : List UInt8)
    (hidx : log.length + str.length + 1 < 2 ^ 31)
    (hgrow : room.length < str.length + 4 → Serves malloc (log.length + room.length + (str.length + 4))) :
    ∃ s', (writeString malloc str .untilNullTerm).run s = .ok () s' ∧
      Holds s' (log ++ (str ++ [0])) ((reserve room (str.length + 4)).drop (str.length + 1)) ∧
      s'.bigEndian = s.bigEndian ∧ s'.autoBuffer = s.autoBuffer := by
  have hwritten : writtenBytes 1 str.length .untilNullTerm = str.length + 1 := by simp [writtenBytes]
  have hle := le_length_reserve room (str.length + 4)
  obtain ⟨s₁, hgrown, h₁, hbig₁, hauto₁⟩ := writeString_grown h str .untilNullTerm (by omega) hgrow
  obtain ⟨s₂, hrun, h₂, hbig₂, hauto₂⟩ := copyChars_run narrowChars h₁ 0 str .untilNullTerm
    (by rw [hwritten]; omega) (by rw [hwritten]; omega)
  rw [hwritten] at h₂
  exact ⟨s₂, hgrown.trans hrun, h₂, hbig₂.trans hbig₁, hauto₂.trans hauto₁⟩

end H1Z1Server
