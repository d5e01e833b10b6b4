import H1Z1Server.Stream.AutoBuffering

/-! The writes of a stream from any cursor and at any index: they make room, check where they are to write,
and copy. When an exception leaves the stream as it was. -/
namespace H1Z1Server
open MachineInt MemoryBlock ByteOrder ByteStreamBuffer ByteStreamWriter Outcome

variable {malloc : Malloc} {s : ByteStreamBuffer} {startIndex : Int32}

/-- The writes of known length, with what they write. -/
inductive SizedWrite where
  | byte (data : UInt8)
  | word (data : UInt16)
  | dword (data : UInt32)
  | qword (data : UInt64)
  | data (data : List UInt8)

/-- The writes of a stream, with their parameters other than the index. -/
inductive WriteCall where
  | sized (w : SizedWrite)
  | string (str : List UInt8) (mode : StringInterpretMode) (autoResize wideString wideStringLE : Bool)
  | wstring (str : List UInt16) (mode : StringInterpretMode) (autoResize : Bool)

namespace SizedWrite

def run (malloc : Malloc) (startIndex : Int32) : SizedWrite → StreamM Unit
  | byte b => writeByte malloc b startIndex
  | word w => writeWord malloc w startIndex
  | dword d => writeDword malloc d startIndex
  | qword q => writeQword malloc q startIndex
  | data bs => writeData malloc bs startIndex

def size : SizedWrite → UInt64
  | byte _ => 1
  | word _ => 2
  | dword _ => 4
  | qword _ => 8
  | data bs => UInt64.ofNat bs.length

/-- The bytes that a write leaves in a stream of a byte order. -/
def image (w : SizedWrite) (bigEndian : Bool) : List UInt8 :=
  match w with
  | byte b => [b]
  | word w => encodeNat bigEndian 2 w.toNat
  | dword d => encodeNat bigEndian 4 d.toNat
  | qword q => encodeNat bigEndian 8 q.toNat
  | data bs => bs

/-- A block of data has a size. -/
def Sizeable : SizedWrite → Prop
  | data bs => bs.length < 2 ^ 64
  | _ => True

theorem length_image {w : SizedWrite} (h : w.Sizeable) (bigEndian : Bool) :
    (w.image bigEndian).length = w.size.toNat := by
  cases w with
  | byte b => rfl
  | word w => exact length_encodeNat bigEndian 2 w.toNat
  | dword d => exact length_encodeNat bigEndian 4 d.toNat
  | qword q => exact length_encodeNat bigEndian 8 q.toNat
  | data bs => exact (toNat_ofNat_of_lt h).symm

end SizedWrite

namespace WriteCall

def run (malloc : Malloc) (startIndex : Int32) : WriteCall → StreamM Unit
  | sized w => w.run malloc startIndex
  | string str mode autoResize wideString wideStringLE =>
    writeString malloc str mode autoResize startIndex wideString wideStringLE
  | wstring str mode autoResize => writeWString malloc str mode autoResize startIndex

/-- The size that the call makes room for. -/
def room : WriteCall → UInt64
  | sized w => w.size
  | string str _ _ wideString _ =>
    (if wideString then UInt64.ofNat str.length * 2 else UInt64.ofNat str.length) + 4
  | wstring str _ _ => UInt64.ofNat str.length * 2 + 4

/-- Whether the call makes room in any stream, and then checks no size. -/
def autoResize : WriteCall → Bool
  | sized _ => false
  | string _ _ autoResize _ _ => autoResize
  | wstring _ _ autoResize => autoResize

/-- The offset that the size check of the call compares, from the index at which it writes. -/
def bound : WriteCall → UInt64 → UInt64
  | sized w, p => p + w.size
  | string str _ _ _ _, p => p + UInt64.ofNat str.length
  | wstring str _ _, p => p + UInt64.ofNat str.length + 4

end WriteCall

/-- A program that throws no exception, whatever else it may do. -/
def Silent {α : Type} (x : StreamM α) : Prop :=
  ∀ s, Ends (x.run s) (fun _ _ => True) fun e _ => e = .undefinedBehaviour

section Silent
variable {α β : Type}

theorem Silent.bind {x : StreamM α} {f : α → StreamM β} (hx : Silent x) (hf : ∀ a, Silent (f a)) :
    Silent (x >>= f) := fun s => Ends.seq (hx s) fun a s' _ => hf a s'

theorem silent_pure (a : α) : Silent (pure a : StreamM α) := fun _ => trivial

theorem silent_undefined : Silent (throw .undefinedBehaviour : StreamM α) := fun _ => rfl

theorem silent_get : Silent (get : StreamM ByteStreamBuffer) := fun _ => trivial

theorem silent_ite {c : Prop} [Decidable c] {x y : StreamM α} (hx : Silent x) (hy : Silent y) :
    Silent (if c then x else y) := fun s => ends_ite (fun _ => hx s) fun _ => hy s

theorem silent_store (o : ℤ) (bs : List UInt8) : Silent (store o bs) := by
  intro s
  unfold store
  refine Ends.bind (ends_get ?_)
  cases s.buffer.bind (·.store o bs) with
  | none => exact silent_undefined s
  | some m => trivial

theorem silent_advance (incrIndex : Bool) (idx : UInt64) : Silent (advance incrIndex idx) := by
  intro s
  cases incrIndex <;> trivial

theorem silent_wideBuffer (str_size : Int32) (wide : List UInt8) :
    Silent (wideBuffer malloc str_size wide) :=
  fun _ => (wideBuffer_ends str_size wide).mono_ok fun _ _ _ => trivial

theorem silent_copyWide (data : Block) (advanced : ℕ) (o : ℤ) (str_size : Int32) (idx : Option Int32) :
    Silent (copyWide data advanced o str_size idx) := by
  unfold copyWide
  cases data.load advanced (sizeT str_size).toNat with
  | none => exact silent_undefined
  | some bs =>
    refine (silent_store o bs).bind fun _ => ?_
    cases idx with
    | none => exact (silent_pure ()).bind fun _ => silent_ite silent_undefined (silent_pure ())
    | some idx =>
      have hset : Silent (setIdx idx) := fun _ => trivial
      exact hset.bind fun _ => silent_ite silent_undefined (silent_pure ())

theorem silent_copyChars (encode : List α → List UInt8) (span : UInt64 → UInt64) (nul : α) (str : List α)
    (mode : StringInterpretMode) (startIndex : Int32) (incrIndex : Bool) :
    Silent (copyChars encode span nul str mode startIndex incrIndex) := by
  unfold copyChars
  cases mode with
  | untilNullTerm => exact (silent_store _ _).bind fun _ => silent_advance _ _
  | givenSize | givenSizeNullTerm =>
    exact (silent_store _ _).bind fun _ => (silent_store _ _).bind fun _ => silent_advance _ _

theorem silent_copyWideString (str : List UInt8) (wideStringLE : Bool) (mode : StringInterpretMode)
    (startIndex : Int32) (incrIndex : Bool) :
    Silent (copyWideString malloc str wideStringLE mode startIndex incrIndex) := by
  unfold copyWideString
  cases mode with
  | givenSize =>
    exact (silent_wideBuffer _ _).bind fun _ => (silent_store _ _).bind fun _ => silent_copyWide _ _ _ _ _
  | untilNullTerm =>
    refine (silent_wideBuffer _ _).bind fun data => ?_
    cases data.store (widenString wideStringLE str).length [0, 0] with
    | none => exact silent_undefined
    | some data => exact silent_copyWide _ _ _ _ _
  | givenSizeNullTerm =>
    exact (silent_wideBuffer _ _).bind fun _ => (silent_store _ _).bind fun _ => silent_undefined

end Silent

/-- What the writes of known length copy. -/
def copySized (size : UInt64) (image : Bool → List UInt8) (startIndex : Int32) (incrIndex : Bool) :
    StreamM Unit := do
  let s ← get
  store startIndex.toInt (image s.bigEndian)
  advance incrIndex (sizeT startIndex + size)

theorem silent_copySized (size : UInt64) (image : Bool → List UInt8) (startIndex : Int32)
    (incrIndex : Bool) : Silent (copySized size image startIndex incrIndex) :=
  silent_get.bind fun _ => (silent_store _ _).bind fun _ => silent_advance _ _

theorem writeSized_eq (f : String) (size : UInt64) (image : Bool → List UInt8) (startIndex : Int32) :
    writeSized malloc f size image startIndex =
      autoBufferF malloc size false >>= fun _ =>
        checkedWrite f false startIndex (· + size) (copySized size image) := by
  unfold writeSized checkedWrite
  congr 1
  funext _
  congr 1
  funext p
  funext s
  show (_ : StreamM Unit).run s = (_ : StreamM Unit).run s
  rw [run_bind_ok (EStateM.run_get s), run_bind_ok (EStateM.run_get s)]
  by_cases hmany : sizeT p.1 + size > s.bufferSize
  · simp [hmany]
  · simp only [hmany, if_false, decide_false, Bool.false_and, Bool.false_eq_true]
    rfl

theorem SizedWrite.run_eq (malloc : Malloc) (startIndex : Int32) (w : SizedWrite) :
    ∃ f, w.run malloc startIndex = autoBufferF malloc w.size false >>= fun _ =>
      checkedWrite f false startIndex (· + w.size) (copySized w.size w.image) := by
  cases w with
  | byte b => exact ⟨_, writeSized_eq "ByteStreamWriter::WriteByte" 1 (fun _ => [b]) startIndex⟩
  | word w =>
    have heq : writeWord malloc w startIndex = autoBufferF malloc 2 false >>= fun _ =>
        checkedWrite "ByteStreamWriter::WriteWord" false startIndex (· + 2)
          (copySized 2 fun bigEndian => toLE 2 (autoEndian2 bigEndian w).toNat) :=
      writeSized_eq _ _ _ _
    simp only [toLE_autoEndian2] at heq
    exact ⟨_, heq⟩
  | dword d =>
    have heq : writeDword malloc d startIndex = autoBufferF malloc 4 false >>= fun _ =>
        checkedWrite "ByteStreamWriter::WriteDword" false startIndex (· + 4)
          (copySized 4 fun bigEndian => toLE 4 (autoEndian4 bigEndian d).toNat) :=
      writeSized_eq _ _ _ _
    simp only [toLE_autoEndian4] at heq
    exact ⟨_, heq⟩
  | qword q =>
    have heq : writeQword malloc q startIndex = autoBufferF malloc 8 false >>= fun _ =>
        checkedWrite "ByteStreamWriter::WriteQword" false startIndex (· + 8)
          (copySized 8 fun bigEndian => toLE 8 (autoEndian8 bigEndian q).toNat) :=
      writeSized_eq _ _ _ _
    simp only [toLE_autoEndian8] at heq
    exact ⟨_, heq⟩
  | data bs =>
    exact ⟨_, writeSized_eq "ByteStreamWriter::WriteData" (UInt64.ofNat bs.length) (fun _ => bs) startIndex⟩

/-- Every write makes room, checks, and copies without exceptions. -/
theorem WriteCall.run_eq (malloc : Malloc) (startIndex : Int32) (c : WriteCall) :
    ∃ f copy, (∀ p incrIndex, Silent (copy p incrIndex)) ∧
      c.run malloc startIndex = autoBufferF malloc c.room c.autoResize >>= fun _ =>
        checkedWrite f c.autoResize startIndex c.bound copy := by
  cases c with
  | sized w =>
    obtain ⟨f, heq⟩ := w.run_eq malloc startIndex
    exact ⟨f, _, silent_copySized _ _, heq⟩
  | string str mode autoResize wideString wideStringLE =>
    cases wideString with
    | false => exact ⟨_, _, silent_copyChars _ _ _ _ _, writeString_eq str mode autoResize startIndex wideStringLE⟩
    | true =>
      exact ⟨_, _, silent_copyWideString _ _ _,
        writeString_wide_eq str mode autoResize startIndex wideStringLE⟩
  | wstring str mode autoResize =>
    exact ⟨_, _, silent_copyChars _ _ _ _ _, writeWString_eq str mode autoResize startIndex⟩

/-- The checks of a write throw: there is no buffer, or no index, or the bytes that are counted do not
end in the buffer. -/
def Refuses (s : ByteStreamBuffer) (autoResize : Bool) (startIndex : Int32) (bound : UInt64 → UInt64) : Prop :=
  s.buffer = none ∨ s.bufferSize = 0 ∨ resolve s startIndex = -1 ∨
    autoResize = false ∧ s.bufferSize < bound (sizeT (resolve s startIndex))

section Checked
variable {autoResize : Bool} {bound : UInt64 → UInt64} {m : Block}

/-- `SAFETY_CHECK` lets any index pass but -1. -/
theorem safetyCheck_passed (hbuf : s.buffer = some m) (hsize : s.bufferSize ≠ 0)
    (hindex : resolve s startIndex ≠ -1) (f : String) :
    (safetyCheck f startIndex).run s = .ok (resolve s startIndex, decide (startIndex = -1)) s := by
  by_cases hcursor : startIndex = -1
  · have hidx : s.idx ≠ -1 := by simpa [resolve, hcursor] using hindex
    simp [safetyCheck, resolve, hbuf, hsize, hidx, hcursor]
  · simp [safetyCheck, resolve, hbuf, hsize, hcursor]

theorem safetyCheck_unindexed (hbuf : s.buffer = some m) (hsize : s.bufferSize ≠ 0)
    (hindex : resolve s startIndex = -1) (f : String) :
    (safetyCheck f startIndex).run s =
      .error (.exception (f ++ " tried to access buffer with invalid index.")) s := by
  have hcursor : startIndex = -1 := by
    by_contra hgiven
    simp only [resolve, hgiven, if_false] at hindex
  have hidx : s.idx = -1 := by simpa [resolve, hcursor] using hindex
  unfold safetyCheck
  rw [run_bind_ok (EStateM.run_get _)]
  simp only [hbuf, Option.isNone_some, Bool.false_or, beq_iff_eq, hsize, if_false, hcursor, if_true, hidx]
  rfl

theorem checkedWrite_refused (h : Refuses s autoResize startIndex bound) (f : String)
    (copy : Int32 → Bool → StreamM Unit) :
    ∃ what, (checkedWrite f autoResize startIndex bound copy).run s = .error (.exception what) s := by
  unfold checkedWrite
  obtain hnull | ⟨m, hbuf, hzero⟩ := null_or_buffer s
  · exact ⟨_, run_bind_error (safetyCheck_null hnull f startIndex)⟩
  · by_cases hindex : resolve s startIndex = -1
    · exact ⟨_, run_bind_error (safetyCheck_unindexed hbuf hzero hindex f)⟩
    have hmany : autoResize = false ∧ s.bufferSize < bound (sizeT (resolve s startIndex)) := by
      simpa [Refuses, hbuf, hzero, hindex] using h
    rw [run_bind_ok (safetyCheck_passed hbuf hzero hindex f), run_bind_ok (EStateM.run_get s),
      if_pos (by simpa using hmany.symm)]
    exact ⟨_, rfl⟩

theorem checkedWrite_passed (h : ¬Refuses s autoResize startIndex bound) (f : String)
    (copy : Int32 → Bool → StreamM Unit) :
    (checkedWrite f autoResize startIndex bound copy).run s =
      (copy (resolve s startIndex) (decide (startIndex = -1))).run s := by
  obtain ⟨hbuf, hzero, hindex, hfits⟩ : s.buffer ≠ none ∧ s.bufferSize ≠ 0 ∧
      resolve s startIndex ≠ -1 ∧
      ¬(autoResize = false ∧ s.bufferSize < bound (sizeT (resolve s startIndex))) := by
    simpa only [Refuses, not_or] using h
  obtain ⟨m, hm⟩ := Option.ne_none_iff_exists'.mp hbuf
  unfold checkedWrite
  rw [run_bind_ok (safetyCheck_passed hm hzero hindex f), run_bind_ok (EStateM.run_get s),
    if_neg (by simpa [and_comm] using hfits)]

/-- A write that returns has stored its bytes. -/
theorem SizedWrite.run_ok {w : SizedWrite} {s' : ByteStreamBuffer}
    (h : (w.run malloc startIndex).run s = .ok () s') :
    ∃ s₁ m, (autoBufferF malloc w.size false).run s = .ok () s₁ ∧
      s₁.buffer.bind (·.store (resolve s₁ startIndex).toInt (w.image s₁.bigEndian)) = some m ∧
      s'.buffer = some m := by
  obtain ⟨f, heq⟩ := w.run_eq malloc startIndex
  rw [heq] at h
  obtain ⟨_, s₁, hgrown, hchecked⟩ := exists_of_run_bind h
  refine ⟨s₁, ?_⟩
  by_cases hrefused : Refuses s₁ false startIndex (· + w.size)
  · obtain ⟨what, hthrow⟩ := checkedWrite_refused hrefused f (copySized w.size w.image)
    rw [hthrow] at hchecked
    cases hchecked
  rw [checkedWrite_passed hrefused] at hchecked
  unfold copySized at hchecked
  rw [run_bind_ok (EStateM.run_get s₁)] at hchecked
  obtain ⟨_, s₂, hstored, hmoved⟩ := exists_of_run_bind hchecked
  obtain ⟨m, hstore, rfl⟩ := store_ok hstored
  refine ⟨m, hgrown, hstore, ?_⟩
  cases hcursor : decide (startIndex = -1) with
  | false =>
    rw [hcursor] at hmoved
    cases hmoved
    rfl
  | true =>
    rw [hcursor] at hmoved
    cases hmoved
    rfl

/-- Two writes of one size that leave the same buffer write the same bytes. -/
theorem SizedWrite.image_eq_of_run_eq {w w' : SizedWrite} {s' : ByteStreamBuffer} (hw : w.Sizeable)
    (hw' : w'.Sizeable) (hsize : w.size = w'.size) (h : (w.run malloc startIndex).run s = .ok () s')
    (h' : (w'.run malloc startIndex).run s = .ok () s') : ∃ bigEndian, w.image bigEndian = w'.image bigEndian := by
  obtain ⟨s₁, m, hgrown, hstore, hbuf⟩ := w.run_ok h
  obtain ⟨s₂, m', hgrown', hstore', hbuf'⟩ := w'.run_ok h'
  rw [← hsize, hgrown] at hgrown'
  cases hgrown'
  rw [hbuf] at hbuf'
  cases hbuf'
  obtain ⟨block, hblock, hstore⟩ := Option.bind_eq_some_iff.mp hstore
  rw [hblock, Option.bind_some] at hstore'
  refine ⟨s₁.bigEndian, Block.eq_of_store_eq hstore hstore' ?_⟩
  rw [length_image hw, length_image hw', hsize]

end Checked

/-- The contents, the size and the cursor of a stream are those of another. -/
structure SameStream (s s' : ByteStreamBuffer) : Prop where
  buffer : s'.buffer = s.buffer
  bufferSize : s'.bufferSize = s.bufferSize
  idx : s'.idx = s.idx

/-- If the call throws, the stream is as it was before. -/
def Restores (malloc : Malloc) (startIndex : Int32) (c : WriteCall) (s : ByteStreamBuffer) : Prop :=
  ∀ what s', (c.run malloc startIndex).run s = .error (.exception what) s' → SameStream s s'

/-- If the call can make the buffer grow, its index is not -1, and what it then counts ends in the buffer. -/
def GrowsToWrite (malloc : Malloc) (startIndex : Int32) (c : WriteCall) (s : ByteStreamBuffer) : Prop :=
  Asks s c.room c.autoResize → CanGrow malloc s c.room.toNat →
    resolve s startIndex ≠ -1 ∧ (c.autoResize = true ∨
      (c.bound (sizeT (resolve s startIndex))).toNat ≤ s.bufferSize.toNat + c.room.toNat)

instance (malloc : Malloc) (startIndex : Int32) (c : WriteCall) (s : ByteStreamBuffer) :
    Decidable (GrowsToWrite malloc startIndex c s) := inferInstanceAs (Decidable (_ → _ → _))

/-- A write that throws leaves the stream as it was exactly when it does not make the buffer grow first. -/
theorem throwing_write_restores_iff (malloc : Malloc) (howns : Owns s) (c : WriteCall) (startIndex : Int32) :
    Restores malloc startIndex c s ↔ GrowsToWrite malloc startIndex c s := by
  obtain ⟨f, copy, hsilent, heq⟩ := c.run_eq malloc startIndex
  have hthrows : ∀ {s₁ s' what},
      (checkedWrite f c.autoResize startIndex c.bound copy).run s₁ = .error (.exception what) s' →
        Refuses s₁ c.autoResize startIndex c.bound ∧ s' = s₁ := by
    intro s₁ s' what hrun
    by_cases hrefused : Refuses s₁ c.autoResize startIndex c.bound
    · obtain ⟨what', hthrow⟩ := checkedWrite_refused hrefused f copy
      rw [hthrow] at hrun
      cases hrun
      exact ⟨hrefused, rfl⟩
    · have hends := hsilent (resolve s₁ startIndex) (decide (startIndex = -1)) s₁
      rw [← checkedWrite_passed hrefused f copy, hrun] at hends
      cases hends
  unfold Restores
  rw [heq]
  by_cases hasks : Asks s c.room c.autoResize
  · by_cases hcan : CanGrow malloc s c.room.toNat
    · obtain ⟨s₁, hgrown, -, hidx, hsize, hbuf⟩ := autoBufferF_grows howns hasks hcan
      have hpos := hasks.pos
      have hzero : s₁.bufferSize ≠ 0 := ne_zero_of_pos (by omega)
      have hresolve : resolve s₁ startIndex = resolve s startIndex := by simp only [resolve, hidx]
      have hrefuses : Refuses s₁ c.autoResize startIndex c.bound ↔ ¬GrowsToWrite malloc startIndex c s := by
        simp only [Refuses, GrowsToWrite, hbuf, hzero, hresolve, hasks, hcan, UInt64.lt_iff_toNat_lt, hsize,
          true_implies, false_or, not_and_or, not_not, not_or, Bool.not_eq_true, not_le]
      rw [run_bind_ok hgrown]
      constructor
      · intro hrestores
        by_contra hwrites
        obtain ⟨what, hthrow⟩ := checkedWrite_refused (hrefuses.mpr hwrites) f copy
        have hsame := congrArg UInt64.toNat (hrestores what s₁ hthrow).bufferSize
        omega
      · intro hwrites what s' hrun
        exact absurd hwrites (hrefuses.mp (hthrows hrun).1)
    · rw [run_bind_error (autoBufferF_breaks howns hasks hcan)]
      refine iff_of_true ?_ fun _ hgrow => absurd hgrow hcan
      rintro what s' ⟨⟩
  · rw [run_bind_ok (autoBufferF_unasked hasks)]
    refine iff_of_true (fun what s' hrun => ?_) fun hgrow => absurd hgrow hasks
    obtain ⟨-, rfl⟩ := hthrows hrun
    exact ⟨rfl, rfl, rfl⟩

theorem throwing_write_restores_example :
    Restores plentiful 9 (.sized (.dword 7)) (writerOf 8 true) :=
  (throwing_write_restores_iff plentiful (writerOf_inBuffer (by norm_num) true).owns (.sized (.dword 7)) 9).mpr
    (by decide)

/-- A writer whose bytes are all written. -/
def fullWriter (n : ℕ) (autoBuffer : Bool) : ByteStreamBuffer :=
  { writerOf n autoBuffer with idx := Int32.ofInt n }

theorem fullWriter_owns {n : ℕ} (hn : n < 2 ^ 64) (autoBuffer : Bool) : Owns (fullWriter n autoBuffer) :=
  (writerOf_inBuffer hn autoBuffer).owns

/-- A byte is refused behind the end of a full writer, and the writer is a byte larger. -/
theorem refused_byte_grows :
    Owns (fullWriter 4 true) ∧ ¬Restores plentiful 9 (.sized (.byte 7)) (fullWriter 4 true) := by
  refine ⟨fullWriter_owns (by norm_num) true, fun hrestores => ?_⟩
  have hsame := (hrestores _ _ rfl).bufferSize
  exact absurd hsame (by decide)

end H1Z1Server
