import H1Z1Server.Stream.Checking

/-! Writes at an index inside the buffer: which bytes they change, and when they change the buffer as well. -/
namespace H1Z1Server
open MachineInt MemoryBlock ByteOrder ByteStreamBuffer ByteStreamWriter

variable {malloc : Malloc} {s : ByteStreamBuffer} {m : Block} {startIndex : Int32}

/-- Bytes in place of those at an offset. -/
def patch (bytes : List UInt8) (o : ℕ) (bs : List UInt8) : List UInt8 :=
  bytes.take o ++ bs ++ bytes.drop (o + bs.length)

/-- The write returns, and nothing but the bytes at its index has changed. -/
def Patches (malloc : Malloc) (w : SizedWrite) (startIndex : Int32) (s : ByteStreamBuffer) : Prop :=
  ∃ m, s.buffer = some m ∧ (w.run malloc startIndex).run s = .ok ()
    { s with buffer := some { m with bytes := patch m.bytes startIndex.toInt.toNat (w.image s.bigEndian) } }

/-- There is a buffer, and the room behind the cursor would do for the write as well, unless the stream does
not look for it. -/
def Spares (s : ByteStreamBuffer) (n : ℕ) : Prop :=
  s.buffer ≠ none ∧ s.bufferSize ≠ 0 ∧ ¬Grows s n false

instance (n : ℕ) : Decidable (Spares s n) := inferInstanceAs (Decidable (_ ∧ _ ∧ _))

/-- What a write inside the buffer does once it has been checked. -/
theorem checkedSized_patches {w : SizedWrite} (hw : w.Sizeable) (hbuf : s.buffer = some m)
    (hsize : m.size = s.bufferSize.toNat) (hzero : s.bufferSize ≠ 0) (hlo : 0 ≤ startIndex.toInt)
    (hin : startIndex.toInt + w.size.toNat ≤ s.bufferSize.toNat) (f : String) :
    (checkedWrite f false startIndex (· + w.size) (copySized w.size w.image)).run s = .ok ()
      { s with buffer := some { m with bytes := patch m.bytes startIndex.toInt.toNat (w.image s.bigEndian) } } := by
  have hgiven : startIndex ≠ -1 := ne_neg_one_of_nonneg hlo
  have hresolve : resolve s startIndex = startIndex := if_neg hgiven
  have hsum := toNat_sizeT_add_emod startIndex w.size
  have hbuffer := s.bufferSize.toNat_lt
  rw [Int.emod_eq_of_lt (by omega) (by omega)] at hsum
  have hpass : ¬Refuses s false startIndex (· + w.size) := by
    simp only [Refuses, hbuf, reduceCtorEq, hzero, hresolve, hgiven, false_or, true_and,
      UInt64.lt_iff_toNat_lt]
    omega
  have hlen := SizedWrite.length_image hw s.bigEndian
  have hinside : startIndex.toInt.toNat + (w.image s.bigEndian).length ≤ m.size := by omega
  have hstore := Block.store_of_inside hinside
  rw [Int.toNat_of_nonneg hlo] at hstore
  have hrun : (store startIndex.toInt (w.image s.bigEndian)).run s = .ok () { s with
      buffer := some { m with bytes := patch m.bytes startIndex.toInt.toNat (w.image s.bigEndian) } } := by
    simp [store, hbuf, hstore, patch]
  rw [checkedWrite_passed hpass, hresolve, decide_eq_false hgiven]
  unfold copySized
  rw [run_bind_ok (EStateM.run_get s), run_bind_ok hrun]
  rfl

/-- A write inside the buffer changes nothing but its bytes exactly when the stream does not make room for
it behind its cursor. -/
theorem patches_iff (malloc : Malloc) (h : InBuffer s) {w : SizedWrite} (hw : w.Sizeable)
    (hlo : 0 ≤ startIndex.toInt) (hin : startIndex.toInt + w.size.toNat ≤ s.bufferSize.toNat) :
    Patches malloc w startIndex s ↔ Spares s w.size.toNat := by
  obtain ⟨f, heq⟩ := w.run_eq malloc startIndex
  have hgrows := asks_iff h w.size false
  unfold Patches Spares
  rw [heq]
  by_cases hasks : Asks s w.size false
  · refine iff_of_false ?_ fun hspares => hspares.2.2 (hgrows.mp hasks)
    rintro ⟨m, hbuf, hrun⟩
    by_cases hcan : CanGrow malloc s w.size.toNat
    · obtain ⟨s₁, hgrown, howns, -, hsize, hsome⟩ := autoBufferF_grows h.owns hasks hcan
      obtain ⟨m₁, hbuf₁⟩ := Option.ne_none_iff_exists'.mp hsome
      have hpos := hasks.pos
      have hzero : s₁.bufferSize ≠ 0 := ne_zero_of_pos (by omega)
      rw [run_bind_ok hgrown, checkedSized_patches hw hbuf₁ (howns m₁ hbuf₁) hzero hlo (by omega)] at hrun
      obtain ⟨-, hsame⟩ := (EStateM.Result.ok.injEq _ _ _ _).mp hrun
      have hlarger := congrArg (fun s : ByteStreamBuffer => s.bufferSize.toNat) hsame
      simp only [hsize] at hlarger
      omega
    · rw [run_bind_error (autoBufferF_breaks h.owns hasks hcan)] at hrun
      cases hrun
  · rw [run_bind_ok (autoBufferF_unasked hasks)]
    have hstays : ¬Grows s w.size.toNat false := mt hgrows.mpr hasks
    by_cases hbuf : s.buffer = none ∨ s.bufferSize = 0
    · refine iff_of_false ?_ fun hspares => hbuf.elim hspares.1 hspares.2.1
      rintro ⟨m, -, hrun⟩
      have hrefused : Refuses s false startIndex (· + w.size) := hbuf.imp id .inl
      obtain ⟨what, hthrow⟩ := checkedWrite_refused hrefused f (copySized w.size w.image)
      rw [hthrow] at hrun
      cases hrun
    · obtain ⟨hsome, hzero⟩ := not_or.mp hbuf
      obtain ⟨m, hm⟩ := Option.ne_none_iff_exists'.mp hsome
      exact iff_of_true ⟨m, hm, checkedSized_patches hw hm (h.owns m hm) hzero hlo hin f⟩ ⟨hsome, hzero, hstays⟩

theorem patches_example : Patches (fun _ => none) (.dword 7) 2 (writerOf 8 true) :=
  (patches_iff _ (writerOf_inBuffer (by norm_num) true) (w := .dword 7) trivial (by decide) (by decide)).mpr
    (by decide)

theorem fullWriter_inBuffer {n : ℕ} (hn : n < 2 ^ 31) (autoBuffer : Bool) : InBuffer (fullWriter n autoBuffer) := by
  have hidx : (fullWriter n autoBuffer).idx.toInt = n := toInt_ofInt (by omega) (by omega)
  have hsize : (fullWriter n autoBuffer).bufferSize.toNat = n := toNat_ofNat_of_lt (by omega)
  refine ⟨fullWriter_owns (by omega) autoBuffer, ?_, ?_⟩
  · omega
  · omega

/-- A length is filled in at the start of a full writer, and the writer is four bytes larger. -/
theorem patched_writer_grows :
    InBuffer (fullWriter 8 true) ∧ ¬Patches plentiful (.dword 4) 0 (fullWriter 8 true) := by
  refine ⟨fullWriter_inBuffer (by norm_num) true, ?_⟩
  rintro ⟨m, -, hrun⟩
  have hsize : ∃ s', ((SizedWrite.dword 4).run plentiful 0).run (fullWriter 8 true) = .ok () s' ∧
      s'.bufferSize = 12 := ⟨_, rfl, rfl⟩
  obtain ⟨s', hgrown, htwelve⟩ := hsize
  rw [hgrown] at hrun
  obtain ⟨-, rfl⟩ := (EStateM.Result.ok.injEq _ _ _ _).mp hrun
  have height : (fullWriter 8 true).bufferSize = 12 := htwelve
  exact absurd height (by decide)

end H1Z1Server
