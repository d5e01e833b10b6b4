import H1Z1Server.Stream.WideStrings

/-! Narrow strings in a wide encoding: the conversions of both sides move the pointers to their temporary buffers
past the characters, and are undefined when there is one. -/
namespace H1Z1Server
open MachineInt MemoryBlock ByteOrder ByteStreamBuffer ByteStreamWriter ByteStreamReader

variable {malloc : Malloc} {s s' : ByteStreamBuffer} {log room done rest str : List UInt8}
  {mode : StringInterpretMode} {wideStringLE : Bool}

/-- What comes out of a checked write came out of its copying. -/
theorem copied_of_checkedWrite {f : String} {autoResize : Bool} {startIndex : Int32} {bound : UInt64 → UInt64}
    {copy : Int32 → Bool → StreamM Unit} {need : UInt64}
    (h : (autoBufferF malloc need autoResize >>= fun _ =>
      checkedWrite f autoResize startIndex bound copy).run s = .ok () s') :
    ∃ p incrIndex s₁, (copy p incrIndex).run s₁ = .ok () s' := by
  obtain ⟨-, s₁, -, hchecked⟩ := exists_of_run_bind h
  obtain ⟨⟨p, incrIndex⟩, s₂, -, hguarded⟩ := exists_of_run_bind hchecked
  obtain ⟨s₃, s₄, -, hcopy⟩ := exists_of_run_bind hguarded
  split at hcopy
  · cases hcopy
  · exact ⟨p, incrIndex, s₄, hcopy⟩

theorem advanced_of_copyWide {data : Block} {advanced : ℕ} {o : ℤ} {str_size : Int32} {idx : Option Int32}
    (h : (copyWide data advanced o str_size idx).run s = .ok () s') : advanced = 0 := by
  unfold copyWide at h
  cases hload : data.load advanced (sizeT str_size).toNat with
  | none =>
    rw [hload] at h
    cases h
  | some bs =>
    rw [hload] at h
    obtain ⟨-, s₁, -, hrest⟩ := exists_of_run_bind h
    by_contra hmoved
    cases idx with
    | none =>
      simp only [if_pos hmoved] at hrest
      cases hrest
    | some idx =>
      simp only [if_pos hmoved] at hrest
      cases hrest

/-- A wide write returns only when there is nothing to convert, and no terminator behind a size. -/
theorem nothing_of_copyWideString {p : Int32} {incrIndex : Bool}
    (h : (copyWideString malloc str wideStringLE mode p incrIndex).run s = .ok () s') :
    str = [] ∧ mode ≠ .givenSizeNullTerm := by
  have hnone : (widenString wideStringLE str).length = 0 → str = [] := by
    rw [length_widenString]
    exact fun hzero => List.length_eq_zero_iff.mp (by omega)
  unfold copyWideString at h
  cases mode with
  | givenSize =>
    obtain ⟨data, s₁, -, hcounted⟩ := exists_of_run_bind h
    obtain ⟨-, s₂, -, hcopied⟩ := exists_of_run_bind hcounted
    exact ⟨hnone (advanced_of_copyWide hcopied), by decide⟩
  | untilNullTerm =>
    obtain ⟨data, s₁, -, hterminated⟩ := exists_of_run_bind h
    cases hstore : data.store (widenString wideStringLE str).length [0, 0] with
    | none =>
      rw [hstore] at hterminated
      cases hterminated
    | some data =>
      rw [hstore] at hterminated
      exact ⟨hnone (advanced_of_copyWide hterminated), by decide⟩
  | givenSizeNullTerm =>
    obtain ⟨data, s₁, -, hcounted⟩ := exists_of_run_bind h
    obtain ⟨-, s₂, -, hthrown⟩ := exists_of_run_bind hcounted
    cases hthrown

/-- With nothing to convert, the bytes of wide characters are stored. -/
theorem copyWideString_nil (hm : (malloc 2).isSome) (hmode : mode ≠ .givenSizeNullTerm) (p : Int32) :
    (copyWideString malloc [] wideStringLE mode p true).run s =
      (copyChars wideBytes (· * 2) 0 [] mode p true).run s := by
  cases mode with
  | givenSizeNullTerm => exact absurd rfl hmode
  | givenSize =>
    have hbuffer : ∃ data, (wideBuffer malloc 0 []).run s = .ok data s := by
      unfold wideBuffer
      cases malloc (sizeT 0).toNat <;> exact ⟨_, rfl⟩
    obtain ⟨data, hdata⟩ := hbuffer
    have hstart : p + narrow (UInt64.ofNat ([] : List UInt8).length * 2) = p := Int32.add_zero p
    have hspan : sizeT p + UInt64.ofNat ([] : List UInt16).length * 2 = sizeT p := UInt64.add_zero _
    have hwide : widenString wideStringLE [] = [] := rfl
    unfold copyWideString copyChars
    simp only [hstart, hspan, hwide]
    exact run_bind_ok hdata
  | untilNullTerm =>
    obtain ⟨beyond, hbeyond⟩ := Option.isSome_iff_exists.mp hm
    have hdata : (wideBuffer malloc 2 []).run s = .ok (Block.zeroed 2 beyond) s := by
      unfold wideBuffer
      rw [show malloc (sizeT 2).toNat = some beyond from hbeyond]
      rfl
    have hend : narrow (sizeT p + UInt64.ofNat ([] ++ [0] : List UInt16).length * 2) = p + 2 :=
      narrow_sizeT_add p 2
    have hwide : widenString wideStringLE [] = [] := rfl
    unfold copyWideString copyChars advance
    simp only [hend, hwide, if_true]
    exact run_bind_ok hdata

theorem Facing.readString_wide_sized {todo : List UInt8} (h : Facing s done todo) (hpos : 0 < todo.length) :
    (readString .givenSize (-1) true wideStringLE).run s =
      (do
        let v ← readPrefix "ByteStreamReader::ReadString" s.idx
        let _ ← ByteStreamBuffer.load (v.1.toInt + (if wideStringLE then 1 else 0)) (v.2 / 2).toNat
        if (v.2 / 2).toNat ≠ 0 then throw .undefinedBehaviour
        setIdx (narrowDword (dword v.1 + v.2 + 0))
        return [] : StreamM (List UInt8)).run s := by
  unfold readString
  rw [run_bind_ok (h.safetyCheck (Nat.add_pos_right _ hpos) _)]
  rfl

/-- A size of zero is taken for no characters where an `int` counts its end. -/
theorem Facing.readString_wide_empty_iff (h : Facing s done (toLE 4 0 ++ rest)) (idx : UInt64)
    (hidx : idx.toNat = done.length + 4) :
    (∃ s', (readString .givenSize (-1) true wideStringLE).run s = .ok [] s' ∧ s'.idx = narrow idx) ↔
      done.length + 4 < 2 ^ 31 := by
  obtain ⟨m, hbuf, -, -⟩ := h.dword_ahead (length_toLE 4 0)
  rw [h.readString_wide_sized (by simp)]
  constructor
  · rintro ⟨s', hrun, -⟩
    obtain ⟨v, s₁, hprefix, -⟩ := exists_of_run_bind hrun
    rw [h.readPrefix_run (length_toLE 4 0)] at hprefix
    split_ifs at hprefix with hover
    exact not_le.mp hover
  · intro hint
    have hstart : dword (s.idx + 4) + 0 + 0 = dword (s.idx + 4) := (UInt32.add_zero _).trans (UInt32.add_zero _)
    rw [run_bind_ok (h.readPrefix_zero hint _)]
    refine ⟨{ s with idx := narrowDword (dword (s.idx + 4)) }, ?_, ?_⟩
    · have hhalf : ((0 : UInt32) / 2).toNat = 0 := rfl
      simp only [hhalf, hstart]
      rw [run_bind_ok (load_nothing hbuf _)]
      rfl
    · show narrowDword _ = _
      rw [narrowDword_eq_narrow_iff, h.toNat_dword_add_four hint, hidx]
      omega

/-- In front of a terminator the cursor stays. -/
theorem Facing.readString_wide_scanned_ok (h : Facing s done (0 :: 0 :: rest))
    (hrun : (readString .untilNullTerm (-1) true wideStringLE).run s = .ok str s') :
    s'.idx = narrowDword (dword s.idx) := by
  obtain ⟨extra, beyond, hbuf⟩ := h.buffer
  have hne := h.bufferSize_ne_zero (by simp)
  have hlo := h.nonneg
  have hzero : (Block.mk (done ++ 0 :: 0 :: rest ++ extra) beyond).peek
      (scanStart done.length wideStringLE + (if true then 2 else 1) * 0 : ℕ) = some 0 := by
    rw [Nat.mul_zero, Nat.add_zero, scanStart, List.append_assoc]
    rw [Block.peek_of_lt (by cases wideStringLE <;> simp [Block.size]), List.getElem?_append_right (Nat.le_add_right _ _),
      Nat.add_sub_cancel_left]
    cases wideStringLE <;> rfl
  cases hscan : scanLength s s.idx true wideStringLE with
  | none =>
    rw [readString_unscanned hbuf hne hlo hscan] at hrun
    cases hrun
  | some n =>
    have hn : n = 0 := UInt32.toNat_inj.mp (Nat.le_zero.mp (scanLength_le hbuf h.idx hzero hscan))
    subst hn
    rw [readString_wide_untilNullTerm hbuf hne hlo hscan, if_neg (by decide)] at hrun
    obtain ⟨bs, s₁, hload, hrest⟩ := exists_of_run_bind hrun
    cases hrest
    exact congrArg narrowDword ((UInt32.add_zero _).trans (UInt32.add_zero _))

theorem wideEncoding_comesBack_iff (hm : ∀ n < 2 ^ 33, (malloc n).isSome) (h : Holds s log room)
    (str : List UInt8) (mode : StringInterpretMode) (wideStringLE : Bool) :
    ComesBack (writeString malloc str mode true (-1) true wideStringLE)
        (readString mode (-1) true wideStringLE) str s ↔
      mode = .givenSize ∧ str = [] ∧ log.length + 4 < 2 ^ 31 := by
  by_cases hnone : str = [] ∧ mode ≠ .givenSizeNullTerm
  · obtain ⟨rfl, hmode⟩ := hnone
    have hroom : writtenBytes 2 ([] : List UInt16).length mode ≤ (reserve room 4).length := by
      have hreserve := le_length_reserve room 4
      cases mode with
      | givenSizeNullTerm => exact absurd rfl hmode
      | givenSize | untilNullTerm =>
        simp only [writtenBytes, List.length_nil]
        omega
    obtain ⟨s', idx, rest, hrun, hreader, hidx, hend, -⟩ := stringWrite_rereader h
      "ByteStreamWriter::WriteString" (fun p => p + UInt64.ofNat ([] : List UInt8).length) 4
      (h.serves hm (by decide)) hroom fun s₁ => copyWideString_nil (hm 2 (by norm_num)) hmode s₁.idx
    have hwrite : (writeString malloc [] mode true (-1) true wideStringLE).run s = .ok () s' := by
      rw [writeString_wide_eq]
      exact hrun
    rw [comesBack_iff hwrite, hidx]
    cases mode with
    | givenSizeNullTerm => exact absurd rfl hmode
    | givenSize =>
      rw [hreader.readString_wide_empty_iff idx hend]
      simp
    | untilNullTerm =>
      refine iff_of_false ?_ (by simp)
      rintro ⟨r', hread, hsame⟩
      rw [hreader.readString_wide_scanned_ok hread, narrowDword_eq_narrow_iff, hend, hreader.toNat_dword] at hsame
      simp only [writtenBytes, List.length_nil] at hsame
      omega
  · refine iff_of_false ?_ fun hall => hnone ⟨hall.2.1, by rw [hall.1]; decide⟩
    rintro ⟨s', -, hwrite, -⟩
    rw [writeString_wide_eq] at hwrite
    obtain ⟨p, incrIndex, s₁, hcopy⟩ := copied_of_checkedWrite hwrite
    exact hnone (nothing_of_copyWideString hcopy)

/-- A narrow string in a wide encoding comes back, with the reader where the writer ended, exactly when it is empty
and behind a size whose end an `int` counts. -/
theorem wide_encoding_iff (hm : ∀ n < 2 ^ 33, (malloc n).isSome) (h : InBuffer s) (hsound : Sound s)
    (str : List UInt8) (mode : StringInterpretMode) (wideStringLE : Bool) :
    ComesBack (writeString malloc str mode true (-1) true wideStringLE)
        (readString mode (-1) true wideStringLE) str s ↔
      mode = .givenSize ∧ str = [] ∧ s.idx.toInt.toNat + 4 < 2 ^ 31 := by
  obtain ⟨log, room, hholds, hlog, -⟩ := h.holds hsound
  rw [← hlog]
  exact wideEncoding_comesBack_iff hm hholds str mode wideStringLE

theorem wide_encoding_example :
    ComesBack (writeString plentiful [] .givenSize true (-1) true true) (readString .givenSize (-1) true true) []
      (writerOf 16 true) :=
  (wide_encoding_iff (fun _ _ => rfl) (writerOf_inBuffer (by norm_num) true) (by decide) [] .givenSize true).mpr
    ⟨rfl, rfl, by decide⟩

/-- The copy of one converted character starts behind the temporary buffer. -/
theorem converted_string_undefined :
    InBuffer (writerOf 16 true) ∧ Sound (writerOf 16 true) ∧
      (∃ s', (writeString plentiful [65] .givenSize true (-1) true true).run (writerOf 16 true) =
        .error .undefinedBehaviour s') ∧
      ¬ComesBack (writeString plentiful [65] .givenSize true (-1) true true)
        (readString .givenSize (-1) true true) [65] (writerOf 16 true) := by
  have hrun : ∃ s', (writeString plentiful [65] .givenSize true (-1) true true).run (writerOf 16 true) =
      .error .undefinedBehaviour s' := ⟨_, rfl⟩
  refine ⟨writerOf_inBuffer (by norm_num) true, by decide, hrun, ?_⟩
  rintro ⟨s', -, hwrite, -⟩
  obtain ⟨s₁, hundefined⟩ := hrun
  cases hundefined.symm.trans hwrite

end H1Z1Server
