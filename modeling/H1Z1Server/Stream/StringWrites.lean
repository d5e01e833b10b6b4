import H1Z1Server.Stream.Containing

/-! `WriteString` of narrow strings and `WriteWString`: on which inputs they stay in the buffer. -/
namespace H1Z1Server
open MachineInt MemoryBlock ByteOrder ByteStreamBuffer ByteStreamWriter

variable {malloc : Malloc} {s : ByteStreamBuffer} {m : Block}

section Copying
variable {α : Type} {encode : List α → List UInt8} {span : UInt64 → UInt64} {nul : α} {w : ℕ}

theorem copyChars_contained_iff (hc : Encoding encode span w) (h : InBuffer s) (hbuf : s.buffer = some m)
    {str : List α} (hstr : (str.length + 1) * w ≤ 2 ^ 63) {p : Int32} {k : ℕ}
    (hk : p.toInt = k) (mode : StringInterpretMode) (incrIndex : Bool) :
    Contained (k + writtenBytes w str.length mode)
        ((copyChars encode span nul str mode p incrIndex).run s) ↔
      k + writtenBytes w str.length mode ≤ s.bufferSize.toNat := by
  have hp := toNat_sizeT_of_nonneg (i := p) (by omega)
  have hlt := p.toInt_lt
  have hlen : (str ++ [nul]).length = str.length + 1 := by simp
  have hadd : (str.length + 1) * w = str.length * w + w := Nat.succ_mul _ _
  have hspan₀ := hc.span str.length (by omega)
  have hspan₁ := hc.span (str.length + 1) (by omega)
  have hfour : (4 : UInt64).toNat = 4 := rfl
  unfold copyChars
  cases mode with
  | givenSize =>
    have hend := contained_prefixed_iff (p := k) h hbuf (length_toLE 4 str.length) (encode str) incrIndex
      (sizeT p + span (UInt64.ofNat str.length) + 4)
      (by simp only [UInt64.toNat_add, hspan₀, hfour, hc.length]; omega)
    simpa only [writtenBytes, hk, hc.length] using hend
  | untilNullTerm =>
    have hend := contained_store_iff (p := k) h hbuf (hc.terminated_ne_nil str nul) incrIndex
      (sizeT p + span (UInt64.ofNat (str ++ [nul]).length))
      (by simp only [UInt64.toNat_add, hspan₁, hlen, hc.length]; omega)
    simpa only [writtenBytes, hk, hc.length, hlen] using hend
  | givenSizeNullTerm =>
    have hend := contained_prefixed_iff (p := k) h hbuf
      (length_toLE 4 ((str ++ [nul]).length - 1)) (encode (str ++ [nul])) incrIndex
      (sizeT p + span (UInt64.ofNat (str ++ [nul]).length) + 4)
      (by simp only [UInt64.toNat_add, hspan₁, hfour, hlen, hc.length]; omega)
    simpa only [writtenBytes, hk, hc.length, hlen] using hend

end Copying

/-- The end of a string of `n` characters of `w` bytes that is written at an index. -/
def writeEnd (s : ByteStreamBuffer) (startIndex : Int32) (w n : ℕ) (mode : StringInterpretMode) : ℕ :=
  (resolve s startIndex).toInt.toNat + writtenBytes w n mode

theorem writeString_contained_iff (malloc : Malloc) (h : InBuffer s) {str : List UInt8}
    (hstr : str.length < 2 ^ 63) (mode : StringInterpretMode) (autoResize : Bool) {startIndex : Int32}
    (hlo : 0 ≤ (resolve s startIndex).toInt) (wideStringLE : Bool) :
    Contained (writeEnd s startIndex 1 str.length mode)
        ((writeString malloc str mode autoResize startIndex false wideStringLE).run s) ↔
      StringFits malloc s (str.length + 4) str.length (writtenBytes 1 str.length mode) autoResize
        startIndex := by
  have hn : (UInt64.ofNat str.length).toNat = str.length := toNat_ofNat_of_lt (by omega)
  rw [writeString_eq]
  apply contained_stringWrite_iff h
  · rw [UInt64.toNat_add, hn, show (4 : UInt64).toNat = 4 from rfl]
    omega
  · exact hlo
  · have hp := toNat_sizeT_of_nonneg hlo
    have hlt := (resolve s startIndex).toInt_lt
    simp only [UInt64.toNat_add, hn]
    omega
  · intro s' m h' hbuf
    exact copyChars_contained_iff narrowChars h' hbuf (by omega) (Int.toNat_of_nonneg hlo).symm mode _

theorem writeWString_contained_iff (h : InBuffer s) {str : List UInt16} (hstr : str.length < 2 ^ 62)
    (mode : StringInterpretMode) (autoResize : Bool) {startIndex : Int32}
    (hlo : 0 ≤ (resolve s startIndex).toInt) :
    Contained (writeEnd s startIndex 2 str.length mode)
        ((writeWString malloc str mode autoResize startIndex).run s) ↔
      StringFits malloc s (str.length * 2 + 4) (str.length + 4) (writtenBytes 2 str.length mode)
        autoResize startIndex := by
  have hn : (UInt64.ofNat str.length).toNat = str.length := toNat_ofNat_of_lt (by omega)
  have hfour : (4 : UInt64).toNat = 4 := rfl
  have hspan : (UInt64.ofNat str.length * 2).toNat = str.length * 2 := wideChars.span _ (by omega)
  rw [writeWString_eq]
  apply contained_stringWrite_iff h
  · rw [UInt64.toNat_add, hspan, hfour]
    omega
  · exact hlo
  · have hp := toNat_sizeT_of_nonneg hlo
    have hlt := (resolve s startIndex).toInt_lt
    simp only [UInt64.toNat_add, hn, hfour]
    omega
  · intro s' m h' hbuf
    exact copyChars_contained_iff wideChars h' hbuf (by omega) (Int.toNat_of_nonneg hlo).symm mode _

/-- The string writes stay in the buffer exactly when the growth they need is possible, and their
check refuses them or their bytes fit. -/
theorem string_writes_contained_iff (h : InBuffer s) (mode : StringInterpretMode) (autoResize : Bool)
    {startIndex : Int32} (hstart : startIndex = -1 ∨ 0 ≤ startIndex.toInt) :
    (∀ (str : List UInt8) (wideStringLE : Bool), str.length < 2 ^ 63 →
      (Contained (writeEnd s startIndex 1 str.length mode)
          ((writeString malloc str mode autoResize startIndex false wideStringLE).run s) ↔
        StringFits malloc s (str.length + 4) str.length (writtenBytes 1 str.length mode) autoResize
          startIndex)) ∧
    ∀ str : List UInt16, str.length < 2 ^ 62 →
      (Contained (writeEnd s startIndex 2 str.length mode)
          ((writeWString malloc str mode autoResize startIndex).run s) ↔
        StringFits malloc s (str.length * 2 + 4) (str.length + 4) (writtenBytes 2 str.length mode)
          autoResize startIndex) := by
  have hlo : 0 ≤ (resolve s startIndex).toInt := by
    unfold resolve
    split
    · exact h.nonneg
    · exact hstart.resolve_left ‹_›
  exact ⟨fun str wideStringLE hstr => writeString_contained_iff malloc h hstr mode autoResize hlo wideStringLE,
    fun str hstr => writeWString_contained_iff h hstr mode autoResize hlo⟩

/-- A writer that was made with `n` bytes. -/
def writerOf (n : ℕ) (autoBuffer : Bool) : ByteStreamBuffer :=
  ⟨some (Block.zeroed n fun _ => none), UInt64.ofNat n, 0, autoBuffer, false, true⟩

theorem writerOf_inBuffer {n : ℕ} (hn : n < 2 ^ 64) (autoBuffer : Bool) :
    InBuffer (writerOf n autoBuffer) := by
  refine ⟨?_, le_rfl, Int.natCast_nonneg _⟩
  rintro _ ⟨⟩
  exact (Block.size_zeroed _ _).trans (toNat_ofNat_of_lt hn).symm

theorem string_writes_contained_example :
    Contained 6 ((writeString (fun _ => none) [65] .givenSizeNullTerm).run (writerOf 6 true)) :=
  ((string_writes_contained_iff (writerOf_inBuffer (by norm_num) true) .givenSizeNullTerm true
    (.inl (rfl : (-1 : Int32) = -1))).1 [65] false (by decide)).mpr (by decide)

/-- A prefix, a character and a terminator take six bytes, of which five were made sure of. -/
theorem terminator_behind_buffer :
    InBuffer (writerOf 5 true) ∧
      ¬Contained 6 ((writeString (fun _ => none) [65] .givenSizeNullTerm).run (writerOf 5 true)) := by
  have hwriter : InBuffer (writerOf 5 true) := writerOf_inBuffer (by norm_num) true
  have hcursor : 0 ≤ (resolve (writerOf 5 true) (-1)).toInt := by decide
  have hstr : [(65 : UInt8)].length < 2 ^ 63 := by decide
  refine ⟨hwriter, fun hcontained => ?_⟩
  have hfits := (writeString_contained_iff (fun _ => none) hwriter hstr .givenSizeNullTerm true hcursor
    false).mp hcontained
  exact absurd hfits (by decide)

end H1Z1Server
