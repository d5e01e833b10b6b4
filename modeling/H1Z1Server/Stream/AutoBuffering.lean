import H1Z1Server.Library.Outcome
import H1Z1Server.Stream.StringWrites
import H1Z1Server.Stream.RoundTrip

/-! Writers that buffer automatically: what any sequence of appends, `Resize` and `SetIdx` leaves,
and in which states the next append is served. -/
namespace H1Z1Server
open MachineInt MemoryBlock ByteOrder ByteStreamBuffer ByteStreamWriter Outcome

variable {malloc : Malloc} {s s' : ByteStreamBuffer}

/-- An error of C++ that a caller may catch leaves a state that `R` holds of. -/
def Caught (R : ByteStreamBuffer → Prop) (e : Abort) (s : ByteStreamBuffer) : Prop :=
  ∀ what, e = .exception what → R s

/-- The same writer, but for its memory, which may have grown. -/
structure Kept (s s' : ByteStreamBuffer) : Prop where
  owns : Owns s'
  sound : Sound s'
  idx : s'.idx = s.idx
  autoBuffer : s'.autoBuffer = s.autoBuffer
  le : s.bufferSize.toNat ≤ s'.bufferSize.toNat

theorem Kept.refl (howns : Owns s) (hsound : Sound s) : Kept s s := ⟨howns, hsound, rfl, rfl, le_rfl⟩

theorem Kept.trans {s'' : ByteStreamBuffer} (h : Kept s s') (h' : Kept s' s'') : Kept s s'' :=
  ⟨h'.owns, h'.sound, h'.idx.trans h.idx, h'.autoBuffer.trans h.autoBuffer, h.le.trans h'.le⟩

/-- `Resize` gives the writer the size that was asked for. To keep the contents in fewer bytes than
there are is undefined. -/
theorem resize_ends {size : UInt64} (hm : (malloc size.toNat).isSome) (howns : Owns s) (hsound : Sound s)
    (persist : Bool) :
    Ends ((resize malloc size persist).run s)
      (fun _ s' => Owns s' ∧ Sound s' ∧ s'.idx = s.idx ∧ s'.autoBuffer = s.autoBuffer ∧
        s'.bufferSize = size ∧ (persist = true → s.bufferSize.toNat ≤ size.toNat))
      (fun e _ => e = .undefinedBehaviour) := by
  cases persist with
  | false =>
    obtain ⟨beyond, hbeyond⟩ := Option.isSome_iff_exists.mp hm
    have hrun : (resize malloc size false).run s =
        .ok () { s with buffer := some (Block.zeroed size.toNat beyond), bufferSize := size } := by
      simp [resize, hbeyond]
    rw [hrun]
    refine ⟨?_, fun hnull => ?_, rfl, rfl, rfl, fun hpersist => absurd hpersist Bool.false_ne_true⟩
    · rintro _ ⟨⟩
      exact Block.size_zeroed _ _
    · cases hnull
  | true =>
    obtain ⟨bs, hback, hlen⟩ := howns.backed hsound
    by_cases hle : bs.length ≤ size.toNat
    · obtain ⟨s', hrun, hback', hidx, -, hauto⟩ := resize_grow hback size hm hle
      have hsize : s'.bufferSize = size := by
        apply UInt64.toNat_inj.mp
        simp only [hback'.1, List.length_append, List.length_replicate]
        omega
      rw [hrun]
      exact ⟨hback'.owns, hback'.sound, hidx, hauto, hsize, fun _ => hlen ▸ hle⟩
    · rw [resize_shrink hback (not_le.mp hle)]
      rfl

theorem autoBufferF_ends {size : UInt64} (hm : (malloc (s.bufferSize + size).toNat).isSome) (howns : Owns s)
    (hsound : Sound s) (forcecond : Bool) :
    Ends ((autoBufferF malloc size forcecond).run s) (fun _ => Kept s)
      (fun e _ => e = .undefinedBehaviour) := by
  unfold autoBufferF
  refine Ends.bind (ends_get (ends_ite (fun _ => ?_) fun _ => ends_pure (.refl howns hsound)))
  apply (resize_ends hm howns hsound true).mono_ok
  rintro _ s' ⟨howns', hsound', hidx, hauto, hsize, hle⟩
  exact ⟨howns', hsound', hidx, hauto, by rw [hsize]; exact hle rfl⟩

/-- `SAFETY_CHECK` at the cursor changes nothing, and throws or gives the cursor. -/
theorem safetyCheck_ends (f : String) (startIndex : Int32) (hlo : 0 ≤ (resolve s startIndex).toInt) :
    Ends ((safetyCheck f startIndex).run s)
      (fun p s' => p = (resolve s startIndex, decide (startIndex = -1)) ∧ s' = s ∧
        s.buffer ≠ none ∧ s.bufferSize ≠ 0)
      (fun _ s' => s' = s) := by
  obtain hnull | ⟨m, hbuf, hzero⟩ := null_or_buffer s
  · rw [safetyCheck_null hnull]
    rfl
  · rw [safetyCheck_run hbuf hzero hlo]
    exact ⟨rfl, rfl, Option.ne_none_iff_exists'.mpr ⟨m, hbuf⟩, hzero⟩

/-- A store stays in the buffer, and only replaces its block. -/
theorem store_ends (howns : Owns s) (o : ℤ) (bs : List UInt8) :
    Ends ((store o bs).run s)
      (fun _ s' => Kept s s' ∧ s'.bufferSize = s.bufferSize ∧
        (bs ≠ [] → 0 ≤ o ∧ o + bs.length ≤ s.bufferSize.toNat))
      (fun e _ => e = .undefinedBehaviour) := by
  cases hbuf : s.buffer with
  | none =>
    have hrun : (store o bs).run s = .error .undefinedBehaviour s := by simp [store, hbuf]
    rw [hrun]
    rfl
  | some m =>
    have hm := howns m hbuf
    by_cases hnil : bs = []
    · have hrun : (store o bs).run s = .ok () { s with buffer := some m } := by
        simp [store, hbuf, hnil, Block.store]
      rw [hrun]
      refine ⟨⟨?_, fun hnull => (Option.some_ne_none m hnull).elim, rfl, rfl, le_rfl⟩, rfl,
        fun hne => absurd hnil hne⟩
      rintro _ ⟨⟩
      exact hm
    · by_cases hin : 0 ≤ o ∧ o + bs.length ≤ m.size
      · obtain ⟨m', hsize, hrun⟩ := store_inside hbuf hin.1 bs hin.2
        rw [hrun]
        refine ⟨⟨?_, fun hnull => (Option.some_ne_none m' hnull).elim, rfl, rfl, le_rfl⟩, rfl,
          fun _ => ⟨hin.1, hm ▸ hin.2⟩⟩
        rintro _ ⟨⟩
        exact hsize.trans hm
      · have hstore := Block.store_of_outside (m := m) (o := o) hnil (by omega)
        have hrun : (store o bs).run s = .error .undefinedBehaviour s := by simp [store, hbuf, hstore]
        rw [hrun]
        rfl

/-- What a write at the cursor leaves: the cursor has not moved back, and has bytes up to it. -/
structure Appended (s s' : ByteStreamBuffer) : Prop where
  owns : Owns s'
  sound : Sound s'
  autoBuffer : s'.autoBuffer = s.autoBuffer
  idx : s.idx.toInt ≤ s'.idx.toInt
  le : s'.idx.toInt ≤ s'.bufferSize.toNat

theorem Kept.appended {i : Int32} (h : Kept s s') (hlo : s.idx.toInt ≤ i.toInt)
    (hle : i.toInt ≤ s'.bufferSize.toNat) : Appended s { s' with idx := i } :=
  ⟨h.owns, h.sound, h.autoBuffer, hlo, hle⟩

theorem caught_undefined (R : ByteStreamBuffer → Prop) {e : Abort} (he : e = .undefinedBehaviour)
    (s : ByteStreamBuffer) : Caught R e s := by
  rintro what rfl
  cases he

/-- A write of known length at a cursor that no `int` arithmetic can lose. -/
theorem writeSized_ends {size : UInt64} (hm : (malloc (s.bufferSize + size).toNat).isSome) (howns : Owns s)
    (hsound : Sound s) (hlo : 0 ≤ s.idx.toInt) (hidx : s.idx.toInt < 2 ^ 30) (f : String)
    (hsize : size.toNat < 2 ^ 30) (image : Bool → List UInt8) :
    Ends ((writeSized malloc f size image (-1)).run s) (fun _ => Appended s) (Caught (Kept s)) := by
  have hundefined : ∀ e s', e = Abort.undefinedBehaviour → Caught (Kept s) e s' :=
    fun e s' he => caught_undefined _ he s'
  unfold writeSized
  refine Ends.bind ((autoBufferF_ends hm howns hsound false).mono (fun _ s₁ hk => ?_) hundefined)
  have hcursor : resolve s₁ (-1) = s.idx := hk.idx
  refine Ends.bind ((safetyCheck_ends f (-1) (by rw [hcursor]; exact hlo)).mono ?_ ?_)
  · rintro _ s₁ ⟨rfl, rfl, -, -⟩
    have hend := toNat_sizeT_add hlo size (by omega)
    rw [hcursor]
    refine Ends.bind (ends_get (ends_guard (fun _ _ _ => hk) fun hfits => ?_))
    refine Ends.bind ((store_ends hk.owns _ _).mono ?_ hundefined)
    rintro _ s₂ ⟨hk₂, hsize₂, -⟩
    have hint := toInt_narrow (n := sizeT s.idx + size) (by omega)
    have hin : (sizeT s.idx + size).toNat ≤ s₂.bufferSize.toNat := by
      rw [hsize₂, ← UInt64.le_iff_toNat_le]
      exact UInt64.not_lt.mp hfits
    exact (hk.trans hk₂).appended (by omega) (by omega)
  · rintro e s' rfl what -
    exact hk

/-- The length of a string is stored at the cursor. -/
theorem storeCount_ends (howns : Owns s) (n : ℕ) :
    Ends ((store s.idx.toInt (toLE 4 n)).run s)
      (fun _ s' => Kept s s' ∧ s'.bufferSize = s.bufferSize ∧ 0 ≤ s.idx.toInt ∧
        s.idx.toInt + 4 ≤ s.bufferSize.toNat)
      (fun e _ => e = .undefinedBehaviour) := by
  have hlen : (toLE 4 n).length = 4 := length_toLE 4 n
  apply (store_ends howns _ _).mono_ok
  rintro _ s' ⟨hk, hsize, hin⟩
  have hcount := hin fun hnil => by simp [hnil] at hlen
  rw [hlen] at hcount
  exact ⟨hk, hsize, hcount⟩

/-- The cursor is put behind what was stored. -/
theorem Kept.advanced {idx : UInt64} (hk : Kept s s') (hge : s.idx.toInt.toNat ≤ idx.toNat)
    (hlt : idx.toNat < 2 ^ 31) (hle : idx.toNat ≤ s'.bufferSize.toNat) :
    Ends ((advance true idx).run s') (fun _ => Appended s) (fun e _ => e = .undefinedBehaviour) := by
  have hint := toInt_narrow hlt
  exact hk.appended (by omega) (by omega)

/-- A string is stored behind its length. -/
theorem storeCounted_ends (howns : Owns s) (n : ℕ) (bs : List UInt8) {idx : UInt64}
    (hidx : idx.toNat = s.idx.toInt.toNat + 4 + bs.length) (hlt : idx.toNat < 2 ^ 31) :
    Ends ((do
      store s.idx.toInt (toLE 4 n)
      store (s.idx.toInt + 4) bs
      advance true idx : StreamM Unit).run s) (fun _ => Appended s)
      (fun e _ => e = .undefinedBehaviour) := by
  apply Ends.seq (storeCount_ends howns n)
  rintro _ s₁ ⟨hk₁, hsize₁, hlo, hcount⟩
  apply Ends.seq (store_ends hk₁.owns _ _)
  rintro _ s₂ ⟨hk₂, hsize₂, hin⟩
  apply (hk₁.trans hk₂).advanced (by omega) hlt
  by_cases hnil : bs = []
  · rw [hidx, hsize₂, hsize₁, hnil, List.length_nil]
    omega
  · have hbs := hin hnil
    rw [hidx, hsize₂]
    omega

section Copying
variable {α : Type} {encode : List α → List UInt8} {span : UInt64 → UInt64} {nul : α} {w : ℕ}

/-- The copying of a string at the cursor. -/
theorem copyChars_ends (hc : Encoding encode span w) (howns : Owns s) (hlo : 0 ≤ s.idx.toInt)
    {str : List α} (hstr : s.idx.toInt.toNat + (str.length + 1) * w + 4 < 2 ^ 31)
    (mode : StringInterpretMode) :
    Ends ((copyChars encode span nul str mode s.idx true).run s) (fun _ => Appended s)
      (fun e _ => e = .undefinedBehaviour) := by
  have hp := toNat_sizeT_of_nonneg hlo
  have hlen : (str ++ [nul]).length = str.length + 1 := by simp
  have hadd : (str.length + 1) * w = str.length * w + w := Nat.succ_mul _ _
  have hpos := hc.pos
  have hspan₀ := hc.span str.length (by omega)
  have hspan₁ := hc.span (str.length + 1) (by omega)
  have hfour : (4 : UInt64).toNat = 4 := rfl
  unfold copyChars
  cases mode with
  | givenSize =>
    apply storeCounted_ends howns <;> simp only [UInt64.toNat_add, hspan₀, hfour, hc.length] <;> omega
  | untilNullTerm =>
    apply Ends.seq (store_ends howns _ _)
    rintro _ s₁ ⟨hk₁, hsize₁, hin₁⟩
    have hbs := hin₁ (hc.terminated_ne_nil str nul)
    simp only [hc.length, hlen] at hbs
    apply hk₁.advanced <;> simp only [UInt64.toNat_add, hspan₁, hlen, hsize₁] <;> omega
  | givenSizeNullTerm =>
    apply storeCounted_ends howns <;> simp only [UInt64.toNat_add, hspan₁, hlen, hfour, hc.length] <;> omega

end Copying

theorem wideBuffer_ends (str_size : Int32) (wide : List UInt8) :
    Ends ((wideBuffer malloc str_size wide).run s) (fun _ s' => s' = s)
      (fun e _ => e = .undefinedBehaviour) := by
  unfold wideBuffer
  dsimp only
  split
  · exact ends_pure rfl
  · exact ends_throw rfl

/-- The end of a wide branch is only reached when there were no characters to convert. -/
theorem copyWide_ends (howns : Owns s) (data : Block) (advanced : ℕ) (o : ℤ) (str_size idx : Int32) :
    Ends ((copyWide data advanced o str_size (some idx)).run s)
      (fun _ s' => advanced = 0 ∧ ∃ s₁, Kept s s₁ ∧ s' = { s₁ with idx } ∧
        s₁.bufferSize = s.bufferSize ∧
        (str_size.toInt ≠ 0 → o + (sizeT str_size).toNat ≤ s.bufferSize.toNat))
      (fun e _ => e = .undefinedBehaviour) := by
  unfold copyWide
  cases hload : data.load advanced (sizeT str_size).toNat with
  | none => exact ends_throw rfl
  | some bs =>
    have hlen := Block.length_of_load hload
    apply Ends.seq (store_ends howns o bs)
    rintro _ s₁ ⟨hk, hsize, hin⟩
    refine ends_ite (fun _ => ends_throw rfl) fun hstill =>
      ends_pure ⟨not_not.mp hstill, s₁, hk, rfl, hsize, ?_⟩
    intro hne
    have hsome : bs ≠ [] := by
      rintro rfl
      have hwide := toNat_sizeT str_size
      have hlo := str_size.le_toInt
      have hhi := str_size.toInt_lt
      rw [List.length_nil] at hlen
      omega
    rw [← hlen]
    exact (hin hsome).2

/-- The checks of a string write, and what it copies if they pass. -/
theorem checkedWrite_ends {size : UInt64} (hm : (malloc (s.bufferSize + size).toNat).isSome) (howns : Owns s)
    (hsound : Sound s) (hlo : 0 ≤ s.idx.toInt) (f : String) (autoResize : Bool)
    (bound : UInt64 → UInt64) (copy : Int32 → Bool → StreamM Unit)
    (hcopy : ∀ s₁, Kept s s₁ →
      Ends ((copy s.idx true).run s₁) (fun _ => Appended s₁) (fun e _ => e = .undefinedBehaviour)) :
    Ends ((autoBufferF malloc size autoResize >>= fun _ =>
      checkedWrite f autoResize (-1) bound copy).run s) (fun _ => Appended s) (Caught (Kept s)) := by
  have hundefined : ∀ e s', e = Abort.undefinedBehaviour → Caught (Kept s) e s' :=
    fun e s' he => caught_undefined _ he s'
  refine Ends.bind ((autoBufferF_ends hm howns hsound autoResize).mono (fun _ s₁ hk => ?_)
    hundefined)
  have hcursor : resolve s₁ (-1) = s.idx := hk.idx
  unfold checkedWrite
  refine Ends.bind ((safetyCheck_ends f (-1) (by rw [hcursor]; exact hlo)).mono ?_ ?_)
  · rintro _ s₁ ⟨rfl, rfl, -, -⟩
    rw [hcursor]
    refine Ends.bind (ends_get (ends_guard (fun _ _ _ => hk) fun _ => ?_))
    apply (hcopy s₁ hk).mono _ hundefined
    intro _ s' happ
    have hidx := happ.idx
    rw [hk.idx] at hidx
    exact ⟨happ.owns, happ.sound, happ.autoBuffer.trans hk.autoBuffer, hidx, happ.le⟩
  · rintro e s' rfl what -
    exact hk

/-- What `WriteString` does with a wide string, by its mode. -/
def copyWideString (malloc : Malloc) (str : List UInt8) (wideStringLE : Bool)
    (mode : StringInterpretMode) (startIndex : Int32) (incrIndex : Bool) : StreamM Unit :=
  let size := UInt64.ofNat str.length
  let wide := widenString wideStringLE str
  match mode with
  | .givenSize => do
    let data ← wideBuffer malloc (narrow (size * 2)) wide
    store startIndex.toInt (toLE 4 str.length)
    copyWide data wide.length (startIndex.toInt + 4) (narrow (size * 2))
      (if incrIndex then some (narrow (sizeT (startIndex + narrow (size * 2)) + 4)) else none)
  | .untilNullTerm => do
    let data ← wideBuffer malloc (narrow (size * 2 + 2)) wide
    match data.store wide.length [0, 0] with
    | none => throw .undefinedBehaviour
    | some data =>
      copyWide data wide.length startIndex.toInt (narrow (size * 2 + 2))
        (if incrIndex then some (startIndex + narrow (size * 2 + 2)) else none)
  | .givenSizeNullTerm => do
    let _ ← wideBuffer malloc (narrow (size * 2 + 2)) wide
    store startIndex.toInt (toLE 4 str.length)
    throw .undefinedBehaviour

theorem writeString_wide_eq (str : List UInt8) (mode : StringInterpretMode) (autoResize : Bool)
    (startIndex : Int32) (wideStringLE : Bool) :
    writeString malloc str mode autoResize startIndex true wideStringLE =
      autoBufferF malloc (UInt64.ofNat str.length * 2 + 4) autoResize >>= fun _ =>
        checkedWrite "ByteStreamWriter::WriteString" autoResize startIndex
          (fun p => p + UInt64.ofNat str.length) (copyWideString malloc str wideStringLE mode) := by
  cases mode <;> rfl

@[simp] theorem length_widenString (wideStringLE : Bool) (str : List UInt8) :
    (widenString wideStringLE str).length = str.length * 2 := by
  cases wideStringLE <;> simp [widenString, List.length_flatMap]

theorem copyWideString_ends (howns : Owns s) (hlo : 0 ≤ s.idx.toInt) (hidx : s.idx.toInt < 2 ^ 30)
    (str : List UInt8) (wideStringLE : Bool) (mode : StringInterpretMode) :
    Ends ((copyWideString malloc str wideStringLE mode s.idx true).run s) (fun _ => Appended s)
      (fun e _ => e = .undefinedBehaviour) := by
  have hempty : (widenString wideStringLE str).length = 0 → str = [] := by
    rw [length_widenString]
    exact fun hzero => List.length_eq_zero_iff.mp (by omega)
  have hp := toNat_sizeT_of_nonneg hlo
  unfold copyWideString
  cases mode with
  | givenSize =>
    apply Ends.seq (wideBuffer_ends _ _)
    rintro data s rfl
    apply Ends.seq (storeCount_ends howns str.length)
    rintro _ s₁ ⟨hk₁, hsize₁, -, hcount⟩
    apply (copyWide_ends hk₁.owns data _ _ _ _).mono_ok
    rintro _ _ ⟨hzero, s₂, hk₂, rfl, hsize₂, -⟩
    obtain rfl := hempty hzero
    have hend : (sizeT s.idx + 4).toNat = s.idx.toInt.toNat + 4 := toNat_sizeT_add hlo 4 (by decide)
    have hint := toInt_narrow (n := sizeT s.idx + 4) (by omega)
    have hstart : s.idx + narrow (UInt64.ofNat ([] : List UInt8).length * 2) = s.idx := Int32.add_zero _
    rw [hstart]
    refine (hk₁.trans hk₂).appended (by omega) ?_
    rw [hsize₂, hsize₁, hint, hend]
    push_cast
    omega
  | untilNullTerm =>
    apply Ends.seq (wideBuffer_ends _ _)
    rintro data s rfl
    cases data.store (widenString wideStringLE str).length [0, 0] with
    | none => exact ends_throw rfl
    | some data =>
      apply (copyWide_ends howns data _ _ _ _).mono_ok
      rintro _ _ ⟨hzero, s₂, hk₂, rfl, hsize₂, hin₂⟩
      obtain rfl := hempty hzero
      have hterm : narrow (UInt64.ofNat ([] : List UInt8).length * 2 + 2) = 2 := by decide
      have hadd : (s.idx + 2).toInt = s.idx.toInt + 2 := toInt_add_of_lt rfl (by decide) (by omega)
      rw [hterm] at hin₂ ⊢
      have hbs := hin₂ (by decide)
      rw [show (sizeT 2).toNat = 2 from rfl] at hbs
      refine hk₂.appended (by omega) ?_
      rw [hsize₂, hadd]
      exact_mod_cast hbs
  | givenSizeNullTerm =>
    apply Ends.seq (wideBuffer_ends _ _)
    rintro data s rfl
    exact Ends.seq (storeCount_ends howns str.length) fun _ _ _ => ends_throw rfl

end H1Z1Server
