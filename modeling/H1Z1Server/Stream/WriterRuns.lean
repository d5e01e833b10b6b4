import H1Z1Server.Stream.AutoBuffering

/-! Runs of a writer that buffers automatically: appends, `Resize` and `SetIdx` in any order, and the
states in which the next append is served. -/
namespace H1Z1Server
open MachineInt MemoryBlock ByteOrder ByteStreamBuffer ByteStreamWriter Outcome

variable {malloc : Malloc} {s s' : ByteStreamBuffer}

/-- The calls on a writer. An append is a write that is given no index. -/
inductive WriterOp where
  | append (it : Item)
  | appendString (str : List UInt8) (mode : StringInterpretMode)
      (autoResize wideString wideStringLE : Bool)
  | appendWString (str : List UInt16) (mode : StringInterpretMode) (autoResize : Bool)
  | resize (bufferSize : UInt64) (persist : Bool)
  | setIdx (idx : Int32)

def Item.size : Item → ℕ
  | byte _ => 1
  | word _ => 2
  | dword _ => 4
  | qword _ => 8
  | data bs => bs.length
  | string str => str.length + 4

namespace WriterOp

def run (malloc : Malloc) : WriterOp → StreamM Unit
  | append it => it.write malloc
  | appendString str mode autoResize wideString wideStringLE =>
    writeString malloc str mode autoResize (-1) wideString wideStringLE
  | appendWString str mode autoResize => writeWString malloc str mode autoResize
  | resize bufferSize persist => ByteStreamBuffer.resize malloc bufferSize persist
  | setIdx idx => ByteStreamBuffer.setIdx idx

/-- Sizes and indices below 2^30, and no index below zero. -/
def Small : WriterOp → Prop
  | append it => it.size < 2 ^ 30
  | appendString str _ _ _ _ => str.length + 4 < 2 ^ 30
  | appendWString str _ _ => str.length * 2 + 4 < 2 ^ 30
  | resize bufferSize _ => bufferSize.toNat < 2 ^ 30
  | setIdx idx => 0 ≤ idx.toInt ∧ idx.toInt < 2 ^ 30

/-- The call leaves the cursor in the buffer: no smaller size than the index, no larger index than
the size. -/
def Tame (s : ByteStreamBuffer) : WriterOp → Prop
  | resize bufferSize _ => s.idx.toInt ≤ bufferSize.toNat
  | setIdx idx => idx.toInt ≤ s.bufferSize.toNat
  | _ => True

end WriterOp

/-- What all calls preserve in a writer that buffers automatically. -/
structure Steady (s : ByteStreamBuffer) : Prop where
  owns : Owns s
  sound : Sound s
  nonneg : 0 ≤ s.idx.toInt
  autoBuffer : s.autoBuffer = true

/-- The writer is still steady, and its cursor in the buffer if it was and the call is tame. -/
def Follows (s : ByteStreamBuffer) (op : WriterOp) (s' : ByteStreamBuffer) : Prop :=
  Steady s' ∧ (op.Tame s → s.idx.toInt ≤ s.bufferSize.toNat → s'.idx.toInt ≤ s'.bufferSize.toNat)

theorem Steady.appended (h : Steady s) (op : WriterOp) (happ : Appended s s') : Follows s op s' :=
  ⟨⟨happ.owns, happ.sound, h.nonneg.trans happ.idx, happ.autoBuffer.trans h.autoBuffer⟩,
    fun _ _ => happ.le⟩

theorem Steady.kept (h : Steady s) (op : WriterOp) (hkept : Kept s s') : Follows s op s' := by
  have hidx := h.nonneg
  rw [← hkept.idx] at hidx
  refine ⟨⟨hkept.owns, hkept.sound, hidx, hkept.autoBuffer.trans h.autoBuffer⟩, fun _ hle => ?_⟩
  rw [hkept.idx]
  exact hle.trans (by exact_mod_cast hkept.le)

/-- An append ends in a state that follows, if it ends as it must. -/
theorem Steady.append (h : Steady s) (op : WriterOp)
    (hends : Ends ((op.run malloc).run s) (fun _ => Appended s) (Caught (Kept s))) :
    Ends ((op.run malloc).run s) (fun _ => Follows s op) (Caught (Follows s op)) :=
  hends.mono (fun _ _ happ => h.appended op happ) fun _ _ hcaught what he =>
    h.kept op (hcaught what he)

/-- What a small append asks for can be had. -/
theorem grown_served (hm : ∀ n < 2 ^ 32, (malloc n).isSome) (hsize : s.bufferSize.toNat < 2 ^ 30) {size : UInt64}
    (hfit : size.toNat < 2 ^ 31) : (malloc (s.bufferSize + size).toNat).isSome := by
  apply hm
  rw [UInt64.toNat_add]
  omega

theorem toNat_need {n : ℕ} (h : n < 2 ^ 62) : (UInt64.ofNat n + 4).toNat = n + 4 := by
  have hfour : (4 : UInt64).toNat = 4 := rfl
  rw [UInt64.toNat_add, toNat_ofNat_of_lt (by omega), hfour]
  omega

theorem toNat_wideNeed {n : ℕ} (h : n < 2 ^ 62) : (UInt64.ofNat n * 2 + 4).toNat = n * 2 + 4 := by
  have htwo : (2 : UInt64).toNat = 2 := rfl
  have hfour : (4 : UInt64).toNat = 4 := rfl
  rw [UInt64.toNat_add, UInt64.toNat_mul, toNat_ofNat_of_lt (by omega), htwo, hfour]
  omega

theorem appendString_ends (hm : ∀ n < 2 ^ 32, (malloc n).isSome) (h : Steady s)
    (hsize : s.bufferSize.toNat < 2 ^ 30) (hidx : s.idx.toInt < 2 ^ 30)
    {str : List UInt8} (hstr : str.length + 4 < 2 ^ 30) (mode : StringInterpretMode)
    (autoResize wideString wideStringLE : Bool) :
    Ends ((writeString malloc str mode autoResize (-1) wideString wideStringLE).run s)
      (fun _ => Appended s) (Caught (Kept s)) := by
  have hlo := h.nonneg
  cases wideString with
  | false =>
    have hneed : (UInt64.ofNat str.length + 4).toNat < 2 ^ 31 := by
      rw [toNat_need (by omega)]
      omega
    rw [writeString_eq]
    apply checkedWrite_ends (grown_served hm hsize hneed) h.owns h.sound hlo
    intro s₁ hk
    rw [← hk.idx] at hlo hidx ⊢
    exact copyChars_ends narrowChars hk.owns hlo (by omega) mode
  | true =>
    have hneed : (UInt64.ofNat str.length * 2 + 4).toNat < 2 ^ 31 := by
      rw [toNat_wideNeed (by omega)]
      omega
    rw [writeString_wide_eq]
    apply checkedWrite_ends (grown_served hm hsize hneed) h.owns h.sound hlo
    intro s₁ hk
    rw [← hk.idx] at hlo hidx ⊢
    exact copyWideString_ends hk.owns hlo hidx str wideStringLE mode

theorem appendWString_ends (hm : ∀ n < 2 ^ 32, (malloc n).isSome) (h : Steady s)
    (hsize : s.bufferSize.toNat < 2 ^ 30) (hidx : s.idx.toInt < 2 ^ 30)
    {str : List UInt16} (hstr : str.length * 2 + 4 < 2 ^ 30) (mode : StringInterpretMode)
    (autoResize : Bool) :
    Ends ((writeWString malloc str mode autoResize).run s) (fun _ => Appended s) (Caught (Kept s)) := by
  have hlo := h.nonneg
  have hneed : (UInt64.ofNat str.length * 2 + 4).toNat < 2 ^ 31 := by
    rw [toNat_wideNeed (by omega)]
    omega
  rw [writeWString_eq]
  apply checkedWrite_ends (grown_served hm hsize hneed) h.owns h.sound hlo
  intro s₁ hk
  rw [← hk.idx] at hlo hidx ⊢
  exact copyChars_ends wideChars hk.owns hlo (by omega) mode

theorem append_ends (hm : ∀ n < 2 ^ 32, (malloc n).isSome) (h : Steady s)
    (hsize : s.bufferSize.toNat < 2 ^ 30) (hidx : s.idx.toInt < 2 ^ 30)
    {it : Item} (hit : it.size < 2 ^ 30) :
    Ends ((it.write malloc).run s) (fun _ => Appended s) (Caught (Kept s)) := by
  have hsized : ∀ (f : String) (size : UInt64) (image : Bool → List UInt8), size.toNat < 2 ^ 30 →
      Ends ((writeSized malloc f size image (-1)).run s) (fun _ => Appended s) (Caught (Kept s)) :=
    fun f size image hlen => writeSized_ends (grown_served hm hsize (by omega)) h.owns h.sound h.nonneg hidx f
      hlen image
  cases it with
  | byte b =>
    unfold Item.write writeByte
    exact hsized _ _ _ (by decide)
  | word w =>
    unfold Item.write writeWord
    exact hsized _ _ _ (by decide)
  | dword d =>
    unfold Item.write writeDword
    exact hsized _ _ _ (by decide)
  | qword q =>
    unfold Item.write writeQword
    exact hsized _ _ _ (by decide)
  | data bs =>
    have hlen : bs.length < 2 ^ 30 := hit
    unfold Item.write writeData
    exact hsized _ _ _ (by rw [toNat_ofNat_of_lt (by omega)]; exact hlen)
  | string str =>
    unfold Item.write
    exact appendString_ends hm h hsize hidx hit .givenSize true false false

/-- What one call preserves. -/
theorem WriterOp.run_follows (hm : ∀ n < 2 ^ 32, (malloc n).isSome) (h : Steady s)
    (hsize : s.bufferSize.toNat < 2 ^ 30) (hidx : s.idx.toInt < 2 ^ 30)
    {op : WriterOp} (hsmall : op.Small) :
    Ends ((op.run malloc).run s) (fun _ => Follows s op) (Caught (Follows s op)) := by
  cases op with
  | append it => exact h.append _ (append_ends hm h hsize hidx hsmall)
  | appendString str mode autoResize wideString wideStringLE =>
    exact h.append _ (appendString_ends hm h hsize hidx hsmall mode autoResize wideString wideStringLE)
  | appendWString str mode autoResize =>
    exact h.append _ (appendWString_ends hm h hsize hidx hsmall mode autoResize)
  | resize bufferSize persist =>
    apply (resize_ends (hm _ (hsmall.trans (by decide))) h.owns h.sound persist).mono
    · rintro _ s' ⟨howns, hsound, hkeep, hauto, hresized, -⟩
      refine ⟨⟨howns, hsound, ?_, hauto.trans h.autoBuffer⟩, fun htame _ => ?_⟩
      · rw [hkeep]
        exact h.nonneg
      · rw [hkeep, hresized]
        exact htame
    · exact fun e s' he => caught_undefined _ he s'
  | setIdx idx => exact ⟨⟨h.owns, h.sound, hsmall.1, h.autoBuffer⟩, fun htame _ => htame⟩

/-- One call, which returns or throws an exception that the program catches. -/
def Steps (malloc : Malloc) (s : ByteStreamBuffer) (op : WriterOp) (s' : ByteStreamBuffer) : Prop :=
  (op.run malloc).run s = .ok () s' ∨
    ∃ what, (op.run malloc).run s = .error (.exception what) s'

/-- The states of an automatically buffering writer that calls with `P` reach from its
construction, sizes and indices being below 2^30. -/
inductive Reaches (malloc : Malloc) (P : ByteStreamBuffer → WriterOp → Prop) : ByteStreamBuffer → Prop
  | made {bufferSize : UInt64} {bigEndian : Bool} {s : ByteStreamBuffer}
      (hsize : bufferSize.toNat < 2 ^ 30)
      (hmade : initializeWriter malloc bufferSize bigEndian true = .ok s) : Reaches malloc P s
  | call {s s' : ByteStreamBuffer} {op : WriterOp} (hreach : Reaches malloc P s) (hp : P s op)
      (hsmall : op.Small) (hstep : Steps malloc s op s') (hsize : s'.bufferSize.toNat < 2 ^ 30)
      (hidx : s'.idx.toInt < 2 ^ 30) : Reaches malloc P s'

variable {P : ByteStreamBuffer → WriterOp → Prop}

theorem Steps.follows (hm : ∀ n < 2 ^ 32, (malloc n).isSome) {op : WriterOp} (hstep : Steps malloc s op s')
    (h : Steady s) (hsize : s.bufferSize.toNat < 2 ^ 30) (hidx : s.idx.toInt < 2 ^ 30)
    (hsmall : op.Small) : Follows s op s' := by
  have hends := WriterOp.run_follows hm h hsize hidx hsmall
  rcases hstep with hrun | ⟨what, hrun⟩
  · rw [hrun] at hends
    exact hends
  · rw [hrun] at hends
    exact hends what rfl

theorem Reaches.small (hreach : Reaches malloc P s) (hm : ∀ n < 2 ^ 32, (malloc n).isSome) :
    Steady s ∧ s.bufferSize.toNat < 2 ^ 30 ∧ s.idx.toInt < 2 ^ 30 := by
  induction hreach with
  | @made bufferSize bigEndian s hsize hmade =>
    obtain ⟨w, hinit, h, -, hauto⟩ := initializeWriter_run (hm _ (hsize.trans (by decide))) bigEndian true
    cases hmade.symm.trans hinit
    have hidx : s.idx.toInt = 0 := h.idx
    have hbytes : s.bufferSize.toNat = bufferSize.toNat := by simpa using h.backed.1
    exact ⟨⟨h.backed.owns, h.backed.sound, hidx.ge, hauto⟩, by omega, by omega⟩
  | call _ _ hsmall hstep hsize hidx ih => exact ⟨(hstep.follows hm ih.1 ih.2.1 ih.2.2 hsmall).1, hsize, hidx⟩

/-- Tame calls keep the cursor in the buffer. -/
theorem Reaches.idx_le (hreach : Reaches malloc P s) (hm : ∀ n < 2 ^ 32, (malloc n).isSome)
    (htame : ∀ s op, P s op → op.Tame s) : s.idx.toInt ≤ s.bufferSize.toNat := by
  induction hreach with
  | @made bufferSize bigEndian s hsize hmade =>
    obtain ⟨w, hinit, h, -, -⟩ := initializeWriter_run (hm _ (hsize.trans (by decide))) bigEndian true
    cases hmade.symm.trans hinit
    have hidx : s.idx.toInt = 0 := h.idx
    omega
  | call hreach hp hsmall hstep _ _ ih =>
    obtain ⟨hsteady, hsize, hidx⟩ := hreach.small hm
    exact (hstep.follows hm hsteady hsize hidx hsmall).2 (htame _ _ hp) ih

/-- The writes of a known width: a number, or data that are not empty. -/
def Item.Sized : Item → Prop
  | data bs => bs ≠ []
  | string _ => False
  | _ => True

/-- The next append is served: it returns, its bytes stand where the cursor was, the cursor has moved
behind them, and the buffer has grown by them if it was too small. -/
def Served (malloc : Malloc) (s : ByteStreamBuffer) (it : Item) : Prop :=
  ∃ s', (it.write malloc).run s = .ok () s' ∧
    (load s.idx.toInt it.size).run s' = .ok (it.encode s.bigEndian) s' ∧
    s'.idx.toInt = s.idx.toInt + it.size ∧
    (s'.bufferSize.toNat : ℤ) =
      if (s.bufferSize.toNat : ℤ) < s.idx.toInt + it.size then s.bufferSize.toNat + it.size
      else s.bufferSize.toNat

@[simp] theorem Item.length_encode (bigEndian : Bool) (it : Item) :
    (it.encode bigEndian).length = it.size := by
  cases it <;> simp [encode, size, Nat.add_comm]

theorem Item.Sized.pos {it : Item} (h : it.Sized) : 0 < it.size := by
  cases it with
  | data bs => exact List.length_pos_iff.mpr h
  | string str => exact h.elim
  | _ => simp [size]

theorem served_of_le (hm : ∀ n < 2 ^ 32, (malloc n).isSome) (h : Steady s) (hsize : s.bufferSize.toNat < 2 ^ 30)
    {it : Item} (hsized : it.Sized) (hit : it.size < 2 ^ 30)
    (hle : s.idx.toInt ≤ s.bufferSize.toNat) : Served malloc s it := by
  have hin : InBuffer s := ⟨h.owns, h.nonneg, hle⟩
  obtain ⟨log, room, hholds, hlog, hlen⟩ := hin.holds h.sound
  have hdata : it ≠ .data [] := by
    rintro rfl
    exact hsized rfl
  have hpos := hsized.pos
  have henc := it.length_encode s.bigEndian
  obtain ⟨s', hrun, hafter, -, -⟩ := write_run hholds hdata (.inl h.autoBuffer) (by rw [henc]; omega)
    (fun _ => ⟨by rw [henc]; omega, hm _ (by rw [henc]; omega)⟩)
  rw [henc] at hafter
  have hbytes := hafter.backed.1
  have hidx' := hafter.idx
  have hidx := hholds.idx
  simp only [List.length_append, henc] at hbytes hidx'
  refine ⟨s', hrun, ?_, ?_, ?_⟩
  · obtain ⟨-, ⟨hnil, -⟩ | ⟨beyond, hbuf⟩⟩ := hafter.backed
    · have hnone := congrArg List.length hnil
      simp only [List.length_append, henc, List.length_nil] at hnone
      omega
    · have hload := Block.load_append
        (m := ⟨log ++ it.encode s.bigEndian ++ roomAfter room it.size, beyond⟩) rfl
      rw [henc] at hload
      rw [load_run, hbuf, hidx, Option.bind_some, hload]
  · rw [hidx', hidx]
    push_cast
    rfl
  · rw [hbytes]
    unfold roomAfter reserve
    simp only [List.length_drop]
    split <;> split <;> simp <;> omega

/-- Behind the end of its buffer a writer does not grow, and throws. -/
theorem writeSized_refused (hlo : 0 ≤ s.idx.toInt) (hidx : s.idx.toInt < 2 ^ 30)
    (hlt : (s.bufferSize.toNat : ℤ) < s.idx.toInt) (f : String) {size : UInt64}
    (hsize : size.toNat < 2 ^ 30) (image : Bool → List UInt8) :
    ∃ what, (writeSized malloc f size image (-1)).run s = .error (.exception what) s := by
  have hcursor : resolve s (-1) = s.idx := rfl
  have hnat := toNat_sizeT_of_nonneg hlo
  -- the free room is a difference of unsigned numbers, and enormous
  have hfree : (s.bufferSize - sizeT s.idx).toNat = 2 ^ 64 + s.bufferSize.toNat - s.idx.toInt.toNat := by
    rw [UInt64.toNat_sub]
    omega
  have hgrown : (autoBufferF malloc size false).run s = .ok () s := by
    unfold autoBufferF
    rw [run_bind_ok (EStateM.run_get _), if_neg]
    · rfl
    · rw [Bool.and_eq_true, decide_eq_true_eq, gt_iff_lt, UInt64.lt_iff_toNat_lt, hfree]
      omega
  have hend := toNat_sizeT_add hlo size (by omega)
  have hmany : sizeT s.idx + size > s.bufferSize := by
    rw [gt_iff_lt, UInt64.lt_iff_toNat_lt, hend]
    omega
  unfold writeSized
  rw [run_bind_ok hgrown]
  obtain hnull | ⟨m, hbuf, hzero⟩ := null_or_buffer s
  · exact ⟨_, run_bind_error (safetyCheck_null hnull _ _)⟩
  · rw [run_bind_ok (safetyCheck_run hbuf hzero (by rw [hcursor]; exact hlo) f), hcursor,
      run_bind_ok (EStateM.run_get _), if_pos hmany]
    exact ⟨_, rfl⟩

theorem write_refused (hlo : 0 ≤ s.idx.toInt) (hidx : s.idx.toInt < 2 ^ 30)
    (hlt : (s.bufferSize.toNat : ℤ) < s.idx.toInt) {it : Item} (hsized : it.Sized)
    (hit : it.size < 2 ^ 30) : ∃ what, (it.write malloc).run s = .error (.exception what) s := by
  cases it with
  | byte b =>
    unfold Item.write writeByte
    exact writeSized_refused hlo hidx hlt _ (by decide) _
  | word w =>
    unfold Item.write writeWord
    exact writeSized_refused hlo hidx hlt _ (by decide) _
  | dword d =>
    unfold Item.write writeDword
    exact writeSized_refused hlo hidx hlt _ (by decide) _
  | qword q =>
    unfold Item.write writeQword
    exact writeSized_refused hlo hidx hlt _ (by decide) _
  | data bs =>
    have hlen : bs.length < 2 ^ 30 := hit
    unfold Item.write writeData
    exact writeSized_refused hlo hidx hlt _ (by rw [toNat_ofNat_of_lt (by omega)]; exact hlen) _
  | string str => exact hsized.elim

/-- In every state that calls reach the next append is served exactly when the cursor is not behind the
end of the buffer; in a run of tame calls it is served in every state. -/
theorem appends_served_iff (hm : ∀ n < 2 ^ 32, (malloc n).isSome) (hreach : Reaches malloc P s) {it : Item}
    (hsized : it.Sized) (hit : it.size < 2 ^ 30) :
    (Served malloc s it ↔ s.idx.toInt ≤ s.bufferSize.toNat) ∧
      ((∀ s op, P s op → op.Tame s) → Served malloc s it) := by
  obtain ⟨hsteady, hsize, hidx⟩ := hreach.small hm
  have hserved := served_of_le hm hsteady hsize hsized hit
  refine ⟨⟨fun ⟨s', hrun, _⟩ => ?_, hserved⟩, fun htame => hserved (hreach.idx_le hm htame)⟩
  by_contra hbehind
  have hrefused : ∃ what, (it.write malloc).run s = .error (.exception what) s :=
    write_refused hsteady.nonneg hidx (not_le.mp hbehind) hsized hit
  obtain ⟨what, hthrow⟩ := hrefused
  rw [hrun] at hthrow
  cases hthrow

theorem writerOf_reached : Reaches plentiful P (writerOf 4 true) :=
  .made (by decide : (4 : UInt64).toNat < 2 ^ 30)
    (rfl : initializeWriter plentiful 4 false true = .ok (writerOf 4 true))

/-- An automatically buffering writer with these bytes. -/
def writerWith (bytes : List UInt8) (idx : Int32) : ByteStreamBuffer :=
  ⟨some ⟨bytes, fun _ => none⟩, UInt64.ofNat bytes.length, idx, true, false, true⟩

/-- A word, a dword that the buffer grows for, and a step back. -/
theorem writerWith_reached :
    Reaches plentiful (fun s op => op.Tame s) (writerWith [2, 1, 7, 0, 0, 0, 0, 0] 5) := by
  have hword : Steps plentiful (writerOf 4 true) (.append (.word 0x0102)) (writerWith [2, 1, 0, 0] 2) := .inl rfl
  have hdword : Steps plentiful (writerWith [2, 1, 0, 0] 2) (.append (.dword 7))
      (writerWith [2, 1, 7, 0, 0, 0, 0, 0] 6) := .inl rfl
  have hback : Steps plentiful (writerWith [2, 1, 7, 0, 0, 0, 0, 0] 6) (.setIdx 5)
      (writerWith [2, 1, 7, 0, 0, 0, 0, 0] 5) := .inl rfl
  have hreach : Reaches plentiful (fun s op => op.Tame s) (writerWith [2, 1, 0, 0] 2) :=
    .call writerOf_reached (by trivial) (by change 2 < 2 ^ 30; decide) hword (by decide) (by decide)
  have hreach' : Reaches plentiful (fun s op => op.Tame s) (writerWith [2, 1, 7, 0, 0, 0, 0, 0] 6) :=
    .call hreach (by trivial) (by change 4 < 2 ^ 30; decide) hdword (by decide) (by decide)
  have hsmall : (WriterOp.setIdx 5).Small := ⟨by decide, by decide⟩
  have htame : (WriterOp.setIdx 5).Tame (writerWith [2, 1, 7, 0, 0, 0, 0, 0] 6) := by
    show (5 : Int32).toInt ≤ ((8 : UInt64).toNat : ℤ)
    decide
  exact .call hreach' htame hsmall hback (by decide) (by decide)

theorem appends_served_example : Served plentiful (writerWith [2, 1, 7, 0, 0, 0, 0, 0] 5) (.qword 7) := by
  have hsized : (Item.qword 7).Sized := trivial
  exact (appends_served_iff (fun _ _ => rfl) writerWith_reached hsized (by decide)).2 fun _ _ htame => htame

/-- Four bytes, and the index set to ten. -/
def jumpedWriter : ByteStreamBuffer := { writerOf 4 true with idx := 10 }

/-- From there a byte is refused, though the writer could grow. -/
theorem jumped_writer_refuses :
    Reaches plentiful (fun _ _ => True) jumpedWriter ∧ ¬Served plentiful jumpedWriter (.byte 7) := by
  have hsmall : (WriterOp.setIdx 10).Small := ⟨by decide, by decide⟩
  have hstep : Steps plentiful (writerOf 4 true) (.setIdx 10) jumpedWriter := .inl rfl
  refine ⟨.call writerOf_reached trivial hsmall hstep (by decide) (by decide), ?_⟩
  rintro ⟨s', hrun, -⟩
  have hrefused : ∃ what, ((Item.byte 7).write plentiful).run jumpedWriter =
      .error (.exception what) jumpedWriter :=
    write_refused (by decide) (by decide) (by decide) (trivial : (Item.byte 7).Sized) (by decide)
  obtain ⟨what, hthrow⟩ := hrefused
  rw [hrun] at hthrow
  cases hthrow

end H1Z1Server
