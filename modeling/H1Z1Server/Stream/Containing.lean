import H1Z1Server.Stream.LengthPrefix

/-! Writers that own their buffer, and the string writes: the room they make, the bound they
check, and the bytes they copy. -/
namespace H1Z1Server
open MachineInt MemoryBlock ByteOrder ByteStreamBuffer ByteStreamWriter

variable {malloc : Malloc} {s : ByteStreamBuffer} {m : Block}

/-- The memory of a writer: no buffer, or a block of exactly `bufferSize` bytes. -/
def Owns (s : ByteStreamBuffer) : Prop := ∀ m, s.buffer = some m → m.size = s.bufferSize.toNat

/-- A writer whose cursor stands inside its buffer or at its end. -/
structure InBuffer (s : ByteStreamBuffer) : Prop where
  owns : Owns s
  nonneg : 0 ≤ s.idx.toInt
  le : s.idx.toInt ≤ s.bufferSize.toNat

/-- There is nothing to lose: a null buffer is one of size zero. -/
def Sound (s : ByteStreamBuffer) : Prop := s.buffer = none → s.bufferSize = 0

instance : DecidablePred Sound := fun _ => inferInstanceAs (Decidable (_ → _))

theorem Owns.backed (howns : Owns s) (hsound : Sound s) :
    ∃ bs, Backed s bs ∧ bs.length = s.bufferSize.toNat := by
  cases hbuf : s.buffer with
  | none =>
    have hzero := congrArg UInt64.toNat (hsound hbuf)
    exact ⟨[], ⟨hzero, .inl ⟨rfl, hbuf⟩⟩, hzero.symm⟩
  | some m => exact ⟨m.bytes, ⟨(howns m hbuf).symm, .inr ⟨m.beyond, hbuf⟩⟩, howns m hbuf⟩

theorem Backed.owns {bs : List UInt8} (h : Backed s bs) : Owns s := by
  intro m hm
  obtain ⟨hsize, ⟨-, hnull⟩ | ⟨beyond, hbuf⟩⟩ := h
  · simp [hnull] at hm
  · simp only [hbuf, Option.some.injEq] at hm
    simp [← hm, Block.size, hsize]

theorem Backed.sound {bs : List UInt8} (h : Backed s bs) : Sound s := by
  intro hnull
  obtain ⟨hsize, ⟨rfl, -⟩ | ⟨beyond, hbuf⟩⟩ := h
  · exact UInt64.toNat_inj.mp hsize
  · simp [hbuf] at hnull

theorem InBuffer.holds (h : InBuffer s) (hsound : Sound s) :
    ∃ log room, Holds s log room ∧ log.length = s.idx.toInt.toNat ∧
      log.length + room.length = s.bufferSize.toNat := by
  obtain ⟨howns, hlo, hhi⟩ := h
  cases hbuf : s.buffer with
  | none =>
    have hzero := hsound hbuf
    rw [hzero, UInt64.toNat_zero] at hhi ⊢
    have hidx : s.idx.toInt = 0 := by omega
    refine ⟨[], [], ⟨⟨?_, .inl ⟨rfl, hbuf⟩⟩, hidx⟩, ?_, rfl⟩
    · rw [hzero]
      rfl
    · rw [hidx]
      rfl
  | some m =>
    have hsize : m.bytes.length = s.bufferSize.toNat := howns m hbuf
    have htake : (m.bytes.take s.idx.toInt.toNat).length = s.idx.toInt.toNat := by
      rw [List.length_take]
      omega
    refine ⟨m.bytes.take s.idx.toInt.toNat, m.bytes.drop s.idx.toInt.toNat, ⟨⟨?_, .inr ⟨m.beyond, ?_⟩⟩, ?_⟩,
      htake, ?_⟩
    · rw [List.take_append_drop, hsize]
    · rw [List.take_append_drop, hbuf]
    · rw [htake]
      omega
    · rw [← List.length_append, List.take_append_drop, hsize]

theorem Holds.owns {log room : List UInt8} (h : Holds s log room) : Owns s := by
  intro m hm
  obtain ⟨hsize, ⟨-, hnull⟩ | ⟨beyond, hbuf⟩⟩ := h.backed
  · rw [hnull] at hm
    cases hm
  · rw [hbuf] at hm
    cases hm
    exact hsize.symm

/-- Whether `AUTO_BUFFERF(need, forcecond)` makes the buffer grow. -/
def Grows (s : ByteStreamBuffer) (need : ℕ) (forcecond : Bool) : Prop :=
  (s.autoBuffer || forcecond) = true ∧ s.bufferSize.toNat < s.idx.toInt.toNat + need

instance (need : ℕ) (forcecond : Bool) : Decidable (Grows s need forcecond) :=
  inferInstanceAs (Decidable (_ ∧ _))

/-- The growth of the buffer by `need` bytes is possible. -/
def CanGrow (malloc : Malloc) (s : ByteStreamBuffer) (need : ℕ) : Prop :=
  Sound s ∧ Serves malloc (s.bufferSize.toNat + need)

instance (need : ℕ) : Decidable (CanGrow malloc s need) := inferInstanceAs (Decidable (_ ∧ _ ∧ _))

/-- `AUTO_BUFFERF(size, forcecond)` finds too little room behind the cursor. What room there is `size_t`
says, and it takes a cursor behind the end or before the start for a great deal. -/
def Asks (s : ByteStreamBuffer) (size : UInt64) (forcecond : Bool) : Prop :=
  (s.autoBuffer || forcecond) = true ∧ s.bufferSize - sizeT s.idx < size

instance (size : UInt64) (forcecond : Bool) : Decidable (Asks s size forcecond) :=
  inferInstanceAs (Decidable (_ ∧ _))

theorem Asks.pos {size : UInt64} {forcecond : Bool} (h : Asks s size forcecond) : 0 < size.toNat :=
  Nat.zero_lt_of_lt (UInt64.lt_iff_toNat_lt.mp h.2)

theorem asks_iff (h : InBuffer s) (size : UInt64) (forcecond : Bool) :
    Asks s size forcecond ↔ Grows s size.toNat forcecond := by
  have hcursor := toNat_sizeT_of_nonneg h.nonneg
  have hle := h.le
  have hfree : (s.bufferSize - sizeT s.idx).toNat = s.bufferSize.toNat - (sizeT s.idx).toNat :=
    UInt64.toNat_sub_of_le _ _ (by rw [UInt64.le_iff_toNat_le]; omega)
  rw [Asks, Grows, UInt64.lt_iff_toNat_lt, hfree]
  refine and_congr_right fun _ => ?_
  omega

theorem autoBufferF_unasked {size : UInt64} {forcecond : Bool} (h : ¬Asks s size forcecond) :
    (autoBufferF malloc size forcecond).run s = .ok () s := by
  unfold autoBufferF
  rw [run_bind_ok (EStateM.run_get _), if_neg (by simpa [Asks] using h)]
  rfl

theorem autoBufferF_asked {size : UInt64} {forcecond : Bool} (h : Asks s size forcecond) :
    (autoBufferF malloc size forcecond).run s = (resize malloc (s.bufferSize + size) true).run s := by
  unfold autoBufferF
  rw [run_bind_ok (EStateM.run_get _), if_pos (by simpa [Asks] using h)]

/-- A `Resize` to fewer bytes than the buffer has copies past the end of the new block. -/
theorem resize_shrink {bs : List UInt8} (h : Backed s bs) {size : UInt64}
    (hless : size.toNat < bs.length) :
    (resize malloc size true).run s = .error .undefinedBehaviour s := by
  have hne : bs ≠ [] := by
    rintro rfl
    exact Nat.not_lt_zero _ hless
  unfold resize
  simp only [Bool.not_true, Bool.false_eq_true, if_false]
  rw [run_bind_ok (run_map_ok (EStateM.run_get _)), h.contents]
  cases malloc size.toNat with
  | none =>
    obtain ⟨b, bs, rfl⟩ := List.exists_cons_of_ne_nil hne
    rfl
  | some beyond =>
    have houtside : (Block.zeroed size.toNat beyond).store 0 bs = none :=
      Block.store_of_outside hne (.inr (by simp; omega))
    simp only [houtside]
    rfl

/-- The growth of a writer that can grow leaves it a buffer of as many bytes more. -/
theorem autoBufferF_grows (howns : Owns s) {size : UInt64} {forcecond : Bool}
    (hasks : Asks s size forcecond) (hcan : CanGrow malloc s size.toNat) :
    ∃ s', (autoBufferF malloc size forcecond).run s = .ok () s' ∧ Owns s' ∧ s'.idx = s.idx ∧
      s'.bufferSize.toNat = s.bufferSize.toNat + size.toNat ∧ s'.buffer ≠ none := by
  obtain ⟨hsound, hfit, hm⟩ := hcan
  obtain ⟨bs, hback, hlen⟩ := howns.backed hsound
  have hnew : (s.bufferSize + size).toNat = s.bufferSize.toNat + size.toNat := by
    rw [UInt64.toNat_add, Nat.mod_eq_of_lt hfit]
  have hserves : (malloc (s.bufferSize + size).toNat).isSome := by rw [hnew]; exact hm
  obtain ⟨s', hrun, hback', hidx, -, -⟩ := resize_grow hback (s.bufferSize + size) hserves (by omega)
  have hsize : s'.bufferSize.toNat = s.bufferSize.toNat + size.toNat := by
    rw [hback'.1, List.length_append, List.length_replicate]
    omega
  refine ⟨s', (autoBufferF_asked hasks).trans hrun, hback'.owns, hidx, hsize, fun hnull => ?_⟩
  have hzero := congrArg UInt64.toNat (hback'.sound hnull)
  have hpos := hasks.pos
  rw [hsize, UInt64.toNat_zero] at hzero
  omega

/-- The growth of one that cannot is undefined: there is no memory, or `size_t` has lost what was asked
for, or there is no buffer to copy from. -/
theorem autoBufferF_breaks (howns : Owns s) {size : UInt64} {forcecond : Bool}
    (hasks : Asks s size forcecond) (hcannot : ¬CanGrow malloc s size.toNat) :
    (autoBufferF malloc size forcecond).run s = .error .undefinedBehaviour s := by
  rw [autoBufferF_asked hasks]
  have hpos := hasks.pos
  by_cases hsound : Sound s
  · obtain ⟨bs, hback, hlen⟩ := howns.backed hsound
    by_cases hfit : s.bufferSize.toNat + size.toNat < 2 ^ 64
    · have hnew : (s.bufferSize + size).toNat = s.bufferSize.toNat + size.toNat := by
        rw [UInt64.toNat_add, Nat.mod_eq_of_lt hfit]
      apply resize_starved hback (ne_zero_of_pos (by omega))
      rw [hnew, ← Option.not_isSome_iff_eq_none]
      exact fun hsome => hcannot ⟨hsound, hfit, hsome⟩
    · apply resize_shrink hback
      have hlt := size.toNat_lt
      rw [UInt64.toNat_add]
      omega
  · obtain ⟨hnull, hne⟩ := Classical.not_imp.mp hsound
    have hlost : s.contents = none := by
      rw [ByteStreamBuffer.contents, if_neg hne, hnull]
      rfl
    unfold resize
    simp only [Bool.not_true, Bool.false_eq_true, if_false]
    rw [run_bind_ok (run_map_ok (EStateM.run_get _)), hlost]
    cases malloc (s.bufferSize + size).toNat <;> rfl

/-- A write that would end at `last` stays inside: it returns or throws, and leaves a buffer of
`bufferSize` bytes with the cursor not behind its end, and not negative if an `int` has `last`. A
store outside of the buffer has neither outcome. -/
def Contained (last : ℕ) (r : EStateM.Result Abort ByteStreamBuffer Unit) : Prop :=
  match r with
  | .ok _ s' => Owns s' ∧ s'.idx.toInt ≤ s'.bufferSize.toNat ∧ (last < 2 ^ 31 → 0 ≤ s'.idx.toInt)
  | .error (.exception _) s' =>
    Owns s' ∧ s'.idx.toInt ≤ s'.bufferSize.toNat ∧ (last < 2 ^ 31 → 0 ≤ s'.idx.toInt)
  | .error _ _ => False

theorem store_inside (hbuf : s.buffer = some m) {o : ℤ} (ho : 0 ≤ o) (bs : List UInt8)
    (hin : o + bs.length ≤ m.size) :
    ∃ m', m'.size = m.size ∧ (store o bs).run s = .ok () { s with buffer := some m' } := by
  obtain ⟨k, rfl⟩ := Int.eq_ofNat_of_zero_le ho
  have hfits : k + bs.length ≤ m.size := by exact_mod_cast hin
  refine ⟨{ m with bytes := m.bytes.take k ++ bs ++ m.bytes.drop (k + bs.length) }, ?_, ?_⟩
  · have hbytes : k + bs.length ≤ m.bytes.length := hfits
    simp only [Block.size, List.length_append, List.length_take, List.length_drop]
    omega
  · have hstore := Block.store_of_inside hfits
    simp [store, hbuf, hstore]

theorem store_outside (hbuf : s.buffer = some m) {o : ℤ} {bs : List UInt8} (hne : bs ≠ [])
    (hout : (m.size : ℤ) < o + bs.length) : (store o bs).run s = .error .undefinedBehaviour s := by
  have hstore := Block.store_of_outside hne (.inr hout)
  simp [store, hbuf, hstore]

theorem narrow_le (n : UInt64) : (narrow n).toInt ≤ n.toNat := by
  have hnonneg := Int.natCast_nonneg n.toNat
  rw [narrow, Int32.toInt_ofInt, Int32.size, Int.bmod_def]
  split <;> omega

theorem contained_advance {incrIndex : Bool} {idx : UInt64} {last : ℕ} (h : InBuffer s)
    (hidx : idx.toNat = last) (hlast : last ≤ s.bufferSize.toNat) :
    Contained last ((advance incrIndex idx).run s) := by
  cases incrIndex with
  | false => exact ⟨h.owns, h.le, fun _ => h.nonneg⟩
  | true =>
    have hle := narrow_le idx
    refine ⟨h.owns, hle.trans (by rw [hidx]; exact_mod_cast hlast), fun hint => ?_⟩
    have hexact := toInt_narrow (n := idx) (by omega)
    simp only [hexact]
    exact Int.natCast_nonneg _

/-- Replacing the block of a buffer by one of the same size. -/
theorem InBuffer.replace (h : InBuffer s) {m' : Block} (hsize : m'.size = s.bufferSize.toNat) :
    InBuffer { s with buffer := some m' } := by
  refine ⟨?_, h.nonneg, h.le⟩
  rintro _ ⟨⟩
  exact hsize

/-- A string write without a prefix. -/
theorem contained_store_iff (h : InBuffer s) (hbuf : s.buffer = some m) {p : ℕ} {bs : List UInt8}
    (hne : bs ≠ []) (incrIndex : Bool) (idx : UInt64) (hidx : idx.toNat = p + bs.length) :
    Contained (p + bs.length) ((store p bs >>= fun _ => advance incrIndex idx).run s) ↔
      p + bs.length ≤ s.bufferSize.toNat := by
  have hm := h.owns m hbuf
  by_cases hin : p + bs.length ≤ m.size
  · obtain ⟨m', hsize, hrun⟩ := store_inside hbuf (Int.natCast_nonneg p) bs (by exact_mod_cast hin)
    have hfits : p + bs.length ≤ s.bufferSize.toNat := by omega
    rw [run_bind_ok hrun]
    exact iff_of_true (contained_advance (h.replace (hsize.trans hm)) hidx hfits) hfits
  · rw [run_bind_error (store_outside hbuf hne (by omega))]
    exact iff_of_false id (by omega)

/-- A string write behind a prefix of its size. -/
theorem contained_prefixed_iff (h : InBuffer s) (hbuf : s.buffer = some m) {p : ℕ}
    {size : List UInt8} (hsize : size.length = 4) (bs : List UInt8) (incrIndex : Bool) (idx : UInt64)
    (hidx : idx.toNat = p + (4 + bs.length)) :
    Contained (p + (4 + bs.length)) ((store p size >>= fun _ => store ((p : ℤ) + 4) bs >>= fun _ =>
        advance incrIndex idx).run s) ↔ p + (4 + bs.length) ≤ s.bufferSize.toNat := by
  have hm := h.owns m hbuf
  have hne : size ≠ [] := by
    rintro rfl
    cases hsize
  by_cases hin : p + 4 ≤ m.size
  · obtain ⟨m₁, hsize₁, hrun⟩ := store_inside hbuf (Int.natCast_nonneg p) size (by omega)
    have h₁ := h.replace (hsize₁.trans hm)
    rw [run_bind_ok hrun]
    by_cases hbs : bs = []
    · subst hbs
      have hnothing : (store ((p : ℤ) + 4) []).run { s with buffer := some m₁ } =
          .ok () { s with buffer := some m₁ } := rfl
      have hfits : p + (4 + ([] : List UInt8).length) ≤ s.bufferSize.toNat := by
        simp only [List.length_nil]
        omega
      rw [run_bind_ok hnothing]
      exact iff_of_true (contained_advance h₁ hidx hfits) hfits
    · have hcast : ((p : ℤ) + 4) = ((p + 4 : ℕ) : ℤ) := by push_cast; rfl
      rw [← Nat.add_assoc] at hidx ⊢
      rw [hcast]
      exact contained_store_iff h₁ rfl hbs incrIndex idx hidx
  · rw [run_bind_error (store_outside hbuf hne (by omega))]
    exact iff_of_false id (by omega)

/-- In a buffer of `size` bytes the check of a string write throws, or its bytes fit. -/
def Admits (autoResize : Bool) (p checked written size : ℕ) : Prop :=
  (autoResize = false ∧ size < p + checked) ∨ p + written ≤ size

instance (autoResize : Bool) (p checked written size : ℕ) :
    Decidable (Admits autoResize p checked written size) :=
  inferInstanceAs (Decidable (_ ∨ _))

theorem contained_checkedWrite_iff (h : InBuffer s) (f : String) (autoResize : Bool) {startIndex : Int32}
    {bound : UInt64 → UInt64} {copy : Int32 → Bool → StreamM Unit} {checked written : ℕ}
    (hlo : 0 ≤ (resolve s startIndex).toInt)
    (hbound : (bound (sizeT (resolve s startIndex))).toNat =
      (resolve s startIndex).toInt.toNat + checked)
    (hcopy : ∀ m, s.buffer = some m →
      (Contained ((resolve s startIndex).toInt.toNat + written)
          ((copy (resolve s startIndex) (decide (startIndex = -1))).run s) ↔
        (resolve s startIndex).toInt.toNat + written ≤ s.bufferSize.toNat)) :
    Contained ((resolve s startIndex).toInt.toNat + written)
        ((checkedWrite f autoResize startIndex bound copy).run s) ↔
      s.buffer = none ∨ s.bufferSize = 0 ∨
        Admits autoResize (resolve s startIndex).toInt.toNat checked written s.bufferSize.toNat := by
  have hthrow : ∀ last what, Contained last (.error (.exception what) s) :=
    fun _ _ => ⟨h.owns, h.le, fun _ => h.nonneg⟩
  unfold checkedWrite
  obtain hnull | ⟨m, hbuf, hzero⟩ := null_or_buffer s
  · rw [run_bind_error (safetyCheck_null hnull _ _), ← or_assoc]
    exact iff_of_true (hthrow _ _) (.inl hnull)
  · have hmany : bound (sizeT (resolve s startIndex)) > s.bufferSize ↔
        s.bufferSize.toNat < (resolve s startIndex).toInt.toNat + checked := by
      rw [gt_iff_lt, UInt64.lt_iff_toNat_lt, hbound]
    simp only [hbuf, reduceCtorEq, hzero, false_or, Admits]
    rw [run_bind_ok (safetyCheck_run hbuf hzero hlo f), run_bind_ok (EStateM.run_get _)]
    by_cases hrefused : autoResize = false ∧
        s.bufferSize.toNat < (resolve s startIndex).toInt.toNat + checked
    · rw [if_pos (by simpa [hmany] using hrefused.symm)]
      exact iff_of_true (hthrow _ _) (.inl hrefused)
    · rw [if_neg (by simpa [hmany, and_comm] using hrefused)]
      simp only [hrefused, false_or]
      exact hcopy m hbuf

/-- What must hold of the inputs for a string write to stay in the buffer: it makes room for
`need` bytes, checks `checked` of them, and writes `written`. -/
def StringFits (malloc : Malloc) (s : ByteStreamBuffer) (need checked written : ℕ) (autoResize : Bool)
    (startIndex : Int32) : Prop :=
  let p := (resolve s startIndex).toInt.toNat
  if Grows s need autoResize then
    CanGrow malloc s need ∧ Admits autoResize p checked written (s.bufferSize.toNat + need)
  else s.buffer = none ∨ s.bufferSize = 0 ∨ Admits autoResize p checked written s.bufferSize.toNat

instance (need checked written : ℕ) (autoResize : Bool) (startIndex : Int32) :
    Decidable (StringFits malloc s need checked written autoResize startIndex) :=
  inferInstanceAs (Decidable (if Grows s need autoResize then _ ∧ _ else _ ∨ _ ∨ _))

theorem contained_stringWrite_iff (h : InBuffer s) {f : String} {size : UInt64} {need : ℕ}
    {autoResize : Bool} {startIndex : Int32} {bound : UInt64 → UInt64}
    {copy : Int32 → Bool → StreamM Unit} {checked written : ℕ} (hneed : size.toNat = need)
    (hlo : 0 ≤ (resolve s startIndex).toInt)
    (hbound : (bound (sizeT (resolve s startIndex))).toNat =
      (resolve s startIndex).toInt.toNat + checked)
    (hcopy : ∀ s' m, InBuffer s' → s'.buffer = some m →
      (Contained ((resolve s startIndex).toInt.toNat + written)
          ((copy (resolve s startIndex) (decide (startIndex = -1))).run s') ↔
        (resolve s startIndex).toInt.toNat + written ≤ s'.bufferSize.toNat)) :
    Contained ((resolve s startIndex).toInt.toNat + written) ((autoBufferF malloc size autoResize >>= fun _ =>
        checkedWrite f autoResize startIndex bound copy).run s) ↔
      StringFits malloc s need checked written autoResize startIndex := by
  subst hneed
  unfold StringFits
  by_cases hgrows : Grows s size.toNat autoResize
  · simp only [hgrows, if_true]
    have hasks := (asks_iff h size autoResize).mpr hgrows
    by_cases hcan : CanGrow malloc s size.toNat
    · obtain ⟨s', hrun, howns, hidx, hsize, hbuf⟩ := autoBufferF_grows h.owns hasks hcan
      have h' : InBuffer s' := by
        refine ⟨howns, by rw [hidx]; exact h.nonneg, ?_⟩
        rw [hidx, hsize]
        exact h.le.trans (by push_cast; omega)
      have hresolve : resolve s' startIndex = resolve s startIndex := by simp only [resolve, hidx]
      have hpos : s'.bufferSize ≠ 0 := by
        have hlt := hgrows.2
        have hle := h.le
        exact ne_zero_of_pos (by omega)
      rw [← hresolve] at hlo hbound hcopy
      have hchecked := contained_checkedWrite_iff h' f autoResize hlo hbound fun m => hcopy s' m h'
      rw [hresolve, hsize] at hchecked
      rw [run_bind_ok hrun, hchecked]
      simp only [hbuf, hpos, hcan, false_or, true_and]
    · rw [run_bind_error (autoBufferF_breaks h.owns hasks hcan)]
      exact iff_of_false id fun hfits => hcan hfits.1
  · simp only [hgrows, if_false]
    rw [run_bind_ok (autoBufferF_unasked (mt (asks_iff h size autoResize).mp hgrows))]
    exact contained_checkedWrite_iff h f autoResize hlo hbound fun m => hcopy s m h

end H1Z1Server
