import H1Z1Server.Stream.Checking

/-! The bounds checks of the reads and writes of known length: from which indices, and for which sizes, they
keep every access inside the buffer. -/
namespace H1Z1Server
open MachineInt MemoryBlock ByteOrder ByteStreamBuffer ByteStreamWriter ByteStreamReader Outcome

variable {malloc : Malloc} {s : ByteStreamBuffer} {m : Block} {startIndex : Int32}

/-- The reads of known length. -/
inductive SizedRead where
  | byte
  | word
  | dword
  | qword
  | data (dataSize : UInt64)

namespace SizedRead

/-- The read, and for `ReadData` the bytes that the pointer it returns is good for. -/
def run (startIndex : Int32) : SizedRead → StreamM Unit
  | byte => discard (readByte startIndex)
  | word => discard (readWord startIndex)
  | dword => discard (readDword startIndex)
  | qword => discard (readQword startIndex)
  | data dataSize => do
    let offset ← readData dataSize startIndex
    let _ ← load offset.toInt dataSize.toNat
    return ()

def size : SizedRead → UInt64
  | byte => 1
  | word => 2
  | dword => 4
  | qword => 8
  | data dataSize => dataSize

end SizedRead

/-- A stream over a block of exactly its size, with nothing around it that could be read. -/
structure Fenced (s : ByteStreamBuffer) : Prop where
  owns : Owns s
  beyond : ∀ m, s.buffer = some m → ∀ o, m.beyond o = none

/-- A call returns or throws: with nothing around its buffer, it accesses no other bytes. -/
def Guarded {α : Type} (r : EStateM.Result Abort ByteStreamBuffer α) : Prop :=
  Ends r (fun _ _ => True) fun e _ => e ≠ .undefinedBehaviour

/-- `n` bytes from an offset on are bytes of a buffer. -/
def Inside (size n : ℕ) (o : ℤ) : Prop := n = 0 ∨ 0 ≤ o ∧ o + n ≤ size

/-- An index that the bounds check of `n` bytes is right about: the sum of the two is no negative number
and none that `size_t` has no room for, or what `size_t` makes of it is too large as well. -/
def IndexHolds (size n : ℕ) (p : Int32) : Prop :=
  n = 0 ∨ p = -1 ∨ 0 ≤ p.toInt ∧ p.toInt + n < 2 ^ 64 ∨ (size : ℤ) < (p.toInt + n) % 2 ^ 64

instance (size n : ℕ) (p : Int32) : Decidable (IndexHolds size n p) :=
  inferInstanceAs (Decidable (_ ∨ _ ∨ _ ∧ _ ∨ _))

theorem guarded_exception {α : Type} (what : String) (s : ByteStreamBuffer) :
    Guarded (.error (.exception what) s : EStateM.Result Abort ByteStreamBuffer α) := by
  rintro ⟨⟩

theorem not_guarded_undefined {α : Type} (s : ByteStreamBuffer) :
    ¬Guarded (.error .undefinedBehaviour s : EStateM.Result Abort ByteStreamBuffer α) := fun h => h rfl

/-- The check of an index is right exactly where the bytes behind it are bytes of the buffer, unless it
throws. -/
theorem indexHolds_iff (s : ByteStreamBuffer) (size : UInt64) (p : Int32) :
    IndexHolds s.bufferSize.toNat size.toNat p ↔
      p = -1 ∨ s.bufferSize < sizeT p + size ∨ Inside s.bufferSize.toNat size.toNat p.toInt := by
  have hsum := toNat_sizeT_add_emod p size
  have hbuffer := s.bufferSize.toNat_lt
  have hmany : s.bufferSize < sizeT p + size ↔
      (s.bufferSize.toNat : ℤ) < (p.toInt + size.toNat) % 2 ^ 64 := by
    rw [UInt64.lt_iff_toNat_lt, ← hsum, Nat.cast_lt]
  have hp := p.le_toInt
  have hlt := p.toInt_lt
  rw [hmany]
  unfold IndexHolds Inside
  constructor
  · rintro (hzero | hlost | ⟨hlo, hfit⟩ | hmany)
    · exact .inr (.inr (.inl hzero))
    · exact .inl hlost
    · rw [Int.emod_eq_of_lt (by omega) hfit]
      omega
    · exact .inr (.inl hmany)
  · rintro (hlost | hmany | hzero | ⟨hlo, hin⟩)
    · exact .inr (.inl hlost)
    · exact .inr (.inr (.inr hmany))
    · exact .inl hzero
    · exact .inr (.inr (.inl ⟨hlo, by omega⟩))

/-- Behind `SAFETY_CHECK` a call has a buffer and an index. -/
theorem guarded_indexed_iff {α : Type} {f : String} {body : Int32 × Bool → StreamM α} {P : Prop}
    (hbody : ∀ m, s.buffer = some m → (Guarded ((body (resolve s startIndex, decide (startIndex = -1))).run s) ↔ P)) :
    Guarded ((safetyCheck f startIndex >>= body).run s) ↔
      s.buffer = none ∨ s.bufferSize = 0 ∨ resolve s startIndex = -1 ∨ P := by
  obtain hnull | ⟨m, hbuf, hzero⟩ := null_or_buffer s
  · rw [run_bind_error (safetyCheck_null hnull f startIndex), ← or_assoc]
    exact iff_of_true (guarded_exception _ s) (.inl hnull)
  · by_cases hindex : resolve s startIndex = -1
    · rw [run_bind_error (safetyCheck_unindexed hbuf hzero hindex f)]
      exact iff_of_true (guarded_exception _ s) (.inr (.inr (.inl hindex)))
    · rw [run_bind_ok (safetyCheck_passed hbuf hzero hindex f), hbody m hbuf]
      simp [hbuf, hzero, hindex]

/-- A store accesses the bytes that it replaces. -/
theorem guarded_store_iff (hbuf : s.buffer = some m) (o : ℤ) (bs : List UInt8) (incrIndex : Bool) (idx : UInt64) :
    Guarded ((store o bs >>= fun _ => advance incrIndex idx).run s) ↔ Inside m.size bs.length o := by
  by_cases hin : Inside m.size bs.length o
  · obtain ⟨m', hstore⟩ : ∃ m', m.store o bs = some m' := by
      obtain hnil | hin := hin
      · exact ⟨m, by simp [Block.store, List.length_eq_zero_iff.mp hnil]⟩
      · by_cases hnil : bs = [] <;> simp [Block.store, hnil, hin]
    have hrun : (store o bs).run s = .ok () { s with buffer := some m' } := by simp [store, hbuf, hstore]
    rw [run_bind_ok hrun]
    refine iff_of_true ?_ hin
    cases incrIndex <;> trivial
  · have hnil : bs ≠ [] := fun hnil => hin (.inl (by simp [hnil]))
    have hstore := Block.store_of_outside (m := m) (o := o) hnil (by simp only [Inside] at hin; omega)
    have hrun : (store o bs).run s = .error .undefinedBehaviour s := by simp [store, hbuf, hstore]
    rw [run_bind_error hrun]
    exact iff_of_false (not_guarded_undefined s) hin

/-- A load accesses the bytes that it returns. -/
theorem guarded_load_iff (h : Fenced s) (hbuf : s.buffer = some m) (o : ℤ) (n : ℕ) {α : Type}
    {rest : List UInt8 → StreamM α} (hrest : ∀ bs, Guarded ((rest bs).run s)) :
    Guarded ((load o n >>= rest).run s) ↔ Inside m.size n o := by
  by_cases hin : Inside m.size n o
  · obtain ⟨bs, hload⟩ : ∃ bs, m.load o n = some bs := by
      obtain rfl | ⟨hlo, hle⟩ := hin
      · exact ⟨[], rfl⟩
      · obtain ⟨k, rfl⟩ := Int.eq_ofNat_of_zero_le hlo
        exact ⟨_, Block.load_of_inside (by exact_mod_cast hle)⟩
    have hrun : (load o n).run s = .ok bs s := by simp [load, hbuf, hload]
    rw [run_bind_ok hrun]
    exact iff_of_true (hrest bs) hin
  · have hn : 0 < n := Nat.pos_of_ne_zero fun hzero => hin (.inl hzero)
    have hload := Block.load_of_outside (m := m) (o := o) (h.beyond m hbuf) hn
      (by simp only [Inside] at hin; omega)
    have hrun : (load o n).run s = .error .undefinedBehaviour s := by simp only [load_run, hbuf, Option.bind_some, hload]
    rw [run_bind_error hrun]
    exact iff_of_false (not_guarded_undefined s) hin

/-- A read or a write of `n` bytes that has checked its index keeps to the buffer. -/
def Checked (s : ByteStreamBuffer) (startIndex : Int32) (n : ℕ) : Prop :=
  s.buffer = none ∨ s.bufferSize = 0 ∨ IndexHolds s.bufferSize.toNat n (resolve s startIndex)

instance (startIndex : Int32) (n : ℕ) : Decidable (Checked s startIndex n) :=
  inferInstanceAs (Decidable (_ ∨ _ ∨ _))

/-- The checks that the reads and writes of known length begin with. -/
theorem guarded_checked_iff {α : Type} {f : String} {size : UInt64} {body : Int32 × Bool → StreamM α}
    (hthrow : sizeT (resolve s startIndex) + size > s.bufferSize →
      Guarded ((body (resolve s startIndex, decide (startIndex = -1))).run s))
    (haccess : ¬sizeT (resolve s startIndex) + size > s.bufferSize → ∀ m, s.buffer = some m →
      (Guarded ((body (resolve s startIndex, decide (startIndex = -1))).run s) ↔
        Inside s.bufferSize.toNat size.toNat (resolve s startIndex).toInt)) :
    Guarded ((safetyCheck f startIndex >>= body).run s) ↔ Checked s startIndex size.toNat := by
  unfold Checked
  rw [indexHolds_iff]
  apply guarded_indexed_iff
  intro m hbuf
  by_cases hmany : sizeT (resolve s startIndex) + size > s.bufferSize
  · exact iff_of_true (hthrow hmany) (.inl hmany)
  · rw [haccess hmany m hbuf]
    exact (or_iff_right hmany).symm

theorem readSized_guarded_iff {α : Type} (h : Fenced s) (f : String) (size : UInt64)
    (value : Bool → List UInt8 → α) (startIndex : Int32) :
    Guarded ((readSized f size value startIndex).run s) ↔ Checked s startIndex size.toNat := by
  unfold readSized
  refine guarded_checked_iff (fun hmany => ?_) fun hfits m hbuf => ?_
  · rw [run_bind_ok (EStateM.run_get s), if_pos hmany]
    exact guarded_exception _ s
  · rw [run_bind_ok (EStateM.run_get s), if_neg hfits, ← h.owns m hbuf]
    apply guarded_load_iff h hbuf
    intro bs
    cases decide (startIndex = -1) <;> trivial

theorem Fenced.moved (h : Fenced s) (idx : Int32) : Fenced { s with idx } := ⟨h.owns, h.beyond⟩

theorem readData_guarded_iff (h : Fenced s) (dataSize : UInt64) (startIndex : Int32) :
    Guarded ((readData dataSize startIndex >>= fun offset =>
        load offset.toInt dataSize.toNat >>= fun _ => pure ()).run s) ↔
      Checked s startIndex dataSize.toNat := by
  unfold readData
  rw [bind_assoc]
  refine guarded_checked_iff (fun hmany => ?_) fun hfits m hbuf => ?_
  · rw [bind_assoc, run_bind_ok (EStateM.run_get s), if_pos hmany]
    exact guarded_exception _ s
  · rw [bind_assoc, run_bind_ok (EStateM.run_get s), if_neg hfits, ← h.owns m hbuf]
    cases decide (startIndex = -1) with
    | false =>
      apply guarded_load_iff h hbuf
      exact fun _ => trivial
    | true =>
      have hmoved := h.moved (narrow (sizeT (resolve s startIndex) + dataSize))
      show Guarded ((load (resolve s startIndex).toInt dataSize.toNat >>= fun _ => pure ()).run
        { s with idx := narrow (sizeT (resolve s startIndex) + dataSize) }) ↔ _
      apply guarded_load_iff hmoved hbuf
      exact fun _ => trivial

/-- The reads of known length. -/
theorem SizedRead.guarded_iff (h : Fenced s) (r : SizedRead) (startIndex : Int32) :
    Guarded ((r.run startIndex).run s) ↔ Checked s startIndex r.size.toNat := by
  have hdiscard : ∀ {α : Type} (x : StreamM α), Guarded ((discard x).run s) ↔ Guarded (x.run s) := by
    intro α x
    have hrun : (discard x).run s = (x >>= fun _ => pure ()).run s := rfl
    rw [hrun, EStateM.run_bind]
    cases x.run s <;> rfl
  cases r with
  | byte => exact (hdiscard _).trans (readSized_guarded_iff h _ 1 _ startIndex)
  | word => exact (hdiscard _).trans (readSized_guarded_iff h _ 2 _ startIndex)
  | dword => exact (hdiscard _).trans (readSized_guarded_iff h _ 4 _ startIndex)
  | qword => exact (hdiscard _).trans (readSized_guarded_iff h _ 8 _ startIndex)
  | data dataSize => exact readData_guarded_iff h dataSize startIndex

/-- What a write of known length must not do: it neither loses its buffer as it grows, nor is misled about
its index. -/
def SizedWrite.Checked (malloc : Malloc) (s : ByteStreamBuffer) (startIndex : Int32) (w : SizedWrite) : Prop :=
  if Asks s w.size false then
    CanGrow malloc s w.size.toNat ∧
      IndexHolds (s.bufferSize.toNat + w.size.toNat) w.size.toNat (resolve s startIndex)
  else H1Z1Server.Checked s startIndex w.size.toNat

instance (malloc : Malloc) (startIndex : Int32) (w : SizedWrite) : Decidable (w.Checked malloc s startIndex) :=
  inferInstanceAs (Decidable (if Asks s w.size false then _ ∧ _ else _))

theorem checkedSized_guarded_iff (howns : Owns s) {w : SizedWrite} (hw : w.Sizeable) (f : String)
    (startIndex : Int32) :
    Guarded ((checkedWrite f false startIndex (· + w.size) (copySized w.size w.image)).run s) ↔
      Checked s startIndex w.size.toNat := by
  unfold checkedWrite
  refine guarded_checked_iff (fun hmany => ?_) fun hfits m hbuf => ?_
  · rw [run_bind_ok (EStateM.run_get s), if_pos (by simpa using hmany)]
    exact guarded_exception _ s
  · rw [run_bind_ok (EStateM.run_get s), if_neg (by simpa using hfits), ← howns m hbuf,
      ← SizedWrite.length_image hw s.bigEndian]
    exact guarded_store_iff hbuf _ _ _ _

/-- The writes of known length. -/
theorem SizedWrite.guarded_iff (malloc : Malloc) (howns : Owns s) {w : SizedWrite} (hw : w.Sizeable)
    (startIndex : Int32) :
    Guarded ((w.run malloc startIndex).run s) ↔ w.Checked malloc s startIndex := by
  obtain ⟨f, heq⟩ := w.run_eq malloc startIndex
  rw [heq]
  unfold SizedWrite.Checked
  by_cases hasks : Asks s w.size false
  · rw [if_pos hasks]
    by_cases hcan : CanGrow malloc s w.size.toNat
    · obtain ⟨s₁, hgrown, howns₁, hidx, hsize, hbuf⟩ := autoBufferF_grows howns hasks hcan
      have hpos := hasks.pos
      have hzero : s₁.bufferSize ≠ 0 := ne_zero_of_pos (by omega)
      rw [run_bind_ok hgrown, checkedSized_guarded_iff howns₁ hw]
      simp only [H1Z1Server.Checked, hbuf, hzero, hsize, resolve, hidx, hcan, false_or, true_and]
    · rw [run_bind_error (autoBufferF_breaks howns hasks hcan)]
      exact iff_of_false (not_guarded_undefined s) fun h => hcan h.1
  · rw [if_neg hasks, run_bind_ok (autoBufferF_unasked hasks), checkedSized_guarded_iff howns hw]

/-- The reads and writes of known length keep to their buffer exactly when a growing write can grow, and
the check of the index is right about it. -/
theorem bounds_checks_iff (malloc : Malloc) (h : Fenced s) (startIndex : Int32) :
    (∀ r : SizedRead, Guarded ((r.run startIndex).run s) ↔ Checked s startIndex r.size.toNat) ∧
      ∀ w : SizedWrite, w.Sizeable →
        (Guarded ((w.run malloc startIndex).run s) ↔ w.Checked malloc s startIndex) :=
  ⟨fun r => r.guarded_iff h startIndex, fun _ hw => SizedWrite.guarded_iff malloc h.owns hw startIndex⟩

theorem writerOf_fenced {n : ℕ} (hn : n < 2 ^ 64) (autoBuffer : Bool) : Fenced (writerOf n autoBuffer) := by
  refine ⟨(writerOf_inBuffer hn autoBuffer).owns, ?_⟩
  rintro _ ⟨⟩ o
  rfl

theorem bounds_checks_example :
    Guarded (((SizedWrite.dword 7).run plentiful (-9)).run (writerOf 8 true)) :=
  ((bounds_checks_iff plentiful (writerOf_fenced (by norm_num) true) (-9)).2 (.dword 7) trivial).mpr (by decide)

/-- Index -2 and the four bytes of a dword sum up to 2: the dword is written from two bytes before the
buffer on. -/
theorem dword_before_buffer :
    Fenced (writerOf 8 true) ∧ ¬Guarded (((SizedWrite.dword 7).run plentiful (-2)).run (writerOf 8 true)) := by
  refine ⟨writerOf_fenced (by norm_num) true, fun hguarded => ?_⟩
  have hundefined : ((SizedWrite.dword 7).run plentiful (-2)).run (writerOf 8 true) =
      .error .undefinedBehaviour (writerOf 8 true) := rfl
  rw [hundefined] at hguarded
  exact not_guarded_undefined _ hguarded

end H1Z1Server
