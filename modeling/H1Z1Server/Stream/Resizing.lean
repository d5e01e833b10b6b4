import H1Z1Server.Stream.StringWrites

/-! `Resize`: what it makes of the buffer in its two modes, with and without memory for the new one. -/
namespace H1Z1Server
open MachineInt MemoryBlock ByteStreamBuffer

variable {malloc : Malloc} {s : ByteStreamBuffer} {bs : List UInt8}

/-- The contents after a `Resize` to `n` bytes: as many of the old bytes as there is room for, or zeros in
their place, and zeros behind them. -/
def resizedBytes (bs : List UInt8) (n : ℕ) (persist : Bool) : List UInt8 :=
  (if persist then bs.take n else List.replicate (min bs.length n) 0) ++ List.replicate (n - bs.length) 0

@[simp] theorem length_resizedBytes (bs : List UInt8) (n : ℕ) (persist : Bool) :
    (resizedBytes bs n persist).length = n := by
  cases persist <;> simp [resizedBytes] <;> omega

/-- `Resize` gives the stream a buffer of `bufferSize` bytes, or leaves it without one. -/
def Resized (malloc : Malloc) (s : ByteStreamBuffer) (bs : List UInt8) (bufferSize : UInt64) (persist : Bool) : Prop :=
  ∃ s', (resize malloc bufferSize persist).run s = .ok () s' ∧
    if (malloc bufferSize.toNat).isSome then
      s'.bufferSize = bufferSize ∧ ∃ m, s'.buffer = some m ∧ m.bytes = resizedBytes bs bufferSize.toNat persist
    else s'.buffer = none ∧ s'.getBufferSize = 0

/-- There is memory, and no more to be kept than there will be room for; or there is none, nothing is to be
kept, and the old size is one that `int` takes for zero. -/
def ResizeHolds (malloc : Malloc) (old bufferSize : UInt64) (persist : Bool) : Prop :=
  if (malloc bufferSize.toNat).isSome then persist = true → old ≤ bufferSize
  else persist = false ∧ old.toNat % 2 ^ 32 = 0

instance (old bufferSize : UInt64) (persist : Bool) : Decidable (ResizeHolds malloc old bufferSize persist) :=
  inferInstanceAs (Decidable (if (malloc bufferSize.toNat).isSome then persist = true → old ≤ bufferSize else _ ∧ _))

theorem narrow_eq_zero_iff (n : UInt64) : narrow n = 0 ↔ n.toNat % 2 ^ 32 = 0 := by
  rw [← Int32.toInt_inj, narrow, Int32.toInt_ofInt, Int32.size, Int.bmod_def, show (0 : Int32).toInt = 0 from rfl]
  split <;> omega

/-- Without `persist` a failed allocation leaves the size as it was. -/
theorem resized_cleared_iff (malloc : Malloc) (s : ByteStreamBuffer) (bs : List UInt8) (bufferSize : UInt64) :
    Resized malloc s bs bufferSize false ↔ ResizeHolds malloc s.bufferSize bufferSize false := by
  unfold Resized ResizeHolds
  cases hm : malloc bufferSize.toNat with
  | none =>
    have hrun : (resize malloc bufferSize false).run s = .ok () { s with buffer := none } := by simp [resize, hm]
    simp only [hrun, Option.isSome_none, Bool.false_eq_true, if_false, true_and]
    rw [← narrow_eq_zero_iff]
    constructor
    · rintro ⟨s', hs', -, hsize⟩
      obtain ⟨-, rfl⟩ := (EStateM.Result.ok.injEq _ _ _ _).mp hs'
      exact hsize
    · intro hsize
      exact ⟨_, rfl, rfl, hsize⟩
  | some beyond =>
    have hrun : (resize malloc bufferSize false).run s =
        .ok () { s with buffer := some (Block.zeroed bufferSize.toNat beyond), bufferSize } := by simp [resize, hm]
    have hbytes : resizedBytes bs bufferSize.toNat false = List.replicate bufferSize.toNat 0 := by
      simp only [resizedBytes, Bool.false_eq_true, if_false, List.replicate_append_replicate]
      congr 1
      omega
    simp only [Option.isSome_some, if_true, Bool.false_eq_true, false_implies, iff_true]
    exact ⟨_, hrun, rfl, _, rfl, hbytes.symm⟩

/-- With `persist` as many bytes are copied as there were, and a failed allocation is not noticed. -/
theorem resized_kept_iff (h : Backed s bs) {bufferSize : UInt64} (hpos : 0 < bufferSize.toNat) :
    Resized malloc s bs bufferSize true ↔ ResizeHolds malloc s.bufferSize bufferSize true := by
  have hlen := h.1
  unfold Resized ResizeHolds
  by_cases hm : (malloc bufferSize.toNat).isSome
  · simp only [hm, if_true, true_implies, UInt64.le_iff_toNat_le, hlen]
    by_cases hle : bs.length ≤ bufferSize.toNat
    · obtain ⟨s', hrun, ⟨hsize, ⟨hnil, -⟩ | ⟨beyond, hbuf⟩⟩, -⟩ := resize_grow h bufferSize hm hle
      · have hzero := congrArg List.length hnil
        simp only [List.length_append, List.length_replicate, List.length_nil] at hzero
        omega
      · refine iff_of_true ⟨s', hrun, UInt64.toNat_inj.mp ?_, _, hbuf, ?_⟩ hle
        · rw [hsize, List.length_append, List.length_replicate]
          omega
        · simp only [resizedBytes, if_true, List.take_of_length_le hle]
    · rw [resize_shrink h (not_le.mp hle)]
      refine iff_of_false ?_ hle
      rintro ⟨s', hrun, -⟩
      cases hrun
  · rw [resize_starved h (ne_zero_of_pos hpos) (Option.not_isSome_iff_eq_none.mp hm)]
    simp only [hm, Bool.false_eq_true, if_false, Bool.true_eq_false, false_and, iff_false]
    rintro ⟨s', hrun, -⟩
    cases hrun

/-- `Resize` keeps the stream whole exactly when it is not told to keep more than fits, and when a failed
allocation finds nothing to keep and a size of zero. -/
theorem resized_iff (malloc : Malloc) (h : Backed s bs) {bufferSize : UInt64} (hpos : 0 < bufferSize.toNat)
    (persist : Bool) :
    Resized malloc s bs bufferSize persist ↔ ResizeHolds malloc s.bufferSize bufferSize persist := by
  cases persist with
  | false => exact resized_cleared_iff malloc s bs bufferSize
  | true => exact resized_kept_iff h hpos

theorem writerOf_backed {n : ℕ} (hn : n < 2 ^ 64) (autoBuffer : Bool) :
    Backed (writerOf n autoBuffer) (List.replicate n 0) := by
  refine ⟨?_, .inr ⟨_, rfl⟩⟩
  rw [List.length_replicate]
  exact toNat_ofNat_of_lt hn

theorem resized_example : Resized (fun _ => some fun _ => none) (writerOf 4 true) [0, 0, 0, 0] 8 true :=
  (resized_iff (fun _ => some fun _ => none) (writerOf_backed (by norm_num) true) (by decide) true).mpr (by decide)

/-- Eight bytes are copied into a block of four. -/
theorem shrinking_resize_overruns :
    Backed (writerOf 8 true) (List.replicate 8 0) ∧
      ¬Resized (fun _ => some fun _ => none) (writerOf 8 true) (List.replicate 8 0) 4 true := by
  refine ⟨writerOf_backed (by norm_num) true, ?_⟩
  rintro ⟨s', hrun, -⟩
  cases hrun

end H1Z1Server
