import H1Z1Server.Stream.Writer

/-! A writer as a log of bytes: its buffer holds the log, followed by room for more, and its
cursor stands at the end of the log. -/
namespace H1Z1Server
open MachineInt MemoryBlock ByteOrder ByteStreamBuffer ByteStreamWriter

/-- The buffer of a stream is a block of exactly these bytes, null if there are none. -/
def Backed (s : ByteStreamBuffer) (bs : List UInt8) : Prop :=
  s.bufferSize.toNat = bs.length ∧
    ((bs = [] ∧ s.buffer = none) ∨ ∃ beyond, s.buffer = some ⟨bs, beyond⟩)

/-- The abstract state of a writer: the bytes before the cursor, and the room behind it. -/
structure Holds (s : ByteStreamBuffer) (log room : List UInt8) : Prop where
  backed : Backed s (log ++ room)
  idx : s.idx.toInt = log.length

/-- The room behind the cursor after `AUTO_BUFFER(n)`. -/
def reserve (room : List UInt8) (n : ℕ) : List UInt8 :=
  if room.length < n then room ++ List.replicate n 0 else room

theorem le_length_reserve (room : List UInt8) (n : ℕ) : n ≤ (reserve room n).length := by
  unfold reserve
  split
  · simp
  · omega

theorem length_reserve_le (room : List UInt8) (n : ℕ) :
    (reserve room n).length ≤ room.length + n := by
  unfold reserve
  split
  · simp
  · omega

theorem length_le_reserve (room : List UInt8) (n : ℕ) : room.length ≤ (reserve room n).length := by
  unfold reserve
  split
  · simp
  · exact le_rfl

/-- The room behind the cursor after a write of `n` bytes. -/
def roomAfter (room : List UInt8) (n : ℕ) : List UInt8 := (reserve room n).drop n

theorem length_roomAfter_le (room : List UInt8) (n : ℕ) :
    (roomAfter room n).length ≤ room.length := by
  have hle := length_reserve_le room n
  rw [roomAfter, List.length_drop]
  omega

theorem le_length_roomAfter (room : List UInt8) (n : ℕ) :
    room.length ≤ (roomAfter room n).length + n := by
  unfold roomAfter reserve
  split
  · simp
  · rw [List.length_drop]
    omega

theorem Backed.contents {s : ByteStreamBuffer} {bs : List UInt8} (h : Backed s bs) :
    s.contents = some bs := by
  obtain ⟨hsize, hnull | ⟨beyond, hbuf⟩⟩ := h
  · have hzero : s.bufferSize = 0 := UInt64.toNat_inj.mp (by simp [hsize, hnull.1])
    simp [ByteStreamBuffer.contents, hzero, hnull.1]
  · have hload := Block.load_of_inside (m := ⟨bs, beyond⟩) (k := 0) (n := bs.length) (by simp [Block.size])
    by_cases hzero : s.bufferSize = 0
    · have hnil : bs = [] := by simpa [hzero] using hsize.symm
      simp [ByteStreamBuffer.contents, hzero, hnil]
    · simp [ByteStreamBuffer.contents, hzero, hbuf, hsize] at hload ⊢
      exact hload

theorem Backed.unique {s : ByteStreamBuffer} {bs cs : List UInt8} (h : Backed s bs) (h' : Backed s cs) :
    bs = cs := by
  have heq := h.contents.symm.trans h'.contents
  exact Option.some.inj heq

section Runs
variable {ε σ α β : Type}

theorem run_bind_ok {x : EStateM ε σ α} {f : α → EStateM ε σ β} {s s' : σ} {a : α}
    (h : x.run s = .ok a s') : (x >>= f).run s = (f a).run s' := by
  rw [EStateM.run_bind, h]

theorem run_bind_error {x : EStateM ε σ α} {f : α → EStateM ε σ β} {s s' : σ} {e : ε}
    (h : x.run s = .error e s') : (x >>= f).run s = .error e s' := by
  rw [EStateM.run_bind, h]

theorem exists_of_run_bind {x : EStateM ε σ α} {f : α → EStateM ε σ β} {s s' : σ} {b : β}
    (h : (x >>= f).run s = .ok b s') : ∃ a s₁, x.run s = .ok a s₁ ∧ (f a).run s₁ = .ok b s' := by
  rw [EStateM.run_bind] at h
  cases hx : x.run s with
  | ok a s₁ =>
    rw [hx] at h
    exact ⟨a, s₁, rfl, h⟩
  | error e s₁ =>
    rw [hx] at h
    cases h

theorem run_map_ok {x : EStateM ε σ α} {f : α → β} {s s' : σ} {a : α} (h : x.run s = .ok a s') :
    (f <$> x).run s = .ok (f a) s' := by
  have hx : x s = .ok a s' := h
  show EStateM.map f x s = _
  rw [EStateM.map, hx]

theorem run_map_error {x : EStateM ε σ α} {f : α → β} {s s' : σ} {e : ε}
    (h : x.run s = .error e s') : (f <$> x).run s = .error e s' := by
  have hx : x s = .error e s' := h
  show EStateM.map f x s = _
  rw [EStateM.map, hx]

theorem exists_of_run_map {x : EStateM ε σ α} {f : α → β} {s s' : σ} {b : β}
    (h : (f <$> x).run s = .ok b s') : ∃ a, x.run s = .ok a s' ∧ f a = b := by
  cases hx : x.run s with
  | ok a s₁ =>
    rw [run_map_ok hx] at h
    cases h
    exact ⟨a, rfl, rfl⟩
  | error e s₁ =>
    rw [run_map_error hx] at h
    cases h

/-- The values of a sequence are those given when the first one is, and the others are from there. -/
theorem run_cons_iff {x : EStateM ε σ α} {y : EStateM ε σ (List α)} {s s₁ : σ} {v w : α} {ws : List α}
    (h : x.run s = .ok v s₁) :
    (∃ s', (do
        let v ← x
        let vs ← y
        return v :: vs : EStateM ε σ (List α)).run s = .ok (w :: ws) s') ↔
      v = w ∧ ∃ s', y.run s₁ = .ok ws s' := by
  rw [run_bind_ok h]
  cases hrest : y.run s₁ with
  | error a s₂ =>
    rw [run_bind_error hrest]
    constructor
    · rintro ⟨s', hrun⟩
      cases hrun
    · rintro ⟨-, s', hrun⟩
      cases hrun
  | ok vs s₂ =>
    rw [run_bind_ok hrest]
    constructor
    · rintro ⟨s', hrun⟩
      cases hrun
      exact ⟨rfl, s₂, rfl⟩
    · rintro ⟨rfl, s', hrun⟩
      cases hrun
      exact ⟨s₂, rfl⟩

end Runs

theorem load_run (s : ByteStreamBuffer) (o : ℤ) (n : ℕ) :
    (load o n).run s = match s.buffer.bind (·.load o n) with
      | some bs => .ok bs s
      | none => .error .undefinedBehaviour s := by
  simp only [load, EStateM.run_bind, EStateM.run_get]
  cases s.buffer.bind (·.load o n) <;> rfl

theorem length_of_load_run {s s' : ByteStreamBuffer} {o : ℤ} {n : ℕ} {bs : List UInt8}
    (h : (load o n).run s = .ok bs s') : bs.length = n := by
  rw [load_run] at h
  cases hload : s.buffer.bind (·.load o n) with
  | none =>
    rw [hload] at h
    cases h
  | some bs' =>
    rw [hload] at h
    cases h
    obtain ⟨m, -, hbytes⟩ := Option.bind_eq_some_iff.mp hload
    exact Block.length_of_load hbytes

theorem store_ok {s s' : ByteStreamBuffer} {o : ℤ} {bs : List UInt8} (h : (store o bs).run s = .ok () s') :
    ∃ m, s.buffer.bind (·.store o bs) = some m ∧ s' = { s with buffer := some m } := by
  simp only [store, EStateM.run_bind, EStateM.run_get] at h
  cases hstore : s.buffer.bind (·.store o bs) with
  | none =>
    rw [hstore] at h
    cases h
  | some m =>
    rw [hstore] at h
    cases h
    exact ⟨m, rfl, rfl⟩

theorem load_cases (s : ByteStreamBuffer) (o : ℤ) (n : ℕ) :
    (∃ bs, (load o n).run s = .ok bs s) ∨ (load o n).run s = .error .undefinedBehaviour s := by
  rw [load_run]
  cases s.buffer.bind (·.load o n) with
  | none => exact .inr rfl
  | some bs => exact .inl ⟨bs, rfl⟩

variable {malloc : Malloc}

/-- A buffer of `n` bytes can be had: a `size_t` counts it, and the allocation succeeds. -/
def Serves (malloc : Malloc) (n : ℕ) : Prop := n < 2 ^ 64 ∧ (malloc n).isSome

/-- A growing `Resize` keeps the contents and appends zero bytes. -/
theorem resize_grow {s : ByteStreamBuffer} {bs : List UInt8} (h : Backed s bs) (size : UInt64)
    (hm : (malloc size.toNat).isSome) (hle : bs.length ≤ size.toNat) :
    ∃ s', (resize malloc size true).run s = .ok () s' ∧
      Backed s' (bs ++ List.replicate (size.toNat - bs.length) 0) ∧
      s'.idx = s.idx ∧ s'.bigEndian = s.bigEndian ∧ s'.autoBuffer = s.autoBuffer := by
  obtain ⟨beyond, hbeyond⟩ := Option.isSome_iff_exists.mp hm
  refine ⟨{ s with
    buffer := some ⟨bs ++ List.replicate (size.toNat - bs.length) 0, beyond⟩
    bufferSize := size }, ?_, ⟨?_, Or.inr ⟨beyond, rfl⟩⟩, rfl, rfl, rfl⟩
  · simp [resize, h.contents, hbeyond, Block.store_zeroed hle]
  · simp [Nat.add_sub_cancel' hle]

theorem Holds.size {s : ByteStreamBuffer} {log room : List UInt8} (h : Holds s log room) :
    s.bufferSize.toNat = log.length + room.length := by
  simpa using h.backed.1

theorem Holds.sizeT_idx {s : ByteStreamBuffer} {log room : List UInt8} (h : Holds s log room) :
    (sizeT s.idx).toNat = log.length := by
  have hcursor := toNat_sizeT_of_nonneg (i := s.idx) (by rw [h.idx]; omega)
  rw [h.idx] at hcursor
  exact_mod_cast hcursor

/-- The free room of a stream, as `AUTO_BUFFER` computes it. -/
theorem Holds.short_iff {s : ByteStreamBuffer} {log room : List UInt8} (h : Holds s log room)
    (size : UInt64) : size > s.bufferSize - sizeT s.idx ↔ room.length < size.toNat := by
  have hsize := h.size
  have hidx := h.sizeT_idx
  have hfree : (s.bufferSize - sizeT s.idx).toNat = room.length := by
    rw [UInt64.toNat_sub_of_le _ _ (by rw [UInt64.le_iff_toNat_le]; omega), hsize]
    omega
  rw [gt_iff_lt, UInt64.lt_iff_toNat_lt, hfree]

/-- `AUTO_BUFFER` makes room for `size` bytes and changes nothing before the cursor. -/
theorem autoBufferF_run {s : ByteStreamBuffer}
    {log room : List UInt8} (h : Holds s log room) (force : Bool) (size : UInt64)
    (hroom : (s.autoBuffer || force) = true ∨ size.toNat ≤ room.length)
    (hgrow : room.length < size.toNat → Serves malloc (log.length + room.length + size.toNat)) :
    ∃ s', (autoBufferF malloc size force).run s = .ok () s' ∧
      Holds s' log (reserve room size.toNat) ∧
      s'.bigEndian = s.bigEndian ∧ s'.autoBuffer = s.autoBuffer := by
  have hsize := h.size
  have hgt := h.short_iff size
  by_cases hfull : room.length < size.toNat
  · obtain ⟨hfit, hm⟩ := hgrow hfull
    have hnew : (s.bufferSize + size).toNat = log.length + room.length + size.toNat := by
      rw [UInt64.toNat_add, hsize, Nat.mod_eq_of_lt hfit]
    have hmore : (s.bufferSize + size).toNat - (log ++ room).length = size.toNat := by
      rw [hnew, List.length_append]
      omega
    have hauto : (s.autoBuffer || force) = true := by
      rcases hroom with hauto | hle
      · exact hauto
      · omega
    have hcond : ((s.autoBuffer || force) && decide (size > s.bufferSize - sizeT s.idx)) = true := by
      rw [hauto, Bool.true_and, decide_eq_true_eq]
      exact hgt.mpr hfull
    obtain ⟨s', hrun, hback, hidx', hbig, hauto'⟩ := resize_grow h.backed
      (s.bufferSize + size) (by rw [hnew]; exact hm) (by simp only [hnew, List.length_append]; omega)
    rw [hmore, List.append_assoc] at hback
    refine ⟨s', ?_, ⟨?_, by rw [hidx', h.idx]⟩, hbig, hauto'⟩
    · unfold autoBufferF
      rw [EStateM.run_bind, EStateM.run_get]
      simp only [hcond, if_true]
      exact hrun
    · simpa only [reserve, hfull, if_true] using hback
  · refine ⟨s, ?_, ?_, rfl, rfl⟩
    · simp [autoBufferF, hgt, hfull]
    · simpa only [reserve, hfull, if_false] using h

/-- Without memory `Resize` clears a null pointer. -/
theorem resize_starved {s : ByteStreamBuffer} {bs : List UInt8} (h : Backed s bs) {size : UInt64}
    (hne : size ≠ 0) (hm : malloc size.toNat = none) :
    (resize malloc size true).run s = .error .undefinedBehaviour s := by
  unfold resize
  simp only [Bool.not_true, Bool.false_eq_true, if_false]
  rw [run_bind_ok (run_map_ok (EStateM.run_get _)), h.contents, hm]
  cases bs with
  | nil => simp only [if_neg hne]; rfl
  | cons b bs => rfl

/-- Without memory to grow into, `AUTO_BUFFER` is undefined. -/
theorem autoBufferF_starved {s : ByteStreamBuffer} {log room : List UInt8} (h : Holds s log room)
    (force : Bool) (size : UInt64) (hauto : (s.autoBuffer || force) = true)
    (hshort : room.length < size.toNat) (hfit : log.length + room.length + size.toNat < 2 ^ 64)
    (hm : malloc (log.length + room.length + size.toNat) = none) :
    (autoBufferF malloc size force).run s = .error .undefinedBehaviour s := by
  have hsize := h.size
  have hnew : (s.bufferSize + size).toNat = log.length + room.length + size.toNat := by
    rw [UInt64.toNat_add, hsize, Nat.mod_eq_of_lt hfit]
  have hne : s.bufferSize + size ≠ 0 := ne_zero_of_pos (by omega)
  have hcond : ((s.autoBuffer || force) && decide (size > s.bufferSize - sizeT s.idx)) = true := by
    rw [hauto, Bool.true_and, decide_eq_true_eq]
    exact (h.short_iff size).mpr hshort
  unfold autoBufferF
  rw [EStateM.run_bind, EStateM.run_get]
  simp only [hcond, if_true]
  exact resize_starved h.backed hne (by rw [hnew]; exact hm)

/-- With room in its buffer a stream passes `SAFETY_CHECK` at its cursor. -/
theorem safetyCheck_cursor {s : ByteStreamBuffer} {log room : List UInt8}
    (h : Holds s log room) (hpos : 0 < log.length + room.length) (f : String) :
    (safetyCheck f (-1)).run s = .ok (s.idx, true) s := by
  have hne : s.bufferSize ≠ 0 := ne_zero_of_pos (by rw [h.size]; exact hpos)
  have hbuf : s.buffer ≠ none := by
    obtain ⟨-, hnull | ⟨beyond, hbuf⟩⟩ := h.backed
    · obtain ⟨rfl, rfl⟩ := List.append_eq_nil_iff.mp hnull.1
      simp at hpos
    · simp [hbuf]
  have hidx : s.idx ≠ -1 := ne_neg_one_of_nonneg (by rw [h.idx]; omega)
  simp [safetyCheck, hne, hbuf, hidx]

/-- A write behind the log of a stream with enough room. -/
theorem store_append {s : ByteStreamBuffer} {log room : List UInt8}
    (h : Backed s (log ++ room)) (bs : List UInt8) (hle : bs.length ≤ room.length)
    (hpos : 0 < log.length + room.length) :
    ∃ beyond, (store log.length bs).run s = .ok ()
      { s with buffer := some ⟨log ++ bs ++ room.drop bs.length, beyond⟩ } := by
  obtain ⟨-, hnull | ⟨beyond, hbuf⟩⟩ := h
  · obtain ⟨rfl, rfl⟩ := List.append_eq_nil_iff.mp hnull.1
    simp at hpos
  · have hstore := Block.store_append (m := ⟨log ++ room, beyond⟩) rfl hle
    exact ⟨beyond, by simp [store, hbuf, hstore]⟩

/-- The same as a change of the contents alone. -/
theorem Backed.append {s : ByteStreamBuffer} {log room : List UInt8} (h : Backed s (log ++ room))
    (bs : List UInt8) (hle : bs.length ≤ room.length) (hpos : 0 < log.length + room.length) :
    ∃ s', (store log.length bs).run s = .ok () s' ∧ Backed s' (log ++ bs ++ room.drop bs.length) ∧
      s'.idx = s.idx ∧ s'.bigEndian = s.bigEndian ∧ s'.autoBuffer = s.autoBuffer := by
  obtain ⟨beyond, hstore⟩ := store_append h bs hle hpos
  refine ⟨_, hstore, ⟨?_, .inr ⟨beyond, rfl⟩⟩, rfl, rfl, rfl⟩
  simp only [h.1, List.length_append, List.length_drop]
  omega

/-- A write of known length at the cursor appends its bytes to the log. -/
theorem writeSized_run {s : ByteStreamBuffer}
    {log room : List UInt8} (h : Holds s log room) (bs : List UInt8) {f : String} {size : UInt64}
    {image : Bool → List UInt8} (himage : image s.bigEndian = bs)
    (hlen : size.toNat = bs.length) (hpos : 0 < log.length + room.length + bs.length)
    (hroom : s.autoBuffer = true ∨ bs.length ≤ room.length) (hidx : log.length + bs.length < 2 ^ 31)
    (hgrow : room.length < bs.length → Serves malloc (log.length + room.length + bs.length)) :
    ∃ s', (writeSized malloc f size image (-1)).run s = .ok () s' ∧
      Holds s' (log ++ bs) (roomAfter room bs.length) ∧
      s'.bigEndian = s.bigEndian ∧ s'.autoBuffer = s.autoBuffer := by
  obtain ⟨s₁, hgrown, h₁, hbig, hauto⟩ := autoBufferF_run h false size
    (by simpa [hlen] using hroom) (by rw [hlen]; exact hgrow)
  rw [hlen] at h₁
  have hle := le_length_reserve room bs.length
  have hkept := length_le_reserve room bs.length
  have hsize := h₁.size
  have hcursor := h₁.sizeT_idx
  have hend : (sizeT s₁.idx + size).toNat = log.length + bs.length := by
    rw [UInt64.toNat_add, hlen, Nat.mod_eq_of_lt] <;> omega
  have hnotmany : ¬ sizeT s₁.idx + size > s₁.bufferSize := by
    rw [gt_iff_lt, UInt64.lt_iff_toNat_lt, hend, hsize]
    omega
  obtain ⟨beyond, hstore⟩ := store_append h₁.backed bs hle (by omega)
  refine ⟨{ s₁ with
    buffer := some ⟨log ++ bs ++ roomAfter room bs.length, beyond⟩
    idx := narrow (sizeT s₁.idx + size) }, ?_, ⟨⟨?_, Or.inr ⟨beyond, rfl⟩⟩, ?_⟩, hbig, hauto⟩
  · unfold writeSized
    rw [run_bind_ok hgrown, run_bind_ok (safetyCheck_cursor h₁ (by omega) f)]
    rw [run_bind_ok (EStateM.run_get _), if_neg hnotmany]
    rw [← hbig] at himage
    simp only [himage]
    rw [h₁.idx, run_bind_ok hstore]
    rfl
  · simp only [hsize, List.length_append, roomAfter, List.length_drop]
    omega
  · rw [toInt_narrow (by rw [hend]; exact hidx), hend, List.length_append]


end H1Z1Server
