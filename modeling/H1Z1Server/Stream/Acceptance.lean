import H1Z1Server.Stream.RoundTrip

/-! Which buffers a list of fixed-width reads accepts, what it leaves behind where it stops,
and that writing back what was read reproduces the buffer. -/
namespace H1Z1Server
open MachineInt MemoryBlock ByteOrder ByteStreamBuffer ByteStreamWriter ByteStreamReader

variable {malloc : Malloc} {r : ByteStreamBuffer} {m : Block}

def fixedReads (reads : List FixedRead) : List ReadOp := reads.map .fixed

/-- A reader at the start of a buffer whose block may be longer than its size. -/
theorem facing_of_start (hbuf : r.buffer = some m) (hsize : r.bufferSize.toNat ≤ m.size)
    (hidx : r.idx = 0) : Facing r [] (m.bytes.take r.bufferSize.toNat) := by
  constructor
  · exact ⟨m.bytes.drop r.bufferSize.toNat, m.beyond, by simp [hbuf]⟩
  · have hlen : r.bufferSize.toNat ≤ m.bytes.length := hsize
    simp [hlen]
  · rw [hidx]
    rfl

/-- Reads that together fit take consecutive pieces of the buffer, and the values encode to
exactly those pieces. -/
theorem readAll_fixed_run {s : ByteStreamBuffer} {done todo : List UInt8} {reads : List FixedRead}
    (h : Facing s done todo) (hreads : ∀ x ∈ reads, 0 < x.width)
    (hin : totalWidth reads ≤ todo.length) (hfit : done.length + todo.length < 2 ^ 31) :
    ∃ items s', (readAll (fixedReads reads)).run s = .ok items s' ∧
      Facing s' (done ++ todo.take (totalWidth reads)) (todo.drop (totalWidth reads)) ∧
      encodeAll s.bigEndian items = todo.take (totalWidth reads) ∧
      Item.data [] ∉ items ∧ s'.bigEndian = s.bigEndian ∧ s'.buffer = s.buffer := by
  induction reads generalizing s done todo with
  | nil => exact ⟨[], s, rfl, by simpa [totalWidth] using h, by simp [totalWidth, encodeAll],
      by simp, rfl, rfl⟩
  | cons x reads ih =>
    rw [totalWidth_cons] at hin ⊢
    have hsplit := List.take_append_drop x.width todo
    have hlen : (todo.take x.width).length = x.width := by
      rw [List.length_take]
      omega
    have hdrop : (todo.drop x.width).length = todo.length - x.width := List.length_drop
    rw [← hsplit] at h
    have hx := hreads x List.mem_cons_self
    obtain ⟨s₁, hrun, h₁, hbig, hbuf⟩ := FixedRead.read_run h hlen hx (by omega)
    obtain ⟨items, s₂, hrest, h₂, henc, hdata, hbig₂, hbuf₂⟩ := ih h₁
      (fun y hy => hreads y (List.mem_cons_of_mem _ hy)) (by omega)
      (by rw [List.length_append]; omega)
    have htake : todo.take (x.width + totalWidth reads) =
        todo.take x.width ++ (todo.drop x.width).take (totalWidth reads) := List.take_add
    refine ⟨x.decode s.bigEndian (todo.take x.width) :: items, s₂, ?_, ?_, ?_, ?_, hbig₂.trans hbig,
      hbuf₂.trans hbuf⟩
    · have hop : (ReadOp.fixed x).read.run s = .ok (x.decode s.bigEndian (todo.take x.width)) s₁ :=
        hrun
      rw [fixedReads, List.map_cons, readAll_cons_ok hop]
      rw [fixedReads] at hrest
      rw [hrest]
    · rw [htake, ← List.append_assoc, ← List.drop_drop]
      exact h₂
    · rw [encodeAll_cons, encode_decode s.bigEndian hlen, htake, ← hbig, henc]
    · intro hmem
      rcases List.mem_cons.mp hmem with hhead | htail
      · have hback := encode_decode s.bigEndian hlen
        rw [← hhead] at hback
        have hzero := congrArg List.length hback
        rw [hlen] at hzero
        exact absurd hzero (by simp [Item.encode]; omega)
      · exact hdata htail

theorem readAll_append_error {s s' s'' : ByteStreamBuffer} {pre post : List ReadOp}
    {items : List Item} {e : Abort} (hpre : (readAll pre).run s = .ok items s')
    (hpost : (readAll post).run s' = .error e s'') :
    (readAll (pre ++ post)).run s = .error e s'' := by
  induction pre generalizing s items with
  | nil =>
    cases hpre
    exact hpost
  | cons op ops ih =>
    cases hop : op.read.run s with
    | error e' s₁ =>
      rw [readAll_cons_error hop] at hpre
      cases hpre
    | ok it s₁ =>
      rw [readAll_cons_ok hop] at hpre
      rw [List.cons_append, readAll_cons_ok hop]
      cases hrest : (readAll ops).run s₁ with
      | error e' s₂ =>
        rw [hrest] at hpre
        cases hpre
      | ok items' s₂ =>
        rw [hrest] at hpre
        cases hpre
        rw [ih hrest]

/-- The first read that does not fit throws where the reads before it have left the index. -/
theorem readAll_fixed_throw {pre : List FixedRead} {x : FixedRead} (post : List FixedRead)
    (hbuf : r.buffer = some m) (hsize : r.bufferSize.toNat ≤ m.size) (hidx : r.idx = 0)
    (hpos : 0 < r.bufferSize.toNat) (hfit : r.bufferSize.toNat < 2 ^ 31)
    (hpre : ∀ y ∈ pre, 0 < y.width) (hx : x.width < 2 ^ 31)
    (hin : totalWidth pre ≤ r.bufferSize.toNat)
    (hout : r.bufferSize.toNat < totalWidth pre + x.width) :
    ∃ what s, (readAll (fixedReads (pre ++ x :: post))).run r = .error (.exception what) s ∧
      s.getIdx.toInt = totalWidth pre ∧ s.buffer = some m := by
  have h := facing_of_start hbuf hsize hidx
  have hlen : (m.bytes.take r.bufferSize.toNat).length = r.bufferSize.toNat := by
    have hm : r.bufferSize.toNat ≤ m.bytes.length := hsize
    rw [List.length_take, Nat.min_eq_left hm]
  generalize m.bytes.take r.bufferSize.toNat = todo at h hlen
  obtain ⟨items, s, hrun, h', -, -, -, hbuf'⟩ := readAll_fixed_run h hpre (by omega)
    (by rw [List.length_nil]; omega)
  rw [List.nil_append] at h'
  obtain ⟨what, hthrow⟩ := FixedRead.read_throw h' (r := x)
    (by simp only [List.length_take, List.length_drop]; omega)
    (by simp only [List.length_take]; omega) (by simp only [List.length_drop]; omega)
  have hop : (ReadOp.fixed x).read.run s = .error (.exception what) s := hthrow
  refine ⟨what, s, ?_, ?_, hbuf'.trans hbuf⟩
  · rw [fixedReads, List.map_append]
    exact readAll_append_error hrun (readAll_cons_error hop)
  · rw [show s.getIdx = s.idx from rfl, h'.idx, List.length_take]
    omega

theorem exists_first_outside {reads : List FixedRead} (size : ℕ) (h : size < totalWidth reads) :
    ∃ pre x post, reads = pre ++ x :: post ∧ totalWidth pre ≤ size ∧
      size < totalWidth pre + x.width := by
  induction reads generalizing size with
  | nil => simp [totalWidth] at h
  | cons x reads ih =>
    rw [totalWidth_cons] at h
    by_cases hx : size < x.width
    · exact ⟨[], x, reads, rfl, Nat.zero_le _, by simpa [totalWidth] using hx⟩
    · obtain ⟨pre, y, post, rfl, hle, hlt⟩ := ih (size - x.width) (by omega)
      refine ⟨x :: pre, y, post, rfl, ?_, ?_⟩
      · rw [totalWidth_cons]
        omega
      · rw [totalWidth_cons]
        omega

/-- Reads succeed up to and including the last that the buffer has room for. -/
theorem readAll_fixed_ok_iff {reads : List FixedRead} (hbuf : r.buffer = some m)
    (hsize : r.bufferSize.toNat ≤ m.size) (hidx : r.idx = 0) (hpos : 0 < r.bufferSize.toNat)
    (hfit : r.bufferSize.toNat < 2 ^ 31) (hreads : ∀ x ∈ reads, 0 < x.width ∧ x.width < 2 ^ 31) :
    (∃ items s, (readAll (fixedReads reads)).run r = .ok items s) ↔
      totalWidth reads ≤ r.bufferSize.toNat := by
  have hlen : (m.bytes.take r.bufferSize.toNat).length = r.bufferSize.toNat := by
    have hm : r.bufferSize.toNat ≤ m.bytes.length := hsize
    rw [List.length_take, Nat.min_eq_left hm]
  constructor
  · rintro ⟨items, s, hrun⟩
    by_contra hout
    obtain ⟨pre, x, post, rfl, hin, hx⟩ := exists_first_outside _ (not_le.mp hout)
    obtain ⟨what, s', hthrow, -⟩ := readAll_fixed_throw post hbuf hsize hidx hpos hfit
      (fun y hy => (hreads y (List.mem_append_left _ hy)).1)
      (hreads x (List.mem_append_right _ List.mem_cons_self)).2 hin hx
    rw [hrun] at hthrow
    cases hthrow
  · intro hin
    obtain ⟨items, s, hrun, -⟩ := readAll_fixed_run (facing_of_start hbuf hsize hidx)
      (fun x hx => (hreads x hx).1) (by rw [hlen]; exact hin)
      (by rw [hlen, List.length_nil]; omega)
    exact ⟨items, s, hrun⟩

/-- Writing back the values that were read reproduces the bytes they were read from. -/
theorem writeAll_readAll {reads : List FixedRead} (hbuf : r.buffer = some m)
    (hsize : r.bufferSize.toNat ≤ m.size) (hidx : r.idx = 0)
    (hfit : r.bufferSize.toNat < 2 ^ 31) (hreads : ∀ x ∈ reads, 0 < x.width)
    (hin : totalWidth reads ≤ r.bufferSize.toNat) {items : List Item} {s : ByteStreamBuffer}
    (hrun : (readAll (fixedReads reads)).run r = .ok items s) (initial : UInt64) {autoBuffer : Bool}
    (hroom : autoBuffer = true ∨ totalWidth reads ≤ initial.toNat)
    (hm : ∀ n ≤ initial.toNat + totalWidth reads, (malloc n).isSome) :
    ∃ w w' room, initializeWriter malloc initial r.bigEndian autoBuffer = .ok w ∧
      (writeAll malloc items).run w = .ok () w' ∧ w'.getIdx.toInt = totalWidth reads ∧
      w'.contents = some (m.bytes.take (totalWidth reads) ++ room) := by
  have hlen : (m.bytes.take r.bufferSize.toNat).length = r.bufferSize.toNat := by
    have hm : r.bufferSize.toNat ≤ m.bytes.length := hsize
    rw [List.length_take, Nat.min_eq_left hm]
  obtain ⟨items', s', hrun', -, henc, hdata, -⟩ := readAll_fixed_run
    (facing_of_start hbuf hsize hidx) hreads (by rw [hlen]; exact hin)
    (by rw [hlen, List.length_nil]; omega)
  rw [hrun] at hrun'
  cases hrun'
  rw [List.take_take, Nat.min_eq_left hin] at henc
  have hwidth : (m.bytes.take (totalWidth reads)).length = totalWidth reads := by
    have hm : r.bufferSize.toNat ≤ m.bytes.length := hsize
    rw [List.length_take, Nat.min_eq_left (hin.trans hm)]
  obtain ⟨w, hinit, h, hbig, hauto⟩ := initializeWriter_run (hm _ (Nat.le_add_right _ _)) r.bigEndian autoBuffer
  rw [← hbig] at henc
  obtain ⟨w', hwrite, h', -, -⟩ := writeAll_run h hdata
    (by rw [hauto, henc, hwidth, List.length_replicate]; exact hroom)
    (by rw [henc, hwidth, List.length_nil]; omega)
    (fun hlt n hn => by
      rw [henc, hwidth, List.length_replicate] at hlt hn
      rw [List.length_nil, Nat.zero_add] at hn
      exact ⟨by omega, hm n hn⟩)
  rw [henc, List.nil_append] at h'
  refine ⟨w, w', _, hinit, hwrite, ?_, h'.backed.contents⟩
  rw [show w'.getIdx = w'.idx from rfl, h'.idx, hwidth]

/-- Exact acceptance of fixed-width input: how many reads succeed, where the first that does not
fit leaves the reader, and that encoding what was read reproduces the bytes consumed. -/
theorem fixed_reads_accept_exactly (hbuf : r.buffer = some m) (hsize : r.bufferSize.toNat ≤ m.size)
    (hidx : r.idx = 0) (hpos : 0 < r.bufferSize.toNat)
    (hfit : r.bufferSize.toNat < 2 ^ 31) (reads : List FixedRead)
    (hreads : ∀ x ∈ reads, 0 < x.width ∧ x.width < 2 ^ 31) :
    (∀ k, (∃ items s, (readAll (fixedReads (reads.take k))).run r = .ok items s) ↔
      totalWidth (reads.take k) ≤ r.bufferSize.toNat) ∧
    (∀ pre x post, reads = pre ++ x :: post → totalWidth pre ≤ r.bufferSize.toNat →
      r.bufferSize.toNat < totalWidth pre + x.width →
      ∃ what s, (readAll (fixedReads reads)).run r = .error (.exception what) s ∧
        s.getIdx.toInt = totalWidth pre ∧ s.buffer = some m) ∧
    ∀ k items s, (readAll (fixedReads (reads.take k))).run r = .ok items s →
      ∀ initial autoBuffer, autoBuffer = true ∨ totalWidth (reads.take k) ≤ initial.toNat →
        (∀ n ≤ initial.toNat + totalWidth (reads.take k), (malloc n).isSome) →
        ∃ w w' room, initializeWriter malloc initial r.bigEndian autoBuffer = .ok w ∧
          (writeAll malloc items).run w = .ok () w' ∧
          w'.getIdx.toInt = totalWidth (reads.take k) ∧
          w'.contents = some (m.bytes.take (totalWidth (reads.take k)) ++ room) := by
  have htake : ∀ k, ∀ x ∈ reads.take k, 0 < x.width ∧ x.width < 2 ^ 31 :=
    fun k x hx => hreads x (List.mem_of_mem_take hx)
  refine ⟨?_, ?_, ?_⟩
  · intro k
    exact readAll_fixed_ok_iff hbuf hsize hidx hpos hfit (htake k)
  · rintro pre x post rfl hin hout
    exact readAll_fixed_throw post hbuf hsize hidx hpos hfit
      (fun y hy => (hreads y (List.mem_append_left _ hy)).1)
      (hreads x (List.mem_append_right _ List.mem_cons_self)).2 hin hout
  · intro k items s hrun initial autoBuffer hroom hm
    have hin := (readAll_fixed_ok_iff hbuf hsize hidx hpos hfit (htake k)).mp ⟨items, s, hrun⟩
    exact writeAll_readAll hbuf hsize hidx hfit (fun x hx => (htake k x hx).1) hin hrun initial
      hroom hm

/-- Of a word, three bytes and a dword the last does not fit in six bytes. The two others are written back. -/
theorem fixed_reads_accept_exactly_example :
    let r := newReader (some ⟨[1, 2, 3, 4, 5, 6, 7], fun _ => none⟩) 6 true
    (∃ what s, (readAll (fixedReads [.word, .data 3, .dword])).run r = .error (.exception what) s ∧
      s.getIdx.toInt = 5 ∧ s.buffer = r.buffer) ∧
    ∃ items w w' room, initializeWriter plentiful 0 true true = .ok w ∧
      (writeAll plentiful items).run w = .ok () w' ∧ w'.getIdx.toInt = 5 ∧
      w'.contents = some ([1, 2, 3, 4, 5] ++ room) := by
  obtain ⟨haccepts, hthrows, hback⟩ := @fixed_reads_accept_exactly plentiful
    (newReader (some ⟨[1, 2, 3, 4, 5, 6, 7], fun _ => none⟩) 6 true) _ rfl (by decide) rfl (by decide)
    (by decide) [.word, .data 3, .dword] (by decide)
  obtain ⟨items, s, hread⟩ := (haccepts 2).mpr (by decide)
  exact ⟨hthrows [.word, .data 3] .dword [] rfl (by decide) (by decide), items,
    hback 2 items s hread 0 true (.inl rfl) fun _ _ => rfl⟩

end H1Z1Server
