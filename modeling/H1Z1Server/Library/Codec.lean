import Mathlib.Tactic

/-! Formats of bytes: what a writer emits and a reader takes back, part by part. -/
namespace Codec
variable {δ ζ ε α β γ : Type}

/-- A reader works on a source of bytes, and may fail. -/
abbrev ReadM (ζ ε : Type) := StateT ζ (Except ε)

/-- A writer changes a state that has, among others, what has been written. -/
abbrev WriteM (δ : Type) := StateM δ

section Emitting
variable {out : List UInt8 → δ} {d d' : WriteM δ Unit} {bs bs' : List UInt8}

/-- From a state that stands for what has been written, the writer writes these bytes behind it. -/
def Emits (out : List UInt8 → δ) (d : WriteM δ Unit) (bs : List UInt8) : Prop :=
  ∀ before, d.run (out before) = ((), out (before ++ bs))

theorem emits_pure : Emits out (pure ()) [] := fun before => by rw [List.append_nil]; rfl

theorem Emits.bind (h : Emits out d bs) (h' : Emits out d' bs') : Emits out (d >>= fun _ => d') (bs ++ bs') := by
  intro before
  have hrun : (d >>= fun _ => d').run (out before) = d'.run (d.run (out before)).2 := rfl
  rw [hrun, h before, h', List.append_assoc]

end Emitting

section Reading
variable {left : ζ → List UInt8} {x : ReadM ζ ε α} {f : α → ReadM ζ ε β} {bs bs' : List UInt8} {a : α} {b : β}

/-- The reader takes these bytes from the front of a source, and gives a value for them. -/
def Reads (left : ζ → List UInt8) (x : ReadM ζ ε α) (bs : List UInt8) (a : α) : Prop :=
  ∀ z rest, left z = bs ++ rest → ∃ z', x.run z = .ok (a, z') ∧ left z' = rest

theorem reads_pure (a : α) : Reads left (pure a : ReadM ζ ε α) [] a := fun z _ h => ⟨z, rfl, h⟩

theorem Reads.bind (h : Reads left x bs a) (h' : Reads left (f a) bs' b) : Reads left (x >>= f) (bs ++ bs') b := by
  intro z rest hz
  rw [List.append_assoc] at hz
  obtain ⟨z', hrun, hz'⟩ := h z _ hz
  obtain ⟨z'', hrun', hz''⟩ := h' z' rest hz'
  refine ⟨z'', ?_, hz''⟩
  rw [StateT.run_bind, hrun]
  exact hrun'

end Reading

section Carrying
variable {ι : Type} {out : List UInt8 → δ} {left : ζ → List UInt8} {d d' : WriteM δ Unit} {x : ι → ReadM ζ ε α}
  {f : ι → α → ReadM ζ ε β} {a : α} {b : β}

/-- What the writer emits is read as this value, by each of the readers. -/
def Carries (out : List UInt8 → δ) (left : ζ → List UInt8) (d : WriteM δ Unit) (x : ι → ReadM ζ ε α) (a : α) : Prop :=
  ∃ bs, Emits out d bs ∧ ∀ i, Reads left (x i) bs a

theorem carries_pure (a : α) : Carries out left (pure ()) (fun _ : ι => (pure a : ReadM ζ ε α)) a :=
  ⟨[], emits_pure, fun _ => reads_pure a⟩

theorem Carries.bind (h : Carries out left d x a) (h' : Carries out left d' (fun i => f i a) b) :
    Carries out left (d >>= fun _ => d') (fun i => x i >>= f i) b := by
  obtain ⟨bs, hd, hx⟩ := h
  obtain ⟨bs', hd', hf⟩ := h'
  exact ⟨bs ++ bs', hd.bind hd', fun i => (hx i).bind (hf i)⟩

/-- The readers end with what they make of the value that they have read. -/
theorem Carries.ends (h : Carries out left d x a) (h' : ∀ i, f i a = pure b) :
    Carries out left d (fun i => x i >>= f i) b := by
  obtain ⟨bs, hd, hx⟩ := h
  refine ⟨bs, hd, fun i => ?_⟩
  rw [← List.append_nil bs]
  exact (hx i).bind (by simpa [h' i] using reads_pure b)

theorem Carries.comap {κ : Type} (h : Carries out left d x a) (g : κ → ι) : Carries out left d (fun j => x (g j)) a := by
  obtain ⟨bs, hd, hx⟩ := h
  exact ⟨bs, hd, fun j => hx (g j)⟩

/-- The reader is run a number of times. -/
def readMany (x : ReadM ζ ε α) : ℕ → ReadM ζ ε (List α)
  | 0 => pure []
  | n + 1 => do
    let a ← x
    let as ← readMany x n
    return a :: as

/-- The elements of a list are written one after the other. -/
def writeMany (d : γ → WriteM δ Unit) : List γ → WriteM δ Unit
  | [] => pure ()
  | c :: l => do
    d c
    writeMany d l

theorem carries_many {d : γ → WriteM δ Unit} {g : γ → α} (l : List γ) (h : ∀ c ∈ l, Carries out left (d c) x (g c)) :
    Carries out left (writeMany d l) (fun i => readMany (x i) l.length) (l.map g) := by
  induction l with
  | nil => exact carries_pure _
  | cons c l ih =>
    have hhead := h c (List.mem_cons_self ..)
    exact hhead.bind ((ih fun c hc => h c (List.mem_cons_of_mem _ hc)).ends fun _ => rfl)

end Carrying

section Sources
variable {left : ζ → List UInt8} {short : ε} {x : ReadM ζ ε α} {f : α → ReadM ζ ε β}

/-- The reader does the same, with an error or without, wherever the source has the same bytes in front. Only that
bytes are missing changes when there are more of them. -/
def Steady (left : ζ → List UInt8) (short : ε) (x : ReadM ζ ε α) : Prop := ∀ z z' more, left z' = left z ++ more →
  (∃ a t t', x.run z = .ok (a, t) ∧ x.run z' = .ok (a, t') ∧ left t' = left t ++ more) ∨
    (∃ e, x.run z = .error e ∧ x.run z' = .error e) ∨ x.run z = .error short ∧ more ≠ []

theorem steady_pure (a : α) : Steady left short (pure a : ReadM ζ ε α) :=
  fun z z' _ h => .inl ⟨a, z, z', rfl, rfl, h⟩

theorem steady_throw (e : ε) : Steady left short (throw e : ReadM ζ ε α) := fun _ _ _ _ => .inr (.inl ⟨e, rfl, rfl⟩)

theorem Steady.bind (h : Steady left short x) (h' : ∀ a, Steady left short (f a)) : Steady left short (x >>= f) := by
  intro z z' more hz
  simp only [StateT.run_bind]
  obtain ⟨a, t, t', hrun, hrun', ht⟩ | ⟨e, hrun, hrun'⟩ | ⟨hrun, hmore⟩ := h z z' more hz
  · rw [hrun, hrun']
    exact h' a t t' more ht
  · rw [hrun, hrun']
    exact .inr (.inl ⟨e, rfl, rfl⟩)
  · rw [hrun]
    exact .inr (.inr ⟨rfl, hmore⟩)

theorem Steady.many (h : Steady left short x) (n : ℕ) : Steady left short (readMany x n) := by
  induction n with
  | zero => exact steady_pure _
  | succ n ih => exact h.bind fun a => ih.bind fun as => steady_pure _

/-- How the bytes are divided makes no difference. -/
theorem Steady.congr (h : Steady left short x) {z z' : ζ} (hz : left z' = left z) :
    (∃ a t t', x.run z = .ok (a, t) ∧ x.run z' = .ok (a, t') ∧ left t' = left t) ∨
      ∃ e, x.run z = .error e ∧ x.run z' = .error e := by
  obtain ⟨a, t, t', hrun, hrun', ht⟩ | herror | ⟨-, hmore⟩ := h z z' [] (by simpa using hz)
  · exact .inl ⟨a, t, t', hrun, hrun', by simpa using ht⟩
  · exact .inr herror
  · exact absurd rfl hmore

/-- Bytes are missing from a source that ends within what the reader takes. -/
theorem Steady.short_of_reads (h : Steady left short x) {bs : List UInt8} {a : α} (hx : Reads left x bs a) {z z' : ζ}
    {more : List UInt8} (hz' : left z' = bs) (hz : bs = left z ++ more) (hmore : more ≠ []) :
    x.run z = .error short := by
  obtain ⟨s, hs, hnone⟩ := hx z' [] (by simpa using hz')
  obtain ⟨b, t, t', hrun, hrun', ht⟩ | ⟨e, hrun, hrun'⟩ | ⟨hrun, -⟩ := h z z' more (hz'.trans hz)
  · cases hs.symm.trans hrun'
    rw [hnone] at ht
    exact absurd (List.append_eq_nil_iff.mp ht.symm).2 hmore
  · cases hs.symm.trans hrun'
  · exact hrun

end Sources

section Results
variable {x : ReadM ζ ε α} {f : α → ReadM ζ ε β} {P : α → Prop} {Q : β → Prop}

/-- Every value that the reader gives is of this kind. -/
def Gives (x : ReadM ζ ε α) (P : α → Prop) : Prop := ∀ z a z', x.run z = .ok (a, z') → P a

theorem gives_pure {a : α} (h : P a) : Gives (pure a : ReadM ζ ε α) P := by
  intro z b z' hrun
  cases hrun
  exact h

theorem gives_throw (e : ε) : Gives (throw e : ReadM ζ ε α) P := by
  intro z a z' hrun
  cases hrun

theorem Gives.bind (h : Gives x P) (h' : ∀ a, P a → Gives (f a) Q) : Gives (x >>= f) Q := by
  intro z b z' hrun
  rw [StateT.run_bind] at hrun
  cases hx : x.run z with
  | error e =>
    rw [hx] at hrun
    cases hrun
  | ok p =>
    rw [hx] at hrun
    exact h' p.1 (h z p.1 p.2 hx) p.2 b z' hrun

theorem Gives.many (h : Gives x P) (n : ℕ) : Gives (readMany x n) fun as => as.length = n ∧ ∀ a ∈ as, P a := by
  induction n with
  | zero => exact gives_pure ⟨rfl, by simp⟩
  | succ n ih =>
    refine h.bind fun a ha => ih.bind fun as has => gives_pure ?_
    exact ⟨by rw [List.length_cons, has.1], by simpa [ha] using has.2⟩

end Results
end Codec
