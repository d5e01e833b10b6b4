import H1Z1Server.LoginServer.Serializing
import H1Z1Server.Stream.Bounds

/-! The number writers of Lua: the numbers for which they leave a stream as the writers of C++ do. -/
namespace H1Z1Server
open MachineInt MemoryBlock ByteOrder ByteStreamBuffer LuaStream

variable {malloc : Malloc} {rt : LuaRuntime} {s s' : ByteStreamBuffer} {t : NumberType} {n : ℕ}

/-- The writes of C++, called with a number. -/
def NumberType.sized (n : ℕ) : NumberType → SizedWrite
  | dword => .dword (UInt32.ofNat n)
  | qword => .qword (UInt64.ofNat n)
  | word => .word (UInt16.ofNat n)
  | byte => .byte (UInt8.ofNat n)

/-- The writes of C++, called with an `int`. -/
def NumberType.converted (i : Int32) : NumberType → SizedWrite
  | dword => .dword (MachineInt.dword i)
  | qword => .qword (sizeT i)
  | word => .word (MachineInt.word i)
  | byte => .byte (MachineInt.byte i)

/-- A number that no `int` has is converted to none, or to one that is not congruent to it. -/
def LuaRuntime.Rough (rt : LuaRuntime) (n : ℕ) : Prop :=
  2 ^ 31 ≤ n → ∀ i, rt.toInt n = some i → ¬i.toInt ≡ n [ZMOD 2 ^ 32]

/-- Called from Lua a number writer ends as it does when C++ calls it, unless C++ leaves that undefined. -/
def FaithfulOn (rt : LuaRuntime) (t : NumberType) (n : ℕ) (s : ByteStreamBuffer) : Prop :=
  Guarded (((t.sized n).run rt.malloc (-1)).run s) →
    (BufferWriter.writeNumber rt t (some (.number n))).run s = ((t.sized n).run rt.malloc (-1)).run s

/-- The same on every platform with this heap. -/
def Faithful (malloc : Malloc) (t : NumberType) (n : ℕ) (s : ByteStreamBuffer) : Prop :=
  ∀ rt : LuaRuntime, rt.malloc = malloc → rt.Rough n → FaithfulOn rt t n s

theorem converted_run (t : NumberType) (i : Int32) :
    (t.converted i).run malloc (-1) = (t.item i).write malloc := by
  cases t <;> rfl

theorem writeNumber_eq (rt : LuaRuntime) (t : NumberType) (v : Option LuaValue) :
    ∃ f, BufferWriter.writeNumber rt t v =
      checkInt rt f v >>= fun value => (t.converted value).run rt.malloc (-1) := by
  obtain ⟨f, heq⟩ := writeNumber_item rt t v
  refine ⟨f, ?_⟩
  simp only [converted_run]
  exact heq

/-- An `int` that has the number is written as the number. -/
theorem converted_ofInt (t : NumberType) (hfits : n < 256 ^ t.width) (hin : n < 2 ^ 31) :
    t.converted (Int32.ofInt n) = t.sized n := by
  cases t with
  | dword => exact congrArg SizedWrite.dword (dword_ofInt hin)
  | qword => exact congrArg SizedWrite.qword (sizeT_ofInt hin)
  | word => exact congrArg SizedWrite.word (word_ofInt hfits)
  | byte => exact congrArg SizedWrite.byte (byte_ofInt hfits)

theorem sizeable_sized (t : NumberType) (n : ℕ) : (t.sized n).Sizeable := by
  cases t <;> trivial

/-- A number and an `int` of which the same bytes are written are congruent. -/
theorem congruent_of_image_eq {i : Int32} (hfits : n < 256 ^ t.width) (hout : 2 ^ 31 ≤ n) {bigEndian : Bool}
    (h : (t.converted i).image bigEndian = (t.sized n).image bigEndian) : i.toInt ≡ n [ZMOD 2 ^ 32] := by
  have hvalue : ∀ {w k : ℕ}, k < 256 ^ w → n < 256 ^ w →
      encodeNat bigEndian w k = encodeNat bigEndian w n → k = n := by
    intro w k hk hn heq
    rw [← decodeNat_encodeNat bigEndian hk, heq, decodeNat_encodeNat bigEndian hn]
  unfold Int.ModEq
  cases t with
  | dword =>
    have hdword : n < 2 ^ 32 := hfits
    have hn : (UInt32.ofNat n).toNat = n := by rw [UInt32.toNat_ofNat', Nat.mod_eq_of_lt hdword]
    have hi := toNat_dword i
    simp only [NumberType.converted, NumberType.sized, SizedWrite.image, hn] at h
    have heq := hvalue (dword i).toNat_lt hfits h
    omega
  | qword =>
    have hn : (UInt64.ofNat n).toNat = n := toNat_ofNat_of_lt hfits
    have hi := toNat_sizeT i
    simp only [NumberType.converted, NumberType.sized, SizedWrite.image, hn] at h
    have heq := hvalue (sizeT i).toNat_lt hfits h
    omega
  | word =>
    have hword : n < 2 ^ 16 := hfits
    omega
  | byte =>
    have hbyte : n < 2 ^ 8 := hfits
    omega

/-- A number that an `int` has is written as C++ writes it. -/
theorem writeNumber_run_of_lt (rt : LuaRuntime) (t : NumberType) (hfits : n < 256 ^ t.width) (hin : n < 2 ^ 31) :
    (BufferWriter.writeNumber rt t (some (.number n))).run s = ((t.sized n).run rt.malloc (-1)).run s := by
  obtain ⟨f, heq⟩ := writeNumber_eq rt t (some (.number n))
  rw [heq, run_bind_ok (checkInt_run f (rt.toInt_exact n (by omega) (by omega))), converted_ofInt t hfits hin]

/-- Of any other number something else is written, or nothing. -/
theorem writeNumber_ne_of_ge (hrough : rt.Rough n) (hfits : n < 256 ^ t.width) (hout : 2 ^ 31 ≤ n)
    (hrun : ((t.sized n).run rt.malloc (-1)).run s = .ok () s') :
    (BufferWriter.writeNumber rt t (some (.number n))).run s ≠ .ok () s' := by
  intro hlua
  obtain ⟨f, heq⟩ := writeNumber_eq rt t (some (.number n))
  rw [heq] at hlua
  cases hi : rt.toInt n with
  | none =>
    rw [run_bind_error (checkInt_undefined f hi)] at hlua
    cases hlua
  | some i =>
    rw [run_bind_ok (checkInt_run f hi)] at hlua
    have hsizeable : (t.converted i).Sizeable := by cases t <;> trivial
    have hsize : (t.converted i).size = (t.sized n).size := by cases t <;> rfl
    obtain ⟨bigEndian, himage⟩ :=
      SizedWrite.image_eq_of_run_eq hsizeable (sizeable_sized t n) hsize hlua hrun
    exact hrough hout i hi (congruent_of_image_eq hfits hout himage)

/-- The strict platform with another heap. -/
def strictOver (malloc : Malloc) : LuaRuntime := { strictRuntime with malloc }

theorem strictOver_undefined (malloc : Malloc) (hout : 2 ^ 31 ≤ n) : (strictOver malloc).toInt n = none := by
  have hcast : (2 : ℤ) ^ 31 ≤ n := by omega
  have hsame : (strictOver malloc).toInt = strictRuntime.toInt := by
    unfold strictOver
    rfl
  rw [hsame, strictRuntime_strict.1 n hcast]

theorem strictOver_rough (malloc : Malloc) (n : ℕ) : (strictOver malloc).Rough n := by
  intro hout i hi
  rw [strictOver_undefined malloc hout] at hi
  cases hi

/-- The number writers of Lua are faithful exactly for the numbers below 2^31, and where C++ itself leaves the
write undefined. Of no larger number is the same left behind on any platform. -/
theorem number_writes_faithful_iff (malloc : Malloc) (howns : Owns s) (t : NumberType)
    (hfits : n < 256 ^ t.width) :
    (Faithful malloc t n s ↔ n < 2 ^ 31 ∨ ¬(t.sized n).Checked malloc s (-1)) ∧
      ∀ rt : LuaRuntime, rt.malloc = malloc → rt.Rough n → 2 ^ 31 ≤ n →
        ∀ s', ((t.sized n).run malloc (-1)).run s = .ok () s' →
          (BufferWriter.writeNumber rt t (some (.number n))).run s ≠ .ok () s' := by
  have hguarded := SizedWrite.guarded_iff malloc howns (sizeable_sized t n) (-1)
  refine ⟨⟨fun hfaithful => ?_, ?_⟩, ?_⟩
  · by_contra hboth
    obtain ⟨hout, hchecked⟩ := not_or.mp hboth
    have hdefined := hguarded.mpr (not_not.mp hchecked)
    obtain ⟨f, heq⟩ := writeNumber_eq (strictOver malloc) t (some (.number n))
    have hsame := hfaithful (strictOver malloc) rfl (strictOver_rough malloc n) hdefined
    rw [heq, run_bind_error (checkInt_undefined f (strictOver_undefined malloc (not_lt.mp hout)))] at hsame
    have hcpp : ((t.sized n).run malloc (-1)).run s = .error .undefinedBehaviour s := hsame.symm
    rw [hcpp] at hdefined
    exact not_guarded_undefined s hdefined
  · rintro (hin | hbroken) rt rfl - hdefined
    · exact writeNumber_run_of_lt rt t hfits hin
    · exact absurd (hguarded.mp hdefined) hbroken
  · rintro rt rfl hrough hout s' hrun
    exact writeNumber_ne_of_ge hrough hfits hout hrun

theorem number_writes_faithful_example : Faithful plentiful .qword 0x7FFFFFFF (writerOf 4 true) :=
  (number_writes_faithful_iff plentiful (writerOf_inBuffer (by norm_num) true).owns .qword (by decide)).1.mpr
    (.inl (by norm_num))

/-- On a platform that converts what is out of range to the smallest `int`, -1 as a dword is written as that. -/
theorem session_id_lost :
    Owns (writerOf 4 true) ∧ (platform (-2147483648)).Rough 0xFFFFFFFF ∧
      ¬FaithfulOn (platform (-2147483648)) .dword 0xFFFFFFFF (writerOf 4 true) := by
  have hrough : (platform (-2147483648)).Rough 0xFFFFFFFF := by
    intro hout i hi
    rw [platform_out (by norm_num)] at hi
    cases hi
    decide
  refine ⟨(writerOf_inBuffer (by norm_num) true).owns, hrough, fun hfaithful => ?_⟩
  obtain ⟨s', hrun⟩ : ∃ s', ((NumberType.dword.sized 0xFFFFFFFF).run (platform (-2147483648)).malloc (-1)).run
      (writerOf 4 true) = .ok () s' := ⟨_, rfl⟩
  have hsame := hfaithful (by rw [hrun]; trivial)
  exact writeNumber_ne_of_ge hrough (by decide) (by norm_num) hrun (hsame.trans hrun)

end H1Z1Server
