import H1Z1Server.SonyNetworking.Cipher

/-! Which indices `Initialize` and `Encrypt` use on `sbox`, and whether the table stays a permutation. -/
namespace H1Z1Server.CRC4
open RC4 (SBox)

/-- The indices on `sbox` in the rounds of the schedule: each reads `sbox[i]`, and exchanges it with
`sbox[j]`. -/
def scheduleIndices (key : List UInt8) : Memory × ℕ → List ℕ → List ℕ
  | _, [] => []
  | s, i :: is => [i, i, (scheduleStep key s i).2] ++ scheduleIndices key (scheduleStep key s i) is

/-- The indices on `sbox` in both loops of `Initialize`. -/
def initializeIndices (key : List UInt8) (m : Memory) : List ℕ :=
  List.range 256 ++ scheduleIndices key (fill m, 0) (List.range 260)

/-- What an iteration of the loop of `Encrypt` does to the table, and with which indices. -/
structure EncryptRound where
  indices : List ℕ
  sbox : UInt8 → UInt8

/-- The iterations of the loop of `Encrypt`, for data of a length. -/
def encryptRounds (sbox : UInt8 → UInt8) (i j : ℕ) : ℕ → List EncryptRound
  | 0 => []
  | n + 1 =>
    let i := (i + 1) % 256
    let j := (j + (sbox (.ofNat i)).toNat) % 256
    let sbox := sbox ∘ Equiv.swap (.ofNat i) (.ofNat j)
    let rnd := ((sbox (.ofNat i)).toNat + (sbox (.ofNat j)).toNat) % 256
    ⟨[i, i, j, i, j, rnd], sbox⟩ :: encryptRounds sbox i j n

/-- `Initialize` divides by no zero, stays within the table, and leaves a permutation. -/
def InitializesTable (o : CRC4) (behind : Memory) (key : List UInt8) : Prop :=
  ∃ o' behind', initializeKey o behind key key.length = .ok (o', behind') ∧
    (∀ a ∈ initializeIndices key (o.fromSbox behind), a < 256) ∧ Function.Bijective o'.sbox

/-- Every iteration of the loop of `Encrypt` stays within the table, and leaves a permutation of one. -/
def EncryptsWithinTable : Prop :=
  ∀ sbox : SBox, Function.Bijective sbox → ∀ n, ∀ round ∈ encryptRounds sbox 0 0 n,
    (∀ a ∈ round.indices, a < 256) ∧ Function.Bijective round.sbox

/-- One iteration keeps the table a permutation, and so do those behind it. -/
theorem encryptRounds_within {sbox : SBox} (hsbox : Function.Bijective sbox) (i j n : ℕ) :
    ∀ round ∈ encryptRounds sbox i j n,
      (∀ a ∈ round.indices, a < 256) ∧ Function.Bijective round.sbox := by
  have hmod : ∀ a, a % 256 < 256 := fun a => Nat.mod_lt a (by norm_num)
  induction n generalizing sbox i j with
  | zero =>
    intro round hround
    cases hround
  | succ n ih =>
    have hswapped := hsbox.comp (Equiv.swap (UInt8.ofNat ((i + 1) % 256))
      (UInt8.ofNat ((j + (sbox (.ofNat ((i + 1) % 256))).toNat) % 256))).bijective
    intro round hround
    rcases List.mem_cons.mp hround with rfl | hround
    · refine ⟨?_, hswapped⟩
      intro a ha
      simp only [List.mem_cons, List.not_mem_nil, or_false] at ha
      rcases ha with rfl | rfl | rfl | rfl | rfl | rfl <;> exact hmod _
    · exact ih hswapped _ _ round hround

/-- Every round of the schedule reads the table at its own number. -/
theorem mem_scheduleIndices (key : List UInt8) (s : Memory × ℕ) {is : List ℕ} {i : ℕ} (hi : i ∈ is) :
    i ∈ scheduleIndices key s is := by
  induction is generalizing s with
  | nil => cases hi
  | cons k is ih =>
    rw [scheduleIndices, List.mem_append]
    rcases List.mem_cons.mp hi with rfl | hi
    · exact .inl List.mem_cons_self
    · exact .inr (ih _ hi)

/-- The rounds count to the size of `key`, which is larger than the table. -/
theorem mem_initializeIndices (key : List UInt8) (m : Memory) : 256 ∈ initializeIndices key m := by
  rw [initializeIndices, List.mem_append]
  exact .inr (mem_scheduleIndices key _ (List.mem_range.mpr (by norm_num)))

theorem not_initializesTable (o : CRC4) (behind : Memory) (key : List UInt8) :
    ¬InitializesTable o behind key := by
  rintro ⟨o', behind', -, hindices, -⟩
  exact absurd (hindices 256 (mem_initializeIndices key _)) (lt_irrefl _)

/-- Two bytes behind the object that are the same both get into the table, at different places. -/
theorem not_injective_overrun (key : List UInt8) (u : UInt8) {c : UInt8}
    (hc : RC4.keyByte key 259 + c ≠ 0) : ¬Function.Injective (overrun key u fun _ => c) := by
  unfold overrun
  dsimp only
  generalize RC4.keyByte key 259 = k at *
  generalize overrunIndex key u + RC4.keyByte key 257 + c + RC4.keyByte key 258 + c = j
  have hj : j ≠ j + k + c := by grind
  intro hinj
  apply hj
  apply hinj
  simp only [Function.update_self, Function.update_of_ne hj]

/-- There is memory behind the object with which the table is no permutation. -/
theorem exists_not_bijective (o : CRC4) {key : List UInt8} (hpos : 0 < key.length) (hle : key.length ≤ 256) :
    ∃ behind o' behind', initializeKey o behind key key.length = .ok (o', behind') ∧
      ¬Function.Bijective o'.sbox := by
  obtain ⟨c, hc⟩ : ∃ c : UInt8, RC4.keyByte key 259 + c ≠ 0 := by
    refine ⟨1 - RC4.keyByte key 259, ?_⟩
    generalize RC4.keyByte key 259 = k
    grind
  obtain ⟨o', behind', hrun, -, hsbox, -⟩ := initializeKey_run o (fun _ => c) [] hpos hle
  rw [List.append_nil] at hrun
  refine ⟨fun _ => c, o', behind', hrun, ?_⟩
  rw [hsbox]
  exact fun hbij => not_injective_overrun key _ hc hbij.1

/-- `Initialize` never keeps to the table. Without a key it divides by zero; with any other its last rounds
reach behind the table, and what they find there can spoil the permutation. `Encrypt` keeps to it. -/
theorem initialize_never_keeps (o : CRC4) {key : List UInt8} (hle : key.length ≤ 256) :
    (∀ behind, ¬InitializesTable o behind key) ∧
      (key = [] → ∀ behind, initializeKey o behind key key.length = .error .undefinedBehaviour) ∧
      (key ≠ [] → ∃ behind o' behind', initializeKey o behind key key.length = .ok (o', behind') ∧
        ¬Function.Bijective o'.sbox) ∧
      EncryptsWithinTable := by
  refine ⟨fun behind => not_initializesTable o behind key, ?_, ?_, ?_⟩
  · rintro rfl behind
    rfl
  · intro hkey
    exact exists_not_bijective o (List.length_pos_of_ne_nil hkey) hle
  · intro sbox hsbox n
    exact encryptRounds_within hsbox 0 0 n

theorem initialize_never_keeps_example :
    ∃ behind o' behind', initializeKey ⟨[], id, 0⟩ behind [1] 1 = .ok (o', behind') ∧
      ¬Function.Bijective o'.sbox :=
  have hle : [(1 : UInt8)].length ≤ 256 := by decide
  (initialize_never_keeps ⟨[], id, 0⟩ hle).2.2.1 (by decide)

/-- With the key of one byte, the schedule leaves the table. -/
theorem schedule_leaves_table : ¬InitializesTable ⟨[], id, 0⟩ (fun _ => 0) [1] :=
  not_initializesTable ⟨[], id, 0⟩ (fun _ => 0) [1]

end H1Z1Server.CRC4
