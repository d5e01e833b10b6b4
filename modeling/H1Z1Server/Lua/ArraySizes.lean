import H1Z1Server.Lua.Entries
import Mathlib.Data.Nat.Size

/-! The counts that a rehash makes, and the size of the array that it gets from them. -/
namespace H1Z1Server.LuaTable
open LuaApi

theorem log_2_eq : ∀ x < 256, log_2.getD x 0 = Nat.size x := by decide +kernel

theorem size_shiftRight {x : ℕ} (h : 256 ≤ x) : Nat.size x = Nat.size (x >>> 8) + 8 := by
  have hdiv : x >>> 8 = x / 256 := Nat.shiftRight_eq_div_pow x 8
  have hlarge : 8 < Nat.size x := Nat.lt_size.mpr h
  have hlt : x / 256 < 2 ^ (Nat.size x - 8) := by
    rw [Nat.div_lt_iff_lt_mul (by norm_num)]
    calc x < 2 ^ Nat.size x := Nat.lt_size_self x
      _ = 2 ^ (Nat.size x - 8) * 256 := by
        rw [show (256 : ℕ) = 2 ^ 8 from rfl, ← Nat.pow_add]
        congr 1
        omega
  have hle : x < 2 ^ (Nat.size (x / 256) + 8) := by
    rw [Nat.pow_add, ← Nat.div_lt_iff_lt_mul (by norm_num)]
    exact Nat.lt_size_self _
  rw [hdiv]
  apply le_antisymm
  · exact Nat.size_le.mpr hle
  · have hsize := Nat.size_le.mpr hlt
    omega

theorem log2Loop_eq (fuel x : ℕ) (l : ℤ) (h : x < 2 ^ (8 * fuel + 8)) :
    log2Loop fuel x l = l + Nat.size x := by
  induction fuel generalizing x l with
  | zero => rw [log2Loop, log_2_eq x h]
  | succ fuel ih =>
    rw [log2Loop]
    split
    case isTrue hle =>
      have hlt : x >>> 8 < 2 ^ (8 * fuel + 8) := by
        rw [Nat.shiftRight_eq_div_pow, Nat.div_lt_iff_lt_mul (by norm_num), ← Nat.pow_add]
        exact h
      rw [ih _ _ hlt, size_shiftRight hle]
      push_cast
      ring
    case isFalse hlt => rw [log_2_eq x (not_le.mp hlt)]

/-- `ceillog2` rounds the logarithm of a number up. -/
theorem ceillog2_le_iff {x l : ℕ} (hpos : 1 ≤ x) (hlt : x ≤ 2 ^ 32) : ceillog2 x ≤ l ↔ x ≤ 2 ^ l := by
  unfold ceillog2 luaO_log2
  rw [log2Loop_eq 3 (x - 1) (-1) (by omega)]
  have hsize := Nat.size_le (m := x - 1) (n := l)
  omega

theorem lt_ceillog2_iff {x l : ℕ} (hpos : 1 ≤ x) (hlt : x ≤ 2 ^ 32) : l < ceillog2 x ↔ 2 ^ l < x := by
  rw [← not_le, ceillog2_le_iff hpos hlt, not_le]

/-- How many elements `computesizes` has seen in the slices up to one. -/
def upTo (nums : List ℕ) (k : ℕ) : ℕ := ((Finset.range (k + 1)).sum fun j => nums.getD j 0)

/-- The array has `n` slots, `na` of them in use, and these are more than a half; with more slots, they
would not be. -/
def Optimal (nums : List ℕ) (na n : ℕ) : Prop :=
  (n = 0 ∧ na = 0 ∧ ∀ k, upTo nums k ≤ 2 ^ k / 2) ∨
    ∃ k, n = 2 ^ k ∧ na = upTo nums k ∧ 2 ^ k / 2 < upTo nums k ∧ ∀ l, k < l → upTo nums l ≤ 2 ^ l / 2

section Sizes
variable {nums : List ℕ} {narray i na n a : ℕ}

/-- The best size among those that have been looked at. -/
def BestBelow (nums : List ℕ) (i na n : ℕ) : Prop :=
  (n = 0 ∧ na = 0 ∧ ∀ k < i, upTo nums k ≤ 2 ^ k / 2) ∨
    ∃ k < i, n = 2 ^ k ∧ na = upTo nums k ∧ 2 ^ k / 2 < upTo nums k ∧ ∀ l < i, k < l → upTo nums l ≤ 2 ^ l / 2

theorem upTo_succ (nums : List ℕ) (k : ℕ) : upTo nums (k + 1) = upTo nums k + nums.getD (k + 1) 0 :=
  Finset.sum_range_succ ..

theorem upTo_mono (nums : List ℕ) {k l : ℕ} (h : k ≤ l) : upTo nums k ≤ upTo nums l := by
  apply Finset.sum_le_sum_of_subset
  intro j hj
  rw [Finset.mem_range] at hj ⊢
  omega

theorem BestBelow.optimal (h : BestBelow nums i na n) (hrest : ∀ k, i ≤ k → upTo nums k ≤ 2 ^ k / 2) :
    Optimal nums na n := by
  rcases h with ⟨hn, hna, hbelow⟩ | ⟨k, -, hn, hna, hmore, hbelow⟩
  · refine .inl ⟨hn, hna, ?_⟩
    intro k
    rcases Nat.lt_or_ge k i with hk | hk
    · exact hbelow k hk
    · exact hrest k hk
  · refine .inr ⟨k, hn, hna, hmore, ?_⟩
    intro l hl
    rcases Nat.lt_or_ge l i with hli | hli
    · exact hbelow l hli hl
    · exact hrest l hli

theorem BestBelow.skip (h : BestBelow nums i na n) (hi : upTo nums i ≤ 2 ^ i / 2) :
    BestBelow nums (i + 1) na n := by
  have hle : ∀ l < i + 1, l < i ∨ upTo nums l ≤ 2 ^ l / 2 := by
    intro l hl
    rcases Nat.lt_succ_iff_lt_or_eq.mp hl with hl | rfl
    · exact .inl hl
    · exact .inr hi
  rcases h with ⟨hn, hna, hbelow⟩ | ⟨k, hk, hn, hna, hmore, hbelow⟩
  · exact .inl ⟨hn, hna, fun l hl => (hle l hl).elim (hbelow l) id⟩
  · exact .inr ⟨k, by omega, hn, hna, hmore, fun l hl hkl => (hle l hl).elim (fun h => hbelow l h hkl) id⟩

theorem BestBelow.take (hi : 2 ^ i / 2 < upTo nums i) : BestBelow nums (i + 1) (upTo nums i) (2 ^ i) := by
  refine .inr ⟨i, Nat.lt_succ_self i, rfl, rfl, hi, ?_⟩
  intro l hl hil
  omega

/-- All that `nums` counts are below `2 ^ MAXBITS`, in slices that hold no more than there are numbers. -/
structure Counts (nums : List ℕ) (narray : ℕ) : Prop where
  total : ∀ k, MAXBITS ≤ k → upTo nums k = narray
  room : ∀ k, upTo nums k ≤ 2 ^ k

theorem Counts.le (h : Counts nums narray) (k : ℕ) : upTo nums k ≤ narray := by
  rw [← h.total (max k MAXBITS) (le_max_right _ _)]
  exact upTo_mono nums (le_max_left _ _)

theorem two_pow_half (k : ℕ) : 2 ^ (k + 1) / 2 = 2 ^ k := by
  rw [Nat.pow_succ, Nat.mul_div_cancel _ two_pos]

/-- The loop of `computesizes`; `a` is what it has counted below `i`. -/
theorem computesizesLoop_spec (h : Counts nums narray) (fuel i a na n : ℕ) (hfuel : fuel + i = MAXBITS + 2)
    (hsum : a + nums.getD i 0 = upTo nums i) (hbest : BestBelow nums i na n) :
    Optimal nums (computesizesLoop nums narray fuel i (2 ^ i) a na n).1
      (computesizesLoop nums narray fuel i (2 ^ i) a na n).2 := by
  induction fuel generalizing i a na n with
  | zero =>
    rw [computesizesLoop]
    apply hbest.optimal
    intro k hk
    calc upTo nums k ≤ narray := h.le k
      _ = upTo nums MAXBITS := (h.total MAXBITS le_rfl).symm
      _ ≤ 2 ^ MAXBITS := h.room MAXBITS
      _ = 2 ^ (MAXBITS + 1) / 2 := (two_pow_half MAXBITS).symm
      _ ≤ 2 ^ k / 2 := Nat.div_le_div_right (Nat.pow_le_pow_right two_pos (by omega))
  | succ fuel ih =>
    rw [computesizesLoop]
    split
    case isFalse hdone =>
      apply hbest.optimal
      intro k hk
      calc upTo nums k ≤ narray := h.le k
        _ ≤ 2 ^ i / 2 := not_lt.mp hdone
        _ ≤ 2 ^ k / 2 := Nat.div_le_div_right (Nat.pow_le_pow_right two_pos hk)
    case isTrue =>
      -- with nothing in the slice there is no more than before, and twice the room
      have hempty : nums.getD i 0 = 0 → upTo nums i ≤ 2 ^ i / 2 := by
        intro hzero
        cases i with
        | zero =>
          have hfirst : upTo nums 0 = nums.getD 0 0 := by simp [upTo]
          omega
        | succ i =>
          rw [two_pow_half]
          have hroom := h.room i
          have hsucc := upTo_succ nums i
          omega
      obtain ⟨na', n', hstep, hbest'⟩ : ∃ na' n',
          (if 0 < nums.getD i 0 then
            if 2 ^ i / 2 < a + nums.getD i 0 then (a + nums.getD i 0, a + nums.getD i 0, 2 ^ i)
            else (a + nums.getD i 0, na, n)
          else (a, na, n)) = (upTo nums i, na', n') ∧ BestBelow nums (i + 1) na' n' := by
        rw [hsum]
        split
        · split
          case isTrue hmore => exact ⟨_, _, rfl, .take hmore⟩
          case isFalse hless => exact ⟨_, _, rfl, hbest.skip (not_lt.mp hless)⟩
        case isFalse hzero =>
          have hzero : nums.getD i 0 = 0 := Nat.eq_zero_of_not_pos hzero
          refine ⟨na, n, ?_, hbest.skip (hempty hzero)⟩
          rw [← hsum, hzero, Nat.add_zero]
      dsimp only
      rw [hstep]
      dsimp only
      split
      case isTrue hall =>
        apply hbest'.optimal
        intro k hk
        calc upTo nums k ≤ narray := h.le k
          _ = upTo nums i := hall.symm
          _ ≤ 2 ^ i := h.room i
          _ = 2 ^ (i + 1) / 2 := (two_pow_half i).symm
          _ ≤ 2 ^ k / 2 := Nat.div_le_div_right (Nat.pow_le_pow_right two_pos hk)
      case isFalse =>
        rw [← Nat.pow_succ]
        exact ih (i + 1) _ _ _ (by omega) (upTo_succ nums i).symm hbest'

/-- The size of the array is the largest power of two with more than half of the slots in use. -/
theorem computesizes_optimal (h : Counts nums narray) :
    Optimal nums (computesizes nums narray).1 (computesizes nums narray).2 := by
  unfold computesizes
  apply computesizesLoop_spec h (MAXBITS + 2) 0 0 0 0 rfl
  · simp [upTo]
  · exact .inl ⟨rfl, rfl, fun k hk => absurd hk (Nat.not_lt_zero k)⟩

end Sizes

/-! What `nums` counts -/

/-- The numbers in `K` have been added to the counts of their slices. -/
structure Tallies (nums nums' K : List ℕ) : Prop where
  length : nums'.length = nums.length
  count : ∀ j, nums'.getD j 0 = nums.getD j 0 + K.countP fun m => ceillog2 m = j

section Tallies
variable {nums nums' nums'' K K' : List ℕ}

theorem Tallies.refl (nums : List ℕ) : Tallies nums nums [] := ⟨rfl, fun _ => rfl⟩

theorem Tallies.trans (h : Tallies nums nums' K) (h' : Tallies nums' nums'' K') :
    Tallies nums nums'' (K ++ K') where
  length := h'.length.trans h.length
  count j := by rw [h'.count, h.count, List.countP_append, Nat.add_assoc]

theorem Tallies.perm (h : Tallies nums nums' K) (hperm : K.Perm K') : Tallies nums nums' K' :=
  ⟨h.length, fun j => by rw [h.count, hperm.countP_eq]⟩

theorem tallies_modify {l : ℕ} (hl : l < nums.length) (hK : ∀ m ∈ K, ceillog2 m = l) :
    Tallies nums (nums.modify l (· + K.length)) K where
  length := List.length_modify ..
  count j := by
    have hcount : (K.countP fun m => ceillog2 m = j) = if l = j then K.length else 0 := by
      split
      case isTrue hj =>
        rw [List.countP_eq_length]
        exact fun m hm => decide_eq_true ((hK m hm).trans hj)
      case isFalse hj =>
        rw [List.countP_eq_zero]
        intro m hm
        rw [decide_eq_true_iff, hK m hm]
        exact hj
    rw [hcount, List.getD_eq_getElem?_getD, List.getElem?_modify, List.getD_eq_getElem?_getD]
    split
    case isTrue hj =>
      subst hj
      simp [hl]
    case isFalse => simp

theorem countP_le_succ (f : ℕ → ℕ) (K : List ℕ) (k : ℕ) :
    (K.countP fun m => f m ≤ k) + (K.countP fun m => f m = k + 1) = K.countP fun m => f m ≤ k + 1 := by
  induction K with
  | nil => rfl
  | cons m K ih =>
    simp only [List.countP_cons, decide_eq_true_eq]
    split_ifs <;> omega

/-- All counts, of distinct numbers from 1 to the largest size of an array. -/
theorem Tallies.counts (h : Tallies (List.replicate (MAXBITS + 1) 0) nums K) (hnodup : K.Nodup)
    (hK : ∀ m ∈ K, 1 ≤ m ∧ m ≤ MAXASIZE) :
    (∀ k, upTo nums k = K.countP fun m => m ≤ 2 ^ k) ∧ Counts nums K.length := by
  have hzero : ∀ j, (List.replicate (MAXBITS + 1) 0).getD j 0 = 0 := by
    intro j
    rw [List.getD_eq_getElem?_getD, List.getElem?_replicate]
    split
    · rfl
    · rfl
  have hupTo : ∀ k, upTo nums k = K.countP fun m => ceillog2 m ≤ k := by
    intro k
    induction k with
    | zero =>
      rw [upTo, Finset.sum_range_one, h.count, hzero, Nat.zero_add]
      simp only [Nat.le_zero]
    | succ k ih => rw [upTo_succ, ih, h.count, hzero, Nat.zero_add, countP_le_succ]
  have hle : ∀ k, upTo nums k = K.countP fun m => m ≤ 2 ^ k := by
    intro k
    rw [hupTo]
    apply List.countP_congr
    intro m hm
    have hmax : MAXASIZE ≤ 2 ^ 32 := Nat.pow_le_pow_right two_pos (by decide)
    rw [decide_eq_true_iff, decide_eq_true_iff, ceillog2_le_iff (hK m hm).1 ((hK m hm).2.trans hmax)]
  refine ⟨hle, ?_, ?_⟩
  · intro k hk
    rw [hle, List.countP_eq_length]
    intro m hm
    exact decide_eq_true ((hK m hm).2.trans (Nat.pow_le_pow_right two_pos hk))
  · intro k
    rw [hle, List.countP_eq_length_filter]
    have hsub : K.filter (fun m => m ≤ 2 ^ k) ⊆ List.range' 1 (2 ^ k) := by
      intro m hm
      rw [List.mem_filter, decide_eq_true_iff] at hm
      rw [List.mem_range'_1]
      have hpos := (hK m hm.1).1
      omega
    calc (K.filter fun m => m ≤ 2 ^ k).length ≤ (List.range' 1 (2 ^ k)).length :=
          ((hnodup.filter _).subperm hsub).length_le
      _ = 2 ^ k := List.length_range'

theorem ceillog2_le_MAXBITS {m : ℕ} (hpos : 1 ≤ m) (hle : m ≤ MAXASIZE) : ceillog2 m ≤ MAXBITS := by
  have hmax : MAXASIZE ≤ 2 ^ 32 := Nat.pow_le_pow_right two_pos (by decide)
  exact (ceillog2_le_iff hpos (hle.trans hmax)).mpr hle

end Tallies

section Counting
variable {N : Type} {nums : List ℕ}

namespace Table

/-- The elements of a slice of the array are counted together. -/
theorem usedFrom_eq (t : Table N) {i lim : ℕ} (hlim : lim ≤ t.sizearray) :
    ∃ K, t.usedFrom i = K ++ t.usedFrom (max i (lim + 1)) ∧ K.length = t.countSlice i lim ∧
      ∀ m ∈ K, i ≤ m ∧ m ≤ lim := by
  refine ⟨(List.range' i (lim + 1 - i)).filter fun i => !ttisnil (t.array.getD (i - 1) .nil), ?_, rfl, ?_⟩
  · unfold usedFrom
    rw [← List.filter_append]
    congr 1
    rcases Nat.lt_or_ge lim i with hlt | hle
    · rw [Nat.sub_eq_zero_of_le hlt, max_eq_left hlt]
      rfl
    · rw [max_eq_right (by omega)]
      have happend := List.range'_append_1 (s := i) (m := lim + 1 - i) (n := t.sizearray + 1 - (lim + 1))
      rw [show i + (lim + 1 - i) = lim + 1 by omega] at happend
      rw [happend]
      congr 1
      omega
  · intro m hm
    rw [List.mem_filter, List.mem_range'_1] at hm
    omega

/-- The loop of `numusearray`; all below `i` has been counted, and what is left lies in the slices from
`lg` on. -/
theorem numusearrayLoop_spec (t : Table N) (hfits : t.sizearray ≤ MAXASIZE) (fuel lg i ause : ℕ)
    (hlength : nums.length = MAXBITS + 1) (hfuel : fuel + lg = MAXBITS + 1) (hi : 1 ≤ i)
    (hslice : ∀ m, i ≤ m → m ≤ t.sizearray → lg ≤ ceillog2 m) :
    (t.numusearrayLoop fuel lg (2 ^ lg) i ause nums).1 = ause + (t.usedFrom i).length ∧
      Tallies nums (t.numusearrayLoop fuel lg (2 ^ lg) i ause nums).2 (t.usedFrom i) := by
  have hnone : t.sizearray < i → t.usedFrom i = [] := by
    intro hlt
    rw [usedFrom, Nat.sub_eq_zero_of_le hlt]
    rfl
  have hmax : MAXASIZE ≤ 2 ^ 32 := Nat.pow_le_pow_right two_pos (by decide)
  induction fuel generalizing nums lg i ause with
  | zero =>
    have hempty : t.sizearray < i := by
      by_contra hle
      have hmany := hslice i le_rfl (not_lt.mp hle)
      have hfew := ceillog2_le_MAXBITS hi ((not_lt.mp hle).trans hfits)
      omega
    rw [numusearrayLoop, hnone hempty]
    exact ⟨rfl, .refl nums⟩
  | succ fuel ih =>
    rw [numusearrayLoop]
    dsimp only
    split
    case isTrue hdone =>
      rw [hnone (by omega)]
      exact ⟨rfl, .refl nums⟩
    case isFalse hmore =>
      obtain ⟨K, hK, hcount, hbetween⟩ := t.usedFrom_eq (i := i) (Nat.min_le_right (2 ^ lg) t.sizearray)
      have hsame : ∀ m ∈ K, ceillog2 m = lg := by
        intro m hm
        obtain ⟨hlo, hhi⟩ := hbetween m hm
        have hhi' := le_min_iff.mp hhi
        have hle := (ceillog2_le_iff (l := lg) (hi.trans hlo) ((hhi'.2.trans hfits).trans hmax)).mpr hhi'.1
        exact le_antisymm hle (hslice m hlo hhi'.2)
      have htally : Tallies nums (nums.modify lg (· + t.countSlice i (min (2 ^ lg) t.sizearray))) K := by
        rw [← hcount]
        exact tallies_modify (by omega) hsame
      have hrest := ih (lg + 1)
        (max i (min (2 ^ lg) t.sizearray + 1)) (ause + t.countSlice i (min (2 ^ lg) t.sizearray))
        (htally.length.trans hlength) (by omega) (hi.trans (le_max_left _ _))
        (fun m hm hle => (lt_ceillog2_iff (hi.trans ((le_max_left _ _).trans hm))
          ((hle.trans hfits).trans hmax)).mpr (by omega))
        (fun hlt => by rw [usedFrom, Nat.sub_eq_zero_of_le hlt]; rfl)
      rw [← Nat.pow_succ, hK, List.length_append, hcount, ← Nat.add_assoc]
      exact ⟨hrest.1, htally.trans hrest.2⟩

theorem numusearray_spec (t : Table N) (hfits : t.sizearray ≤ MAXASIZE) (hlength : nums.length = MAXBITS + 1) :
    (t.numusearray nums).1 = (t.usedFrom 1).length ∧ Tallies nums (t.numusearray nums).2 (t.usedFrom 1) := by
  have h := t.numusearrayLoop_spec hfits (MAXBITS + 1) 0 1 0 hlength rfl le_rfl (fun _ _ _ => Nat.zero_le _)
  rwa [Nat.zero_add] at h

end Table

variable [LuaNumber N]

/-- The index under which a rehash counts a key. -/
def candidate (key : Value N) : Option ℕ :=
  if 0 < arrayindex key ∧ arrayindex key ≤ MAXASIZE then some (arrayindex key).toNat else none

theorem candidate_eq_some {key : Value N} {m : ℕ} :
    candidate key = some m ↔ 1 ≤ m ∧ m ≤ MAXASIZE ∧ arrayindex key = m := by
  unfold candidate
  split
  case isTrue h =>
    rw [Option.some_inj]
    omega
  case isFalse h =>
    simp only [reduceCtorEq, false_iff]
    rintro ⟨hpos, hle, heq⟩
    omega

theorem countint_spec (key : Value N) (hlength : nums.length = MAXBITS + 1) :
    (countint key nums).1 = (candidate key).toList.length ∧
      Tallies nums (countint key nums).2 (candidate key).toList := by
  unfold countint candidate
  dsimp only
  split
  case isTrue h =>
    have hslice : ceillog2 (arrayindex key).toNat < nums.length := by
      rw [hlength]
      exact Nat.lt_succ_of_le (ceillog2_le_MAXBITS (by omega) (by omega))
    exact ⟨rfl, tallies_modify hslice (K := [_]) fun m hm => by rw [List.mem_singleton.mp hm]⟩
  case isFalse => exact ⟨rfl, .refl nums⟩

theorem Table.numusehash_spec (t : Table N) (hlength : nums.length = MAXBITS + 1) :
    (t.numusehash nums).1 = (t.nodeEntries 0).length ∧
      (t.numusehash nums).2.1 = ((t.nodeEntries 0).filterMap fun e => candidate e.1).length ∧
      Tallies nums (t.numusehash nums).2.2 ((t.nodeEntries 0).filterMap fun e => candidate e.1) := by
  rw [nodeEntries_zero]
  unfold numusehash
  induction t.node with
  | nil => exact ⟨rfl, rfl, .refl nums⟩
  | cons n node ih =>
    obtain ⟨hlive, hcount, htally⟩ := ih
    rw [List.foldr_cons, countNode, List.filter_cons]
    split
    case isTrue =>
      have hone := countint_spec n.key.key2tval (htally.length.trans hlength)
      have hcons : ∀ es : List (Value N × Value N),
          ((n.key.key2tval, n.val) :: es).filterMap (fun e => candidate e.1) =
            (candidate n.key.key2tval).toList ++ es.filterMap fun e => candidate e.1 := by
        intro es
        rw [List.filterMap_cons]
        dsimp only
        cases candidate n.key.key2tval <;> rfl
      dsimp only
      rw [List.map_cons, hcons, List.length_append, List.length_cons, hlive, hcount, hone.1]
      exact ⟨rfl, Nat.add_comm .., (htally.trans hone.2).perm List.perm_append_comm⟩
    case isFalse => exact ⟨hlive, hcount, htally⟩

/-! The sizes that a rehash finds -/

/-- How many of these keys an array of size `n` would hold. -/
def inside (ks : List (Value N)) (n : ℕ) : ℕ := ks.countP fun k => 1 ≤ arrayindex k ∧ arrayindex k ≤ n

/-- The array is empty or a power of two of slots, more than half of them in use, and no larger power is. -/
def BestSize (ks : List (Value N)) (n : ℕ) : Prop :=
  (n = 0 ∨ ∃ k ≤ MAXBITS, n = 2 ^ k ∧ n / 2 < inside ks n) ∧
    ∀ l ≤ MAXBITS, n < 2 ^ l → inside ks (2 ^ l) ≤ 2 ^ l / 2

theorem BestSize.le {ks : List (Value N)} {n : ℕ} (h : BestSize ks n) : n ≤ MAXASIZE := by
  obtain ⟨rfl | ⟨k, hk, rfl, -⟩, -⟩ := h
  · exact Nat.zero_le _
  · exact Nat.pow_le_pow_right two_pos hk

theorem countP_candidate (ks : List (Value N)) {n : ℕ} (hn : n ≤ MAXASIZE) :
    (ks.filterMap candidate).countP (fun m => m ≤ n) = inside ks n := by
  rw [List.countP_filterMap, inside]
  apply List.countP_congr
  intro k _
  cases hk : candidate k with
  | none =>
    have hnone : ∀ m, ¬(1 ≤ m ∧ m ≤ MAXASIZE ∧ arrayindex k = m) := by
      intro m hm
      rw [candidate_eq_some.mpr hm] at hk
      cases hk
    have hout := hnone (arrayindex k).toNat
    simp only [Option.map_none, Option.getD_none, Bool.false_eq_true, decide_eq_true_eq, false_iff]
    omega
  | some m =>
    have hm := candidate_eq_some.mp hk
    simp only [Option.map_some, Option.getD_some, decide_eq_true_eq]
    omega

theorem nodup_candidates [LuaMemory N] [LawfulLuaMemory N] {ks : List (Value N)}
    (h : ks.Pairwise fun k l => k.rawequal l = false) : (ks.filterMap candidate).Nodup := by
  rw [List.Nodup, List.pairwise_filterMap]
  refine h.imp ?_
  rintro k l hkl m hm m' hm' rfl
  obtain ⟨hpos, -, hk⟩ := candidate_eq_some.mp hm
  obtain ⟨-, -, hl⟩ := candidate_eq_some.mp hm'
  exact Bool.eq_false_iff.mp hkl ((rawequal_iff_arrayindex (by omega)).mpr (hl.trans hk.symm))

/-- What `computesizes` makes of the counts of all keys. -/
theorem computesizes_bestSize [LuaMemory N] [LawfulLuaMemory N] {ks : List (Value N)}
    (h : ks.Pairwise fun k l => k.rawequal l = false)
    (htally : Tallies (List.replicate (MAXBITS + 1) 0) nums (ks.filterMap candidate)) :
    BestSize ks (computesizes nums (ks.filterMap candidate).length).2 ∧
      (computesizes nums (ks.filterMap candidate).length).1 =
        inside ks (computesizes nums (ks.filterMap candidate).length).2 := by
  obtain ⟨hupTo, hcounts⟩ := htally.counts (nodup_candidates h) fun m hm => by
    obtain ⟨k, -, hk⟩ := List.mem_filterMap.mp hm
    obtain ⟨hpos, hle, -⟩ := candidate_eq_some.mp hk
    exact ⟨hpos, hle⟩
  have hinside : ∀ l ≤ MAXBITS, upTo nums l = inside ks (2 ^ l) := by
    intro l hl
    rw [hupTo, countP_candidate ks (Nat.pow_le_pow_right two_pos hl)]
  rcases computesizes_optimal hcounts with ⟨hn, hna, hless⟩ | ⟨k, hn, hna, hmore, hless⟩
  · rw [hn, hna]
    refine ⟨⟨.inl rfl, fun l hl _ => hinside l hl ▸ hless l⟩, ?_⟩
    rw [inside, eq_comm, List.countP_eq_zero]
    intro k _
    rw [decide_eq_true_iff]
    omega
  · have hk : k ≤ MAXBITS := by
      by_contra hlarge
      have hall : upTo nums k ≤ 2 ^ k / 2 := calc
        upTo nums k ≤ _ := hcounts.le k
        _ = upTo nums MAXBITS := (hcounts.total MAXBITS le_rfl).symm
        _ ≤ 2 ^ MAXBITS := hcounts.room MAXBITS
        _ = 2 ^ (MAXBITS + 1) / 2 := (two_pow_half MAXBITS).symm
        _ ≤ 2 ^ k / 2 := Nat.div_le_div_right (Nat.pow_le_pow_right two_pos (by omega))
      omega
    rw [hn, hna, hinside k hk]
    refine ⟨⟨.inr ⟨k, hk, rfl, hinside k hk ▸ hmore⟩, ?_⟩, rfl⟩
    intro l hl hlt
    exact hinside l hl ▸ hless l ((Nat.pow_lt_pow_iff_right (by norm_num)).mp hlt)

namespace Table
variable {t : Table N} {key : Value N}

def keys (t : Table N) : List (Value N) := t.entries.map Prod.fst

variable [LuaMemory N] [LawfulLuaMemory N]

theorem Sound.candidates (h : t.Sound) :
    t.keys.filterMap candidate = t.usedFrom 1 ++ (t.nodeEntries 0).filterMap fun e => candidate e.1 := by
  unfold keys entries arrayEntries
  rw [List.map_append, List.filterMap_append, List.map_map, List.filterMap_map, List.filterMap_map]
  congr 1
  conv_rhs => rw [← List.filterMap_some (l := t.usedFrom 1)]
  apply List.filterMap_congr
  intro m hm
  obtain ⟨hpos, hm, -⟩ := mem_usedFrom.mp hm
  exact candidate_eq_some.mpr ⟨hpos, hm.trans h.fits, h.arrayindex_entry hpos hm⟩

theorem Sound.keys_apart (h : t.Sound) (hget : t.luaH_get key = none) :
    (t.keys ++ [key]).Pairwise fun k l => k.rawequal l = false := by
  rw [List.pairwise_append]
  refine ⟨List.pairwise_map.mpr h.entries_apart, List.pairwise_singleton .., ?_⟩
  intro k hk l hl
  obtain ⟨e, he, rfl⟩ := List.mem_map.mp hk
  rw [List.mem_singleton.mp hl]
  apply Bool.eq_false_iff.mpr
  intro hsame
  have hlookup := h.lookup_entry he hsame
  rw [lookup, hget] at hlookup
  exact (h.valid_entry he).2 hlookup.symm

/-- The sizes are the best for the keys that have values and the new one. -/
theorem Sound.rehashSizes_spec (h : t.Sound) (hget : t.luaH_get key = none) :
    BestSize (t.keys ++ [key]) (t.rehashSizes key).1 ∧
      (t.rehashSizes key).2 + inside (t.keys ++ [key]) (t.rehashSizes key).1 = t.entries.length + 1 := by
  have hlength : (List.replicate (MAXBITS + 1) 0).length = MAXBITS + 1 := List.length_replicate
  obtain ⟨harray, htally⟩ := t.numusearray_spec h.fits hlength
  obtain ⟨hlive, hnodes, htally'⟩ := t.numusehash_spec (htally.length.trans hlength)
  obtain ⟨hone, htally''⟩ := countint_spec key (htally'.length.trans (htally.length.trans hlength))
  have hall : (t.keys ++ [key]).filterMap candidate =
      (t.usedFrom 1 ++ (t.nodeEntries 0).filterMap fun e => candidate e.1) ++ (candidate key).toList := by
    rw [List.filterMap_append, h.candidates]
    congr 1
  obtain ⟨hbest, hna⟩ := computesizes_bestSize (h.keys_apart hget) (hall ▸ (htally.trans htally').trans htally'')
  have hle : inside (t.keys ++ [key]) (t.rehashSizes key).1 ≤ t.entries.length + 1 := by
    rw [inside]
    refine List.countP_le_length.trans ?_
    simp [keys]
  rw [hall, List.length_append, List.length_append, ← harray, ← hnodes, ← hone] at hbest hna
  have htotal : t.entries.length = (t.usedFrom 1).length + (t.nodeEntries 0).length := by
    simp [entries, arrayEntries]
  have hnodes : (t.rehashSizes key).2 = t.entries.length + 1 - inside (t.keys ++ [key]) (t.rehashSizes key).1 := by
    unfold rehashSizes
    dsimp only
    rw [hna, htotal, ← harray, ← hlive]
  refine ⟨hbest, ?_⟩
  omega

end Table
end Counting
end H1Z1Server.LuaTable
