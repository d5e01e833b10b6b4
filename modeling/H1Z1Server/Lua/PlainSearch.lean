import Mathlib.Data.List.TakeWhile
import H1Z1Server.Lua.Finding

/-! Plain search: `lmemfind` finds the first place of a string, and what the matcher would find. -/
namespace H1Z1Server.LuaPattern
open Item

variable {src pat : List UInt8}

/-! The search for a byte -/

theorem getElem_window {i n k : ℕ} (hk : k < ((src.drop i).take n).length) :
    ((src.drop i).take n)[k] = byte src (i + k) := by
  have hlen : i + k < src.length := by
    rw [List.length_take, List.length_drop] at hk
    omega
  rw [List.getElem_take, List.getElem_drop, byte, List.getD_eq_getElem?_getD, List.getElem?_eq_getElem hlen,
    Option.getD_some]

theorem memchr_none {i n : ℕ} {c : UInt8} (hin : i + n ≤ src.length) (h : memchr src i n c = none) {j : ℕ} (hi : i ≤ j)
    (hj : j < i + n) : byte src j ≠ c := by
  rw [memchr, Option.map_eq_none_iff, List.findIdx?_eq_none_iff] at h
  have hk : j - i < ((src.drop i).take n).length := by
    rw [List.length_take, List.length_drop]
    omega
  have hne := h _ (List.getElem_mem hk)
  rw [getElem_window hk, Nat.add_sub_cancel' hi] at hne
  simpa using hne

theorem memchr_some {i n init : ℕ} {c : UInt8} (h : memchr src i n c = some init) :
    i ≤ init ∧ init < i + n ∧ byte src init = c ∧ ∀ j, i ≤ j → j < init → byte src j ≠ c := by
  obtain ⟨k, hk, rfl⟩ := Option.map_eq_some_iff.mp h
  obtain ⟨hlt, hc, hbefore⟩ := List.findIdx?_eq_some_iff_getElem.mp hk
  have hlen := hlt
  rw [List.length_take] at hlen
  rw [getElem_window hlt] at hc
  refine ⟨by omega, by omega, by simpa using hc, fun j hi hj => ?_⟩
  have hne := hbefore (j - i) (by omega)
  rw [getElem_window, Nat.add_sub_cancel' hi] at hne
  simpa using hne

/-! The search for a string -/

theorem cons_prefix_iff {c : UInt8} {t : List UInt8} {i : ℕ} (hi : i < src.length) :
    c :: t <+: src.drop i ↔ byte src i = c ∧ substring src (i + 1) (i + (t.length + 1)) = t := by
  rw [drop_eq_byte_cons hi, List.cons_prefix_cons, List.prefix_iff_eq_take, substring]
  have hlen : i + (t.length + 1) - (i + 1) = t.length := by omega
  rw [hlen]
  exact and_congr eq_comm eq_comm

/-- The first place at which the pattern itself is. -/
def firstPlace (src pat : List UInt8) (places : List ℕ) : Option ℕ := places.find? fun i => pat <+: src.drop i

theorem firstPlace_append (l l' : List ℕ) :
    firstPlace src pat (l ++ l') = (firstPlace src pat l).or (firstPlace src pat l') := List.find?_append ..

theorem firstPlace_eq_none {l : List ℕ} (h : ∀ i ∈ l, ¬pat <+: src.drop i) : firstPlace src pat l = none := by
  simpa [firstPlace] using h

theorem lmemfindLoop_eq {c : UInt8} {t : List UInt8} {fuel i n : ℕ} (hfuel : n ≤ fuel) (hin : i + n ≤ src.length) :
    lmemfindLoop src (c :: t) fuel i n = firstPlace src (c :: t) (List.range' i n) := by
  induction fuel generalizing i n with
  | zero =>
    have hn : n = 0 := by omega
    simp [lmemfindLoop, firstPlace, hn]
  | succ fuel ih =>
    have hskip (j : ℕ) (hj : j < src.length) (hne : byte src j ≠ c) : ¬c :: t <+: src.drop j := by
      rw [cons_prefix_iff hj]
      exact fun h => hne h.1
    unfold lmemfindLoop
    split
    case isFalse hn =>
      have hn : n = 0 := by omega
      simp [firstPlace, hn]
    case isTrue hn =>
      have hbyte : byte (c :: t) 0 = c := rfl
      rw [hbyte]
      cases hchr : memchr src i n c with
      | none =>
        refine (firstPlace_eq_none fun j hj => ?_).symm
        have hrange := List.mem_range'_1.mp hj
        exact hskip j (by omega) (memchr_none hin hchr hrange.1 hrange.2)
      | some init =>
        obtain ⟨hlo, hhi, hc, hbefore⟩ := memchr_some hchr
        have hlen : n = (init - i) + (n - (init + 1 - i) + 1) := by omega
        have hfront : firstPlace src (c :: t) (List.range' i (init - i)) = none := by
          refine firstPlace_eq_none fun j hj => ?_
          have hrange := List.mem_range'_1.mp hj
          exact hskip j (by omega) (hbefore j hrange.1 (by omega))
        have hdivide : List.range' i n =
            List.range' i (init - i) ++ init :: List.range' (init + 1) (n - (init + 1 - i)) := by
          conv_lhs => rw [hlen]
          rw [← List.range'_append_1, List.range'_succ, Nat.add_sub_cancel' hlo]
        have hplaced := cons_prefix_iff (c := c) (t := t) (i := init) (by omega : init < src.length)
        rw [hdivide, firstPlace_append, hfront, Option.none_or, firstPlace, List.find?_cons]
        simp only [List.length_cons, List.drop_one, List.tail_cons]
        split
        case isTrue hsame =>
          have hfound : c :: t <+: src.drop init := hplaced.mpr ⟨hc, hsame⟩
          simp [hfound]
        case isFalse hother =>
          have hmissed : ¬c :: t <+: src.drop init := fun h => hother (hplaced.mp h).2
          simp only [hmissed, decide_false]
          exact ih (by omega) (by omega)

/-- Plain search finds the first place. -/
theorem lmemfind_eq {s1 : ℕ} (hs : s1 ≤ src.length) :
    lmemfind src pat s1 = firstPlace src pat (List.range' s1 (src.length + 1 - s1)) := by
  have hlong (i n : ℕ) (hlast : i + n ≤ src.length + 1) (hlt : src.length < i + pat.length) :
      firstPlace src pat (List.range' i n) = none := by
    refine firstPlace_eq_none fun j hj h => ?_
    have hrange := List.mem_range'_1.mp hj
    have hle := h.length_le
    rw [List.length_drop] at hle
    omega
  cases pat with
  | nil =>
    have hrange : src.length + 1 - s1 = src.length - s1 + 1 := by omega
    simp [lmemfind, firstPlace, hrange, List.range'_succ]
  | cons c t =>
    unfold lmemfind
    dsimp only
    rw [if_neg (by simp)]
    split
    case isTrue hshort => exact (hlong _ _ (by omega) (by omega)).symm
    case isFalse hfits =>
      rw [List.length_cons] at hfits hlong
      have hdivide : List.range' s1 (src.length + 1 - s1) =
          List.range' s1 (src.length - s1 - t.length) ++ List.range' (src.length - t.length) (t.length + 1) := by
        have hmid : src.length - t.length = s1 + (src.length - s1 - t.length) := by omega
        rw [hmid, List.range'_append_1]
        congr 1
        omega
      rw [hdivide, firstPlace_append, hlong (src.length - t.length) _ (by omega) (by omega), Option.or_none]
      exact lmemfindLoop_eq (by omega) (by omega)

/-! What the matcher finds -/

/-- Every byte of the pattern stands for itself, wherever it is. -/
structure Plain (pat : List UInt8) : Prop where
  specials : hasSpecials pat = false
  zero : 0 ∉ pat
  closing : char ')' ∉ pat

theorem Plain.not_special (h : Plain pat) (i : ℕ) : byte pat i ∉ SPECIALS := by
  have hwhole : pat.takeWhile (· ≠ 0) = pat := by
    rw [List.takeWhile_eq_self_iff]
    intro c hc
    simpa using fun hzero : c = 0 => h.zero (hzero ▸ hc)
  have hspecials := h.specials
  rw [hasSpecials, hwhole] at hspecials
  by_cases hi : i < pat.length
  · have hmem : byte pat i ∈ pat := by
      rw [byte, List.getD_eq_getElem?_getD, List.getElem?_eq_getElem hi]
      exact List.getElem_mem hi
    intro hin
    have hany : pat.any (SPECIALS.contains ·) = true := List.any_eq_true.mpr ⟨_, hmem, by simpa using hin⟩
    rw [hany] at hspecials
    cases hspecials
  · have hzero : byte pat i = 0 := by
      by_contra hne
      exact hi (lt_length_of_byte hne)
    rw [hzero]
    decide

theorem parse_plain (h : Plain pat) {fuel p : ℕ} (hfuel : pat.length - p < fuel) :
    parse pat fuel p = .ok ((pat.drop p).map fun c => single fun d => c == d) := by
  induction fuel generalizing p with
  | zero => omega
  | succ fuel ih =>
    have hne (c : UInt8) (hc : c ∈ SPECIALS) (i : ℕ) : byte pat i ≠ c := fun heq => h.not_special i (heq ▸ hc)
    have hesc : ¬byte pat p = L_ESC := hne _ (by decide) p
    rw [parse]
    simp only [hesc, false_and, if_false, hne (char '(') (by decide) p, hne (char '$') (by decide) p]
    by_cases hp : p < pat.length
    · have hmem : byte pat p ∈ pat := by
        rw [byte, List.getD_eq_getElem?_getD, List.getElem?_eq_getElem hp]
        exact List.getElem_mem hp
      have hclosing : byte pat p ≠ char ')' := fun heq => h.closing (heq ▸ hmem)
      have hzero : byte pat p ≠ 0 := fun heq => h.zero (heq ▸ hmem)
      have hend : classend pat p = .ok (p + 1) := by
        rw [classend, if_neg hesc, if_neg (hne _ (by decide) p)]
        rfl
      have hsingle : (fun c => singlematch pat c p (p + 1)) = fun d => byte pat p == d := by
        funext c
        rw [singlematch, if_neg (hne _ (by decide) p), if_neg hesc, if_neg (hne _ (by decide) p)]
      have hitem : ofClass (byte pat (p + 1)) (fun c => singlematch pat c p (p + 1)) (p + 1) =
          (single fun d => byte pat p == d, p + 1) := by
        rw [ofClass, if_neg (hne _ (by decide) _), if_neg (hne _ (by decide) _), if_neg (hne _ (by decide) _),
          if_neg (hne _ (by decide) _), hsingle]
      simp only [hclosing, hzero, if_false, hend, drop_eq_byte_cons hp, List.map_cons]
      change (do
        let i := ofClass (byte pat (p + 1)) (fun c => singlematch pat c p (p + 1)) (p + 1)
        return i.1 :: (← parse pat fuel i.2) : Except MatchError (List Item)) = _
      rw [hitem]
      dsimp only
      rw [ih (by omega)]
      rfl
    · have hzero : byte pat p = 0 := by
        by_contra hne
        exact hp (lt_length_of_byte hne)
      rw [hzero, if_neg (by decide), if_pos rfl, List.drop_eq_nil_of_le (not_lt.mp hp)]
      rfl

theorem waysAll_plain (t : List UInt8) {s : ℕ} (ms : MatchState) :
    waysAll src (t.map fun c => single fun d => c == d) s ms =
      if t <+: src.drop s then [(s + t.length, ms)] else [] := by
  induction t generalizing s with
  | nil => simp [waysAll]
  | cons c t ih =>
    rw [List.map_cons, waysAll, Item.ways]
    by_cases hs : s < src.length
    · simp only [drop_eq_byte_cons hs, List.cons_prefix_cons]
      by_cases hc : c = byte src s
      · rw [if_pos ⟨hs, by simpa using hc⟩, List.flatMap_singleton, ih]
        simp only [hc, true_and, List.length_cons]
        congr 3
        omega
      · rw [if_neg fun h => hc (by simpa using h.2), if_neg fun h => hc h.1]
        rfl
    · rw [if_neg fun h => hs h.1, List.drop_eq_nil_of_le (not_lt.mp hs), if_neg (by simp)]
      rfl

theorem afterAll_singles (t : List UInt8) (os : List Bool) :
    afterAll (t.map fun c => single fun d => c == d) os = some os := by
  induction t with
  | nil => rfl
  | cons c t ih =>
    rw [afterAll, List.map_cons, List.foldlM_cons]
    exact ih

theorem valid_plain (h : Plain pat) : Valid pat 0 (pat.map fun c => single fun d => c == d) :=
  ⟨parse_plain h (by omega), [], afterAll_singles _ _, by simp⟩

theorem firstMatch_plain (l : List ℕ) :
    firstMatch src (pat.map fun c => single fun d => c == d) l =
      (firstPlace src pat l).map fun s => (s, s + pat.length, ⟨[]⟩) := by
  induction l with
  | nil => rfl
  | cons s l ih =>
    unfold firstMatch firstPlace at ih ⊢
    rw [List.findSome?_cons, List.find?_cons, waysAll_plain]
    by_cases hs : pat <+: src.drop s
    · simp [hs]
    · simp only [hs, if_false, List.head?_nil, Option.map_none, decide_false]
      exact ih

/-- Plain search gives the first place at which the pattern is. Where every byte of the pattern stands for itself, this
is also the first match, with the plain search that has been asked for or without. -/
theorem str_find_plain (src pat : List UInt8) (init : ℤ) :
    str_find src pat init true = .ok (match firstPlace src pat (places src (start src init) false) with
      | some s => [.integer (s + 1), .integer (s + pat.length)]
      | none => [.nil]) ∧
    (Plain pat → ∃ items, Valid pat 0 items ∧ ∀ plain,
      str_find src pat init plain =
        .ok (results src true (firstMatch src items (places src (start src init) false)))) := by
  have hfind (plain : Bool) (h : plain = true ∨ hasSpecials pat = false) :
      str_find src pat init plain = .ok (match firstPlace src pat (places src (start src init) false) with
        | some s => [.integer (s + 1), .integer (s + pat.length)]
        | none => [.nil]) := by
    have hplace : lmemfind src pat (start src init) = firstPlace src pat (places src (start src init) false) :=
      lmemfind_eq (min_le_right ..)
    unfold start at hplace ⊢
    unfold str_find str_find_aux
    simp only [h, and_self, if_true, hplace]
    cases firstPlace src pat _ with
    | none => rfl
    | some s => rfl
  refine ⟨hfind true (.inl rfl), fun h => ⟨_, valid_plain h, fun plain => ?_⟩⟩
  rw [hfind plain (.inr h.specials), firstMatch_plain]
  cases firstPlace src pat _ with
  | none => rfl
  | some s => rfl

/-- A string with an embedded zero, which the matcher would not read to its end. -/
theorem str_find_plain_example :
    str_find [97, 0, 98] [0, 98] 1 true =
      .ok (match firstPlace [97, 0, 98] [0, 98] (places [97, 0, 98] (start [97, 0, 98] 1) false) with
      | some s => [.integer (s + 1), .integer (s + 2)]
      | none => [.nil]) ∧
    ∃ items, Valid [98] 0 items ∧ ∀ plain, str_find [97, 0, 98] [98] 1 plain =
      .ok (results [97, 0, 98] true (firstMatch [97, 0, 98] items (places [97, 0, 98] (start [97, 0, 98] 1) false))) :=
  ⟨(str_find_plain [97, 0, 98] [0, 98] 1).1, (str_find_plain [97, 0, 98] [98] 1).2 ⟨by decide, by decide, by decide⟩⟩

end H1Z1Server.LuaPattern
