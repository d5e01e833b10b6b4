import H1Z1Server.Library.Backtracking
import H1Z1Server.Lua.Patterns

/-! The matcher finds the first of the ways that a pattern has. -/
namespace H1Z1Server.LuaPattern
open Backtracking Item

variable {src pat : List UInt8}

/-! Repetitions -/

theorem drop_eq_byte_cons {s : ℕ} (h : s < src.length) : src.drop s = byte src s :: src.drop (s + 1) := by
  rw [byte, List.getD_eq_getElem?_getD, List.getElem?_eq_getElem h, Option.getD_some, List.drop_eq_getElem_cons h]

theorem run_of_match {cls : UInt8 → Bool} {s : ℕ} (h : s < src.length ∧ cls (byte src s) = true) :
    run src cls s = run src cls (s + 1) + 1 := by
  rw [run, drop_eq_byte_cons h.1, List.takeWhile_cons_of_pos h.2, List.length_cons, run]

theorem run_of_not_match {cls : UInt8 → Bool} {s : ℕ} (h : ¬(s < src.length ∧ cls (byte src s) = true)) :
    run src cls s = 0 := by
  unfold run
  by_cases hs : s < src.length
  · rw [drop_eq_byte_cons hs, List.takeWhile_cons_of_neg fun hcls => h ⟨hs, hcls⟩, List.length_nil]
  · simp [List.drop_eq_nil_of_le (not_lt.mp hs)]

theorem add_run_le {cls : UInt8 → Bool} {s : ℕ} (hs : s ≤ src.length) : s + run src cls s ≤ src.length := by
  have hlen := (List.takeWhile_sublist cls (l := src.drop s)).length_le
  rw [List.length_drop] at hlen
  unfold run
  omega

theorem expandCount_eq_run {p ep : ℕ} (fuel : ℕ) {s : ℕ} (hfuel : src.length - s ≤ fuel) :
    expandCount src pat p ep fuel s = run src (fun c => singlematch pat c p ep) s := by
  induction fuel generalizing s with
  | zero => exact (run_of_not_match fun h => by omega).symm
  | succ fuel ih =>
    unfold expandCount
    split
    case isTrue h =>
      rw [ih (by omega)]
      exact (run_of_match h).symm
    case isFalse h => exact (run_of_not_match h).symm

section Loops
variable {rest : ℕ → MatchM (Option ℕ)} {ms : MatchState} {w : ℕ × MatchState → List (ℕ × MatchState)}

theorem expandDown_finds {s : ℕ} (n : ℕ) (h : ∀ i ≤ n, Finds (rest (s + i)) ms (w (s + i, ms))) :
    Finds (expandDown rest s n) ms (((List.range (n + 1)).reverse.map fun i => (s + i, ms)).flatMap w) := by
  induction n with
  | zero => simpa [expandDown] using h 0 le_rfl
  | succ n ih =>
    have hmore := (h (n + 1) le_rfl).orElse (ih fun i hi => h i (hi.trans n.le_succ))
    rw [List.range_succ, List.reverse_append, List.reverse_singleton, List.singleton_append, List.map_cons,
      List.flatMap_cons]
    exact hmore

theorem max_expand_finds {p ep s : ℕ}
    (h : ∀ i ≤ run src (fun c => singlematch pat c p ep) s, Finds (rest (s + i)) ms (w (s + i, ms))) :
    Finds (max_expand src pat rest s p ep) ms
      (((List.range (run src (fun c => singlematch pat c p ep) s + 1)).reverse.map
        fun i => (s + i, ms)).flatMap w) := by
  unfold max_expand
  rw [expandCount_eq_run _ (Nat.sub_le ..)]
  exact expandDown_finds _ h

theorem min_expand_finds {p ep : ℕ} (fuel : ℕ) {s : ℕ} (hfuel : src.length - s ≤ fuel)
    (h : ∀ i ≤ run src (fun c => singlematch pat c p ep) s, Finds (rest (s + i)) ms (w (s + i, ms))) :
    Finds (min_expand src pat rest p ep fuel s) ms
      (((List.range (run src (fun c => singlematch pat c p ep) s + 1)).map fun i => (s + i, ms)).flatMap w) := by
  induction fuel generalizing s with
  | zero =>
    have hnone : run src (fun c => singlematch pat c p ep) s = 0 := run_of_not_match fun h => by omega
    simpa [hnone, min_expand] using h 0 (Nat.zero_le _)
  | succ fuel ih =>
    have hself := h 0 (Nat.zero_le _)
    rw [List.range_succ_eq_map, List.map_cons, List.flatMap_cons]
    refine hself.orElse ?_
    split
    case isTrue hmatch =>
      rw [run_of_match hmatch] at h ⊢
      have hshift : ((fun i => (s + i, ms)) ∘ Nat.succ) = fun i => (s + 1 + i, ms) := by
        funext i
        simp [Nat.add_assoc, Nat.add_comm 1]
      rw [List.map_map, hshift]
      refine ih (by omega) fun i hi => ?_
      rw [Nat.add_assoc, Nat.add_comm 1]
      exact h (i + 1) (by omega)
    case isFalse hno =>
      rw [run_of_not_match hno]
      exact finds_none ms

end Loops

/-! Balanced text -/

theorem opened_cons (b e c : UInt8) (text : List UInt8) :
    opened b e (c :: text) = opened b e text + if c = e then -1 else if c = b then 1 else 0 := by
  unfold opened
  simp only [List.count_cons]
  by_cases he : c = e
  · by_cases hb : b = e
    · simp [he, hb]
      omega
    · have hcb : c ≠ b := fun h => hb (h.symm.trans he)
      simp [he, hb, Ne.symm hb]
      omega
  · by_cases hb : c = b
    · subst hb
      simp [he]
      omega
    · by_cases hbe : b = e
      · simp [he, hbe]
      · simp [he, hb, hbe]

theorem find_range'_one_succ (q : ℕ → Bool) (n : ℕ) :
    (List.range' 1 (n + 1)).find? q =
      if q 1 then some 1 else ((List.range' 1 n).find? fun i => q (i + 1)).map (· + 1) := by
  rw [List.range'_succ, List.find?_cons]
  cases q 1 with
  | true => rfl
  | false =>
    have hmap : List.range' (1 + 1) n = (List.range' 1 n).map (· + 1) := by
      simp [List.range'_eq_map_range, Function.comp_def, Nat.add_comm, Nat.add_left_comm]
    rw [hmap, List.find?_map]
    rfl

theorem balanceLoop_eq (b e : UInt8) (fuel : ℕ) {s cont : ℕ} (hfuel : src.length - s ≤ fuel) (hcont : 0 < cont) :
    balanceLoop src b e fuel s cont =
      ((List.range' 1 (src.length - s)).find? fun i => cont + opened b e ((src.drop s).take i) = 0).map (s + ·) := by
  induction fuel generalizing s cont with
  | zero =>
    have hnone : src.length - s = 0 := by omega
    simp [balanceLoop, hnone]
  | succ fuel ih =>
    unfold balanceLoop
    split
    case isFalse hs =>
      have hnone : src.length - s = 0 := by omega
      simp [hnone]
    case isTrue hs =>
      have hlen : src.length - s = src.length - (s + 1) + 1 := by omega
      have hback (o : Option ℕ) : (o.map (· + 1)).map (s + ·) = o.map (s + 1 + ·) := by
        simp [Function.comp_def, Nat.add_comm, Nat.add_left_comm]
      have hrest (k : ℕ) (hk : 0 < k)
          (hcont : (k : ℤ) = cont + if byte src s = e then -1 else if byte src s = b then 1 else 0) :
          balanceLoop src b e fuel (s + 1) k =
            ((List.range' 1 (src.length - (s + 1))).find? fun i =>
              cont + opened b e (byte src s :: (src.drop (s + 1)).take i) = 0).map (s + 1 + ·) := by
        rw [ih (by omega) hk]
        congr 3
        funext i
        rw [opened_cons, hcont]
        congr 2
        ring
      have hone : opened b e [byte src s] = if byte src s = e then -1 else if byte src s = b then 1 else 0 := by
        rw [opened_cons]
        simp [opened]
      rw [hlen, find_range'_one_succ, drop_eq_byte_cons hs]
      simp only [List.take_succ_cons, List.take_zero]
      by_cases he : byte src s = e
      · rw [if_pos he] at hone ⊢
        by_cases hlast : cont - 1 = 0
        · have hzero : (cont : ℤ) + -1 = 0 := by omega
          simp [hlast, hone, hzero]
        · have hopen : ¬(cont : ℤ) + -1 = 0 := by omega
          simp only [hone, hopen, decide_false, Bool.false_eq_true, hlast, if_false, hback]
          exact hrest (cont - 1) (by omega) (by rw [if_pos he]; omega)
      · rw [if_neg he] at hone ⊢
        by_cases hb : byte src s = b
        · rw [if_pos hb] at hone ⊢
          have hopen : ¬(cont : ℤ) + 1 = 0 := by omega
          simp only [hone, hopen, decide_false, Bool.false_eq_true, if_false, hback]
          exact hrest (cont + 1) (by omega) (by rw [if_neg he, if_pos hb]; omega)
        · rw [if_neg hb] at hone ⊢
          have hopen : ¬(cont : ℤ) + 0 = 0 := by omega
          simp only [hone, hopen, decide_false, Bool.false_eq_true, if_false, hback]
          exact hrest cont hcont (by rw [if_neg he, if_neg hb]; omega)

/-! Captures -/

/-- Which captures are open. -/
def opens (ms : MatchState) : List Bool := ms.capture.map fun c => c.len = CAP_UNFINISHED

/-- Positions and captures lie within the source. -/
structure Inside (src : List UInt8) (s : ℕ) (ms : MatchState) : Prop where
  le : s ≤ src.length
  capture : ∀ c ∈ ms.capture, c.init ≤ s ∧ -2 ≤ c.len ∧ c.len ≤ src.length

theorem lastUnfinished_eq (ms : MatchState) (level : ℕ) :
    lastUnfinished ms.capture level = lastOpen (opens ms) level := by
  induction level with
  | zero => rfl
  | succ level ih =>
    unfold lastUnfinished lastOpen
    rw [ih]
    have hopen : (ms.capture[level]?).map Capture.len = some CAP_UNFINISHED ↔ (opens ms)[level]? = some true := by
      simp [opens]
    simp only [hopen]

theorem opens_setLen (ms : MatchState) (l : ℕ) {len : ℕ → ℤ}
    (hlen : ∀ c, ms.capture[l]? = some c → len c.init ≠ CAP_UNFINISHED) :
    opens (setLen l len ms) = (opens ms).set l false := by
  unfold opens setLen
  apply List.ext_getElem?
  intro i
  rw [List.getElem?_map, List.getElem?_modify, List.getElem?_set, List.getElem?_map, List.length_map]
  by_cases hi : l = i
  · subst hi
    cases hc : ms.capture[l]? with
    | none =>
      have hout := List.getElem?_eq_none_iff.mp hc
      simp [not_lt.mpr hout]
    | some c =>
      obtain ⟨hin, -⟩ := List.getElem?_eq_some_iff.mp hc
      simp [hin, hlen c hc]
  · simp [hi]

theorem Inside.mono {s s' : ℕ} {ms : MatchState} (h : Inside src s ms) (hs : s ≤ s') (hle : s' ≤ src.length) :
    Inside src s' ms :=
  ⟨hle, fun c hc => ⟨(h.capture c hc).1.trans hs, (h.capture c hc).2⟩⟩

theorem Inside.push {s : ℕ} {ms : MatchState} (h : Inside src s ms) {what : ℤ} (hlo : -2 ≤ what) (hhi : what < 0) :
    Inside src s ⟨ms.capture ++ [⟨s, what⟩]⟩ := by
  refine ⟨h.le, fun c hc => ?_⟩
  obtain hold | hnew := List.mem_append.mp hc
  · exact h.capture c hold
  · cases List.mem_singleton.mp hnew
    exact ⟨le_rfl, hlo, hhi.le.trans (Int.natCast_nonneg _)⟩

theorem Inside.close {s : ℕ} {ms : MatchState} (h : Inside src s ms) (l : ℕ) :
    Inside src s (setLen l (fun init => s - init) ms) := by
  refine ⟨h.le, fun c hc => ?_⟩
  obtain ⟨i, hi⟩ := List.mem_iff_getElem?.mp hc
  rw [setLen, List.getElem?_modify] at hi
  obtain ⟨c', hc', rfl⟩ := Option.map_eq_some_iff.mp hi
  have hold := h.capture c' (List.mem_of_getElem? hc')
  have hle := h.le
  split
  · exact ⟨hold.1, by dsimp only; omega, by dsimp only; omega⟩
  · exact hold

/-- What a way can do: only three items change the captures, and these take nothing of the source. -/
theorem ways_cases {item : Item} {s s' : ℕ} {ms ms' : MatchState} (hle : s ≤ src.length)
    (hmem : (s', ms') ∈ item.ways src s ms) :
    s ≤ s' ∧ s' ≤ src.length ∧
      (ms' = ms ∧ item ≠ opening ∧ item ≠ position ∧ item ≠ closing ∨
        item = opening ∧ s' = s ∧ ms' = ⟨ms.capture ++ [⟨s, CAP_UNFINISHED⟩]⟩ ∨
        item = position ∧ s' = s ∧ ms' = ⟨ms.capture ++ [⟨s, CAP_POSITION⟩]⟩ ∨
        ∃ l, item = closing ∧ lastUnfinished ms.capture ms.level = some l ∧ s' = s ∧
          ms' = setLen l (fun init => s - init) ms) := by
  cases item
  all_goals simp only [Item.ways] at hmem
  case opening | position =>
    cases List.mem_singleton.mp hmem
    simp [hle]
  case closing =>
    split at hmem
    case h_1 l hl =>
      cases List.mem_singleton.mp hmem
      simp [hle, hl]
    case h_2 => cases hmem
  all_goals simp only [ne_eq, reduceCtorEq, not_false_eq_true, and_true, false_and, or_false, exists_false]
  case single cls =>
    split at hmem
    · cases List.mem_singleton.mp hmem
      exact ⟨by omega, by omega, rfl⟩
    · cases hmem
  case optional cls =>
    split at hmem
    · obtain heq | heq := List.mem_pair.mp hmem
      · cases heq
        exact ⟨by omega, by omega, rfl⟩
      · cases heq
        exact ⟨by omega, by omega, rfl⟩
    · cases List.mem_singleton.mp hmem
      exact ⟨by omega, by omega, rfl⟩
  case greedy cls | lazy cls | greedyPlus cls =>
    have hrun : s + run src cls s ≤ src.length := add_run_le hle
    simp only [List.mem_map, List.mem_reverse, List.mem_range, List.mem_range'_1, Prod.mk.injEq] at hmem
    obtain ⟨i, hi, rfl, rfl⟩ := hmem
    exact ⟨by omega, by omega, rfl⟩
  case balance b e =>
    split at hmem
    · split at hmem
      case h_1 i hi =>
        cases List.mem_singleton.mp hmem
        have hin := List.mem_range'_1.mp (List.mem_of_find?_eq_some hi)
        exact ⟨by omega, by omega, rfl⟩
      case h_2 => cases hmem
    · cases hmem
  case again l =>
    split at hmem
    · split at hmem
      · cases List.mem_singleton.mp hmem
        exact ⟨by omega, by omega, rfl⟩
      · cases hmem
    · cases hmem
  case frontier cls | final =>
    split at hmem
    · cases List.mem_singleton.mp hmem
      exact ⟨by omega, by omega, rfl⟩
    · cases hmem

/-- A way goes forward within the source. -/
theorem inside_of_mem_ways {item : Item} {s s' : ℕ} {ms ms' : MatchState} (h : Inside src s ms)
    (hmem : (s', ms') ∈ item.ways src s ms) : Inside src s' ms' := by
  obtain ⟨hs, hs', ⟨rfl, -⟩ | ⟨-, rfl, rfl⟩ | ⟨-, rfl, rfl⟩ | ⟨l, -, -, rfl, rfl⟩⟩ := ways_cases h.le hmem
  · exact h.mono hs hs'
  · exact h.push (by decide) (by decide)
  · exact h.push (by decide) (by decide)
  · exact h.close l

/-- Which captures are open does not depend on the way. -/
theorem opens_of_mem_ways {item : Item} {s s' : ℕ} {ms ms' : MatchState} (h : Inside src s ms)
    (hmem : (s', ms') ∈ item.ways src s ms) {os : List Bool} (hafter : item.after (opens ms) = some os) :
    opens ms' = os := by
  obtain ⟨-, -, ⟨rfl, hopen, hpos, hclose⟩ | ⟨rfl, -, rfl⟩ | ⟨rfl, -, rfl⟩ | ⟨l, rfl, hl, -, rfl⟩⟩ := ways_cases h.le hmem
  · cases item
    case opening => exact absurd rfl hopen
    case position => exact absurd rfl hpos
    case closing => exact absurd rfl hclose
    case again l =>
      simp only [Item.after] at hafter
      split at hafter
      · exact Option.some.inj hafter
      · cases hafter
    all_goals exact Option.some.inj hafter
  · simp only [Item.after] at hafter
    split at hafter
    · simpa [opens] using hafter
    · cases hafter
  · simp only [Item.after] at hafter
    split at hafter
    · simpa [opens, CAP_POSITION, CAP_UNFINISHED] using hafter
    · cases hafter
  · rw [lastUnfinished_eq] at hl
    have hlen : (opens ms).length = ms.level := by simp [opens, MatchState.level]
    rw [Item.after, hlen, hl] at hafter
    rw [opens_setLen]
    · exact Option.some.inj hafter
    · intro c hc
      have hin := (h.capture c (List.mem_of_getElem? hc)).1
      simp only [CAP_UNFINISHED]
      omega

/-! Items -/

section Items
variable {rest : ℕ → MatchM (Option ℕ)} {s : ℕ} {ms : MatchState} {w : ℕ × MatchState → List (ℕ × MatchState)}

theorem start_capture_finds {what : ℤ} (hlevel : ms.level < LUA_MAXCAPTURES)
    (h : Finds (rest s) ⟨ms.capture ++ [⟨s, what⟩]⟩ (w (s, ⟨ms.capture ++ [⟨s, what⟩]⟩))) :
    Finds (start_capture rest s what) ms ([(s, ⟨ms.capture ++ [⟨s, what⟩]⟩)].flatMap w) := by
  rw [List.flatMap_singleton]
  refine Finds.after (b := ms) rfl ?_
  rw [if_neg (not_le.mpr hlevel)]
  have hundo : MatchState.mk (ms.capture ++ [Capture.mk s what]).dropLast = ms := by simp
  exact Finds.undo h hundo

theorem len_of_lastUnfinished {capture : List Capture} {level l : ℕ} (h : lastUnfinished capture level = some l) :
    (capture[l]?).map Capture.len = some CAP_UNFINISHED := by
  induction level with
  | zero => cases h
  | succ level ih =>
    unfold lastUnfinished at h
    split at h
    case isTrue hlen =>
      cases h
      exact hlen
    case isFalse => exact ih h

theorem setLen_setLen {l : ℕ} (hl : (ms.capture[l]?).map Capture.len = some CAP_UNFINISHED) (len : ℕ → ℤ) :
    setLen l (fun _ => CAP_UNFINISHED) (setLen l len ms) = ms := by
  obtain ⟨c, hc, hlen⟩ := Option.map_eq_some_iff.mp hl
  obtain ⟨hin, rfl⟩ := List.getElem?_eq_some_iff.mp hc
  unfold setLen
  simp only [List.modify_modify_eq]
  congr 1
  apply List.ext_getElem?
  intro i
  rw [List.getElem?_modify]
  by_cases hi : l = i
  · subst hi
    simp [hin, ← hlen]
  · simp [hi]

theorem end_capture_finds {l : ℕ} (hl : lastUnfinished ms.capture ms.level = some l)
    (h : Finds (rest s) (setLen l (fun init => s - init) ms) (w (s, setLen l (fun init => s - init) ms))) :
    Finds (end_capture rest s) ms ([(s, setLen l (fun init => s - init) ms)].flatMap w) := by
  have hclose : (capture_to_close : MatchM ℕ).run ms = .ok (l, ms) := by
    unfold capture_to_close
    rw [StateT.run_bind, StateT.run_get, pure_bind, hl]
    rfl
  rw [List.flatMap_singleton]
  refine Finds.after hclose (Finds.undo h ?_)
  exact setLen_setLen (len_of_lastUnfinished hl) _

/-- A step that has one way at most, and leaves the state as it is. -/
theorem finds_of_run {step : MatchM (Option ℕ)} {o : Option ℕ} (hrun : step.run ms = .ok (o, ms))
    (h : ∀ s, o = some s → Finds (rest s) ms (w (s, ms))) :
    Finds (do match ← step with | none => return none | some s => rest s) ms ((o.map (·, ms)).toList.flatMap w) := by
  refine Finds.after hrun ?_
  cases o with
  | none => exact finds_none ms
  | some s =>
    rw [Option.map_some, Option.toList_some, List.flatMap_singleton]
    exact h s rfl

theorem balance_finds {p : ℕ} (hb : byte pat p ≠ 0) (he : byte pat (p + 1) ≠ 0)
    (h : ∀ way ∈ (balance (byte pat p) (byte pat (p + 1))).ways src s ms, Finds (rest way.1) way.2 (w way)) :
    Finds (do match ← matchbalance src pat s p with | none => return none | some s => rest s) ms
      (((balance (byte pat p) (byte pat (p + 1))).ways src s ms).flatMap w) := by
  have hpat : ¬(byte pat p = 0 ∨ byte pat (p + 1) = 0) := not_or.mpr ⟨hb, he⟩
  simp only [Item.ways] at h ⊢
  by_cases hs : byte src s = byte pat p
  · have hloop := balanceLoop_eq (byte pat p) (byte pat (p + 1)) src.length (Nat.sub_le src.length (s + 1)) one_pos
    have hrun : (matchbalance src pat s p).run ms =
        .ok (balanceLoop src (byte pat p) (byte pat (p + 1)) src.length (s + 1) 1, ms) := by
      rw [matchbalance, if_neg hpat, if_neg (not_not.mpr hs)]
      rfl
    rw [hloop] at hrun
    rw [if_pos hs] at h ⊢
    cases hfind : (List.range' 1 (src.length - (s + 1))).find? fun i =>
        1 + opened (byte pat p) (byte pat (p + 1)) ((src.drop (s + 1)).take i) = 0 with
    | none => 
      rw [Nat.cast_one, hfind] at hrun
      exact finds_of_run hrun fun s hs => by cases hs
    | some i =>
      rw [Nat.cast_one, hfind] at hrun
      rw [hfind] at h
      refine finds_of_run hrun fun s' hs' => ?_
      cases hs'
      exact h _ (List.mem_singleton.mpr rfl)
  · have hrun : (matchbalance src pat s p).run ms = .ok (none, ms) := by
      rw [matchbalance, if_neg hpat, if_pos hs]
      rfl
    rw [if_neg hs]
    exact finds_of_run hrun fun s hs => by cases hs

theorem check_capture_run {l : UInt8} (hl : isdigit l = true) (hzero : l ≠ char '0')
    (hclosed : (opens ms)[l.toNat - (char '1').toNat]? = some false) :
    (check_capture l).run ms = .ok (l.toNat - (char '1').toNat, ms) := by
  have hone : (char '1').toNat = 49 := rfl
  have hlo : 49 ≤ l.toNat := by
    simp only [isdigit, Bool.and_eq_true, decide_eq_true_eq] at hl
    have hge : (char '0').toNat ≤ l.toNat := hl.1
    have hne : l.toNat ≠ (char '0').toNat := fun heq => hzero (UInt8.toNat_inj.mp heq)
    have hchar : (char '0').toNat = 48 := rfl
    omega
  have hsub : ((l.toNat : ℤ) - (char '1').toNat).toNat = l.toNat - (char '1').toNat := by omega
  obtain ⟨c, hc, hlen⟩ := Option.map_eq_some_iff.mp ((List.getElem?_map ..).symm.trans hclosed)
  obtain ⟨hin, -⟩ := List.getElem?_eq_some_iff.mp hc
  have hok : ¬((l.toNat : ℤ) - (char '1').toNat < 0 ∨ (ms.level : ℤ) ≤ (l.toNat : ℤ) - (char '1').toNat ∨
      (ms.capture[((l.toNat : ℤ) - (char '1').toNat).toNat]?).map Capture.len = some CAP_UNFINISHED) := by
    rw [hsub, hc]
    simp only [Option.map_some, Option.some.injEq]
    simp only [decide_eq_false_iff_not] at hlen
    have hlevel : l.toNat - (char '1').toNat < ms.level := hin
    rintro (hneg | hout | hopen)
    · omega
    · omega
    · exact hlen hopen
  have hrun : (check_capture l).run ms = .ok (((l.toNat : ℤ) - (char '1').toNat).toNat, ms) := by
    change StateT.run (if _ then luaL_error _ else return _ : MatchM ℕ) ms = _
    rw [if_neg hok]
    rfl
  rw [hrun, hsub]

theorem again_finds {l : UInt8} (hl : isdigit l = true) (hzero : l ≠ char '0') (hsrc : src.length < 2 ^ 63)
    (hin : Inside src s ms) (hclosed : (opens ms)[l.toNat - (char '1').toNat]? = some false)
    (h : ∀ way ∈ (again (l.toNat - (char '1').toNat)).ways src s ms, Finds (rest way.1) way.2 (w way)) :
    Finds (do match ← match_capture src s l with | none => return none | some s => rest s) ms
      (((again (l.toNat - (char '1').toNat)).ways src s ms).flatMap w) := by
  have hcheck := check_capture_run hl hzero hclosed
  obtain ⟨c, hc, hlen⟩ := Option.map_eq_some_iff.mp ((List.getElem?_map ..).symm.trans hclosed)
  obtain ⟨-, hlo, hhi⟩ := hin.capture c (List.mem_of_getElem? hc)
  have hrun : (match_capture src s l).run ms = (if (c.len % 2 ^ 64).toNat ≤ src.length - s ∧
      (src.drop c.init).take (c.len % 2 ^ 64).toNat = (src.drop s).take (c.len % 2 ^ 64).toNat then
      return some (s + (c.len % 2 ^ 64).toNat) else return none : MatchM (Option ℕ)).run ms := by
    unfold match_capture
    rw [StateT.run_bind, hcheck]
    have hget : ms.capture.getD (l.toNat - (char '1').toNat) ⟨0, 0⟩ = c := by
      rw [List.getD_eq_getElem?_getD, hc, Option.getD_some]
    change StateT.run
      (if ((ms.capture.getD _ ⟨0, 0⟩).len % 2 ^ 64).toNat ≤ _ ∧ _ then return _ else return _ : MatchM _) ms = _
    rw [hget]
  simp only [Item.ways, hc] at h ⊢
  by_cases hpos : 0 ≤ c.len
  · have hmod : (c.len % 2 ^ 64).toNat = c.len.toNat := by rw [Int.emod_eq_of_lt hpos (by omega)]
    rw [hmod] at hrun
    by_cases hsame : c.len.toNat ≤ src.length - s ∧
        (src.drop c.init).take c.len.toNat = (src.drop s).take c.len.toNat
    · rw [if_pos hsame] at hrun
      rw [if_pos ⟨hpos, hsame⟩] at h ⊢
      refine finds_of_run (o := some (s + c.len.toNat)) hrun fun s' hs' => ?_
      cases hs'
      exact h _ (List.mem_singleton.mpr rfl)
    · rw [if_neg hsame] at hrun
      rw [if_neg fun hall => hsame hall.2]
      exact finds_of_run (o := none) hrun fun s' hs' => by cases hs'
  · have hlong : ¬(c.len % 2 ^ 64).toNat ≤ src.length - s := by omega
    rw [if_neg fun hall => hlong hall.1] at hrun
    rw [if_neg fun hall => hpos hall.1]
    exact finds_of_run (o := none) hrun fun s' hs' => by cases hs'

theorem frontier_finds (rest : ℕ → MatchM (Option ℕ)) {p ep : ℕ}
    (h : ∀ way ∈ (Item.frontier fun c => matchbracketclass pat c p (ep - 1)).ways src s ms,
      Finds (rest way.1) way.2 (w way)) :
    Finds (if frontier src pat s p ep then rest s else return none) ms
      (((Item.frontier fun c => matchbracketclass pat c p (ep - 1)).ways src s ms).flatMap w) := by
  simp only [Item.ways] at h ⊢
  by_cases hf : frontier src pat s p ep = true
  · have hcls : matchbracketclass pat (previous src s) p (ep - 1) = false ∧
        matchbracketclass pat (byte src s) p (ep - 1) = true := by simpa [frontier] using hf
    rw [if_pos hcls] at h ⊢
    rw [if_pos hf, List.flatMap_singleton]
    exact h _ (List.mem_singleton.mpr rfl)
  · have hcls : ¬(matchbracketclass pat (previous src s) p (ep - 1) = false ∧
        matchbracketclass pat (byte src s) p (ep - 1) = true) := by simpa [frontier] using hf
    rw [if_neg hcls, if_neg hf]
    exact finds_none ms

/-- An item of a class. The function calls the rest of the pattern at the next item. -/
theorem matchItem_finds {rest : ℕ → ℕ → MatchM (Option ℕ)} {p ep : ℕ} (hep : classend pat p = .ok ep) {item : Item}
    {p' : ℕ} (hitem : ofClass (byte pat ep) (fun c => singlematch pat c p ep) ep = (item, p'))
    (h : ∀ way ∈ item.ways src s ms, Finds (rest way.1 p') way.2 (w way)) :
    Finds (matchItem src pat rest s p) ms ((item.ways src s ms).flatMap w) := by
  have hstep : (liftM (classend pat p) : MatchM ℕ).run ms = .ok (ep, ms) := by
    rw [hep]
    rfl
  refine Finds.after hstep ?_
  have hm : (decide (s < src.length) && singlematch pat (byte src s) p ep) = true ↔
      s < src.length ∧ singlematch pat (byte src s) p ep = true := by simp
  simp only [hm]
  unfold ofClass at hitem
  by_cases hoptional : byte pat ep = char '?'
  · rw [if_pos hoptional] at hitem ⊢
    cases hitem
    simp only [Item.ways] at h ⊢
    split
    case isTrue hmatch =>
      rw [if_pos hmatch] at h
      have hmore := (h _ (List.mem_cons_self ..)).orElse (h (s, ms) (by simp))
      simpa using hmore
    case isFalse hno =>
      rw [if_neg hno] at h
      simpa using h (s, ms) (by simp)
  rw [if_neg hoptional] at hitem ⊢
  by_cases hgreedy : byte pat ep = char '*'
  · rw [if_pos hgreedy] at hitem ⊢
    cases hitem
    simp only [Item.ways] at h ⊢
    exact max_expand_finds fun i hi => h (s + i, ms) (by simpa using hi)
  rw [if_neg hgreedy] at hitem ⊢
  by_cases hplus : byte pat ep = char '+'
  · rw [if_pos hplus] at hitem ⊢
    cases hitem
    simp only [Item.ways] at h ⊢
    split
    case isTrue hmatch =>
      have hshift : ∀ n, ((List.range' 1 n).reverse.map fun i => (s + i, ms)) =
          (List.range n).reverse.map fun i => (s + 1 + i, ms) := by
        intro n
        simp [List.range'_eq_map_range, ← List.map_reverse, Function.comp_def, Nat.add_assoc]
      rw [run_of_match hmatch, hshift] at h ⊢
      exact max_expand_finds fun i hi => h (s + 1 + i, ms) (by simpa using hi)
    case isFalse hno =>
      rw [run_of_not_match hno]
      exact finds_none ms
  rw [if_neg hplus] at hitem ⊢
  by_cases hlazy : byte pat ep = char '-'
  · rw [if_pos hlazy] at hitem ⊢
    cases hitem
    simp only [Item.ways] at h ⊢
    exact min_expand_finds _ (Nat.sub_le ..) fun i hi => h (s + i, ms) (by simpa using hi)
  rw [if_neg hlazy] at hitem ⊢
  cases hitem
  simp only [Item.ways] at h ⊢
  split
  case isTrue hmatch =>
    rw [if_pos hmatch] at h
    simpa using h _ (List.mem_singleton.mpr rfl)
  case isFalse => exact finds_none ms

end Items

/-! Patterns -/

theorem parse_next {fuel p : ℕ} {item : Item} {items : List Item}
    (h : (do return item :: (← parse pat fuel p) : Except MatchError (List Item)) = .ok items) :
    ∃ rest, parse pat fuel p = .ok rest ∧ items = item :: rest := by
  cases hrest : parse pat fuel p with
  | error e =>
    rw [hrest] at h
    cases h
  | ok rest =>
    rw [hrest] at h
    cases h
    exact ⟨rest, rfl, rfl⟩

theorem afterAll_cons {item : Item} {items : List Item} {os os' : List Bool}
    (h : afterAll (item :: items) os = some os') :
    ∃ mid, item.after os = some mid ∧ afterAll items mid = some os' := by
  unfold afterAll at h
  rw [List.foldlM_cons] at h
  exact Option.bind_eq_some_iff.mp h

theorem length_opens (ms : MatchState) : (opens ms).length = ms.level := by simp [opens, MatchState.level]

theorem level_lt_of_after {item : Item} {ms : MatchState} {os : List Bool} (hitem : item = opening ∨ item = position)
    (h : item.after (opens ms) = some os) : ms.level < LUA_MAXCAPTURES := by
  by_contra hfull
  obtain rfl | rfl := hitem
  · rw [Item.after, length_opens, if_neg hfull] at h
    cases h
  · rw [Item.after, length_opens, if_neg hfull] at h
    cases h

theorem lastUnfinished_of_after {ms : MatchState} {os : List Bool} (h : closing.after (opens ms) = some os) :
    ∃ l, lastUnfinished ms.capture ms.level = some l := by
  rw [Item.after, length_opens, ← lastUnfinished_eq] at h
  obtain ⟨l, hl, -⟩ := Option.map_eq_some_iff.mp h
  exact ⟨l, hl⟩

theorem closed_of_after {l : ℕ} {ms : MatchState} {os : List Bool} (h : (again l).after (opens ms) = some os) :
    (opens ms)[l]? = some false := by
  simp only [Item.after] at h
  split at h
  case isTrue hclosed => exact hclosed
  case isFalse => cases h

/-- Of a pattern without errors, the function finds the first way. -/
theorem doMatch_finds (hsrc : src.length < 2 ^ 63) {fuel p : ℕ} {items : List Item}
    (hparse : parse pat fuel p = .ok items) {s : ℕ} {ms : MatchState} (hin : Inside src s ms) {os : List Bool}
    (hafter : afterAll items (opens ms) = some os) :
    Finds (doMatch src pat fuel s p) ms (waysAll src items s ms) := by
  induction fuel generalizing p items s ms with
  | zero => cases hparse
  | succ fuel ih =>
    -- the rest of the pattern, behind any of the ways of an item
    have hbehind {item : Item} {p' : ℕ} {rest : List Item} (hrest : parse pat fuel p' = .ok rest)
        (hafter : afterAll (item :: rest) (opens ms) = some os) (way : ℕ × MatchState)
        (hway : way ∈ item.ways src s ms) :
        Finds (doMatch src pat fuel way.1 p') way.2 (waysAll src rest way.1 way.2) := by
      obtain ⟨mid, hmid, hend⟩ := afterAll_cons hafter
      refine ih hrest (inside_of_mem_ways hin hway) ?_
      rwa [opens_of_mem_ways hin hway hmid]
    rw [parse] at hparse
    rw [doMatch]
    by_cases hcapture : byte pat p = char '('
    · rw [if_pos hcapture] at hparse ⊢
      by_cases hposition : byte pat (p + 1) = char ')'
      · rw [if_pos hposition] at hparse ⊢
        obtain ⟨rest, hrest, rfl⟩ := parse_next hparse
        obtain ⟨mid, hmid, -⟩ := afterAll_cons hafter
        exact start_capture_finds (level_lt_of_after (.inr rfl) hmid) (hbehind hrest hafter _ (List.mem_singleton.mpr rfl))
      · rw [if_neg hposition] at hparse ⊢
        obtain ⟨rest, hrest, rfl⟩ := parse_next hparse
        obtain ⟨mid, hmid, -⟩ := afterAll_cons hafter
        exact start_capture_finds (level_lt_of_after (.inl rfl) hmid) (hbehind hrest hafter _ (List.mem_singleton.mpr rfl))
    rw [if_neg hcapture] at hparse ⊢
    by_cases hclosing : byte pat p = char ')'
    · rw [if_pos hclosing] at hparse ⊢
      obtain ⟨rest, hrest, rfl⟩ := parse_next hparse
      obtain ⟨mid, hmid, -⟩ := afterAll_cons hafter
      obtain ⟨l, hl⟩ := lastUnfinished_of_after hmid
      have hways : closing.ways src s ms = [(s, setLen l (fun init => s - init) ms)] := by rw [Item.ways, hl]
      rw [waysAll, hways]
      exact end_capture_finds hl (hbehind hrest hafter _ (by rw [hways]; exact List.mem_singleton.mpr rfl))
    rw [if_neg hclosing] at hparse ⊢
    by_cases hbalance : byte pat p = L_ESC ∧ byte pat (p + 1) = char 'b'
    · rw [if_pos hbalance] at hparse ⊢
      by_cases hends : byte pat (p + 2) = 0 ∨ byte pat (p + 3) = 0
      · rw [if_pos hends] at hparse
        cases hparse
      · rw [if_neg hends] at hparse
        obtain ⟨rest, hrest, rfl⟩ := parse_next hparse
        obtain ⟨hb, he⟩ := not_or.mp hends
        exact balance_finds hb he (hbehind hrest hafter)
    rw [if_neg hbalance] at hparse ⊢
    by_cases hfrontier : byte pat p = L_ESC ∧ byte pat (p + 1) = char 'f'
    · rw [if_pos hfrontier] at hparse ⊢
      by_cases hset : byte pat (p + 2) ≠ char '['
      · rw [if_pos hset] at hparse
        cases hparse
      · rw [if_neg hset] at hparse ⊢
        cases hep : classend pat (p + 2) with
        | error e =>
          rw [hep] at hparse
          cases hparse
        | ok ep =>
          rw [hep] at hparse
          obtain ⟨rest, hrest, rfl⟩ := parse_next hparse
          exact Finds.after (b := ep) rfl (frontier_finds (doMatch src pat fuel · ep) (hbehind hrest hafter))
    rw [if_neg hfrontier] at hparse ⊢
    by_cases hagain : byte pat p = L_ESC ∧ isdigit (byte pat (p + 1)) = true
    · rw [if_pos hagain] at hparse ⊢
      by_cases hzero : byte pat (p + 1) = char '0'
      · rw [if_pos hzero] at hparse
        cases hparse
      · rw [if_neg hzero] at hparse
        obtain ⟨rest, hrest, rfl⟩ := parse_next hparse
        obtain ⟨mid, hmid, -⟩ := afterAll_cons hafter
        exact again_finds hagain.2 hzero hsrc hin (closed_of_after hmid) (hbehind hrest hafter)
    rw [if_neg hagain] at hparse ⊢
    by_cases hend : byte pat p = 0
    · rw [if_pos hend] at hparse ⊢
      cases hparse
      exact finds_some s ms
    rw [if_neg hend] at hparse ⊢
    by_cases hfinal : byte pat p = char '$' ∧ byte pat (p + 1) = 0
    · rw [if_pos hfinal] at hparse ⊢
      cases hparse
      simp only [waysAll, Item.ways]
      split
      · exact finds_some s ms
      · exact finds_none ms
    rw [if_neg hfinal] at hparse ⊢
    cases hep : classend pat p with
    | error e =>
      rw [hep] at hparse
      cases hparse
    | ok ep =>
      rw [hep] at hparse
      obtain ⟨rest, hrest, rfl⟩ := parse_next hparse
      exact matchItem_finds hep rfl (hbehind hrest hafter)

end H1Z1Server.LuaPattern
