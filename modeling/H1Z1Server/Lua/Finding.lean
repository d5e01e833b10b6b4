import H1Z1Server.Lua.Matching

/-! `string.find` and `string.match`: the matcher comes to an end, and what it finds is the first match. -/
namespace H1Z1Server.LuaPattern
open Backtracking Item

variable {src pat : List UInt8}

/-! The matcher comes to an end -/

theorem lt_length_of_byte {l : List UInt8} {i : ℕ} (h : byte l i ≠ 0) : i < l.length := by
  by_contra hout
  rw [byte, List.getD_eq_getElem?_getD, List.getElem?_eq_none (not_lt.mp hout)] at h
  exact h rfl

/-- An end of a class, behind its beginning, or an error of the pattern. -/
def Ahead (p : ℕ) (r : Except MatchError ℕ) : Prop := r ≠ .error .outOfFuel ∧ ∀ ep, r = .ok ep → p < ep

theorem ahead_luaL_error (p : ℕ) (msg : String) : Ahead p (luaL_error msg) := by
  refine ⟨fun h => ?_, fun ep h => ?_⟩
  · cases h
  · cases h

theorem ahead_pure {p ep : ℕ} (h : p < ep) : Ahead p (pure ep) := by
  refine ⟨fun heq => ?_, fun ep' heq => ?_⟩
  · cases heq
  · cases heq
    exact h

theorem Ahead.mono {p p' : ℕ} {r : Except MatchError ℕ} (h : Ahead p' r) (hle : p ≤ p') : Ahead p r :=
  ⟨h.1, fun ep hep => hle.trans_lt (h.2 ep hep)⟩

theorem ahead_classendLoop (fuel p : ℕ) : Ahead p (classendLoop pat fuel p) := by
  induction fuel generalizing p with
  | zero => exact ahead_luaL_error _ _
  | succ fuel ih =>
    unfold classendLoop
    split
    · exact ahead_luaL_error _ _
    · have hle : p ≤ if byte pat p = L_ESC ∧ byte pat (p + 1) ≠ 0 then p + 2 else p + 1 := by
        split
        · omega
        · omega
      dsimp only
      generalize (if byte pat p = L_ESC ∧ byte pat (p + 1) ≠ 0 then p + 2 else p + 1) = q at hle ⊢
      split
      · exact (ih q).mono hle
      · exact ahead_pure (by omega)

theorem ahead_classend (p : ℕ) : Ahead p (classend pat p) := by
  unfold classend
  split
  · split
    · exact ahead_luaL_error _ _
    · exact ahead_pure (by omega)
  · split
    · have hle : p ≤ if byte pat (p + 1) = char '^' then p + 2 else p + 1 := by
        split
        · omega
        · omega
      exact (ahead_classendLoop _ _).mono hle
    · exact ahead_pure (by omega)

/-- The program does not run out of fuel. -/
abbrev Fueled {α : Type} (x : MatchM α) : Prop := Avoids MatchError.outOfFuel x

theorem fueled_luaL_error {α : Type} (msg : String) : Fueled (luaL_error msg : MatchM α) := avoids_throw (by simp)

section Fueling
variable {rest : ℕ → MatchM (Option ℕ)} (h : ∀ s, Fueled (rest s))
include h

theorem fueled_expandDown (s n : ℕ) : Fueled (expandDown rest s n) := by
  induction n with
  | zero => exact h s
  | succ n ih =>
    refine (h _).bind fun res => ?_
    split
    · exact avoids_pure _
    · exact ih

theorem fueled_min_expand (p ep fuel s : ℕ) : Fueled (min_expand src pat rest p ep fuel s) := by
  induction fuel generalizing s with
  | zero => exact h s
  | succ fuel ih =>
    refine (h _).bind fun res => ?_
    split_ifs
    · exact avoids_pure _
    · exact ih _
    · exact avoids_pure _

/-- A change, the rest, and what is undone. -/
theorem fueled_undo (change undo : MatchState → MatchState) (s : ℕ) : Fueled (do
    modify change
    let res ← rest s
    if res.isNone then modify undo
    return res) := by
  refine (avoids_modify _).bind fun _ => (h s).bind fun res => ?_
  dsimp only
  split
  · exact (avoids_modify _).bind fun _ => avoids_pure _
  · exact avoids_pure _

theorem fueled_start_capture (s : ℕ) (what : ℤ) : Fueled (start_capture rest s what) := by
  refine avoids_get.bind fun ms => ?_
  split
  · exact fueled_luaL_error _
  · exact fueled_undo h _ _ s

theorem fueled_end_capture (s : ℕ) : Fueled (end_capture rest s) := by
  have hclose : Fueled capture_to_close := by
    refine avoids_get.bind fun ms => ?_
    split
    · exact avoids_pure _
    · exact fueled_luaL_error _
  exact hclose.bind fun l => fueled_undo h _ _ s

end Fueling

theorem fueled_matchbalance (s p : ℕ) : Fueled (matchbalance src pat s p) := by
  unfold matchbalance
  split_ifs
  · exact fueled_luaL_error _
  · exact avoids_pure _
  · exact avoids_pure _

theorem fueled_match_capture (s : ℕ) (l : UInt8) : Fueled (match_capture src s l) := by
  have hcheck : Fueled (check_capture l) := by
    refine avoids_get.bind fun ms => ?_
    dsimp only
    split
    · exact fueled_luaL_error _
    · exact avoids_pure _
  refine hcheck.bind fun l => avoids_get.bind fun ms => ?_
  dsimp only
  split
  · exact avoids_pure _
  · exact avoids_pure _

theorem fueled_matchItem {rest : ℕ → ℕ → MatchM (Option ℕ)} {p : ℕ} (h : ∀ s p', p < p' → Fueled (rest s p')) (s : ℕ) :
    Fueled (matchItem src pat rest s p) := by
  refine avoids_lift (ahead_classend p).1 fun ep hep => ?_
  have hlt := (ahead_classend p).2 ep hep
  have hrest (s : ℕ) : Fueled (rest s (ep + 1)) := h s _ (by omega)
  dsimp only
  split_ifs
  · refine (hrest _).bind fun res => ?_
    split
    · exact avoids_pure _
    · exact hrest _
  · exact hrest _
  · exact fueled_expandDown hrest _ _
  · exact fueled_expandDown hrest _ _
  · exact avoids_pure _
  · exact fueled_min_expand hrest _ _ _ _
  · exact h _ _ hlt
  · exact avoids_pure _

/-- Whatever the pattern is, the function returns or reports an error of the pattern: it always goes on behind what it
has read of the pattern. -/
theorem fueled_doMatch {fuel p : ℕ} (hfuel : pat.length - p < fuel) (s : ℕ) : Fueled (doMatch src pat fuel s p) := by
  induction fuel generalizing p s with
  | zero => omega
  | succ fuel ih =>
    have hrest (s p' : ℕ) (hp : byte pat p ≠ 0) (hp' : p < p') : Fueled (doMatch src pat fuel s p') := by
      have hlt := lt_length_of_byte hp
      exact ih (by omega) s
    have hnonzero {c : UInt8} (hc : byte pat p = c) (hne : c ≠ 0) : byte pat p ≠ 0 := by rwa [hc]
    unfold doMatch
    split
    case isTrue hp =>
      have hp := hnonzero hp (by decide)
      split
      · exact fueled_start_capture (fun s => hrest s _ hp (by omega)) s _
      · exact fueled_start_capture (fun s => hrest s _ hp (by omega)) s _
    split
    case isTrue hp => exact fueled_end_capture (fun s => hrest s _ (hnonzero hp (by decide)) (by omega)) s
    split
    case isTrue hp =>
      refine (fueled_matchbalance _ _).bind fun res => ?_
      split
      · exact avoids_pure _
      · exact hrest _ _ (hnonzero hp.1 (by decide)) (by omega)
    split
    case isTrue hp =>
      split
      · exact fueled_luaL_error _
      · refine avoids_lift (ahead_classend _).1 fun ep hep => ?_
        have hlt := (ahead_classend _).2 ep hep
        split
        · exact hrest _ _ (hnonzero hp.1 (by decide)) (by omega)
        · exact avoids_pure _
    split
    case isTrue hp =>
      refine (fueled_match_capture _ _).bind fun res => ?_
      split
      · exact avoids_pure _
      · exact hrest _ _ (hnonzero hp.1 (by decide)) (by omega)
    split
    · exact avoids_pure _
    rename_i hp
    split
    · exact avoids_pure _
    · exact fueled_matchItem (fun s p' hlt => hrest s p' hp hlt) s

theorem matchAt_ne_outOfFuel (s p : ℕ) : matchAt src pat s p ≠ .error .outOfFuel :=
  fueled_doMatch (by omega) s ⟨[]⟩

/-! The first match -/

/-- There is nothing wrong with the pattern, which leaves no capture open. -/
structure Valid (pat : List UInt8) (p : ℕ) (items : List Item) : Prop where
  parse : Item.parse pat (pat.length + 1) p = .ok items
  captures : ∃ os, afterAll items [] = some os ∧ true ∉ os

theorem matchAt_eq (hsrc : src.length < 2 ^ 63) {p : ℕ} {items : List Item} (h : Valid pat p items) {s : ℕ}
    (hs : s ≤ src.length) :
    matchAt src pat s p = .ok (((waysAll src items s ⟨[]⟩).head?.map Prod.fst),
      ((waysAll src items s ⟨[]⟩).head?.map Prod.snd).getD ⟨[]⟩) := by
  obtain ⟨os, hos, -⟩ := h.captures
  exact doMatch_finds hsrc h.parse ⟨hs, by simp⟩ hos

/-- The first place where there is a way, the first way that there is, and its captures. -/
def firstMatch (src : List UInt8) (items : List Item) (places : List ℕ) : Option (ℕ × ℕ × MatchState) :=
  places.findSome? fun s => (waysAll src items s ⟨[]⟩).head?.map fun way => (s, way)

/-- The places where a match may begin. -/
def places (src : List UInt8) (init : ℕ) (anchor : Bool) : List ℕ :=
  if anchor then [init] else List.range' init (src.length + 1 - init)

theorem places_eq_cons {s : ℕ} (h : s ≤ src.length) : places src s false = s :: places src (s + 1) false := by
  have hlen : src.length + 1 - s = src.length + 1 - (s + 1) + 1 := by omega
  simp [places, hlen, List.range'_succ]

theorem findLoop_eq (hsrc : src.length < 2 ^ 63) {p : ℕ} {items : List Item} (h : Valid pat p items) (anchor : Bool)
    {fuel s : ℕ} (hs : s ≤ src.length) (hfuel : src.length - s < fuel) :
    findLoop src pat p anchor fuel s = .ok (firstMatch src items (places src s anchor)) := by
  induction fuel generalizing s with
  | zero => omega
  | succ fuel ih =>
    unfold findLoop
    rw [matchAt_eq hsrc h hs]
    cases hway : (waysAll src items s ⟨[]⟩).head? with
    | some way =>
      have hfirst (l : List ℕ) : firstMatch src items (s :: l) = some (s, way) := by simp [firstMatch, hway]
      have hplaces : ∃ l, places src s anchor = s :: l := by
        cases anchor with
        | true => exact ⟨[], rfl⟩
        | false => exact ⟨_, places_eq_cons hs⟩
      obtain ⟨l, hl⟩ := hplaces
      rw [hl, hfirst]
      rfl
    | none =>
      have hskip (l : List ℕ) : firstMatch src items (s :: l) = firstMatch src items l := by simp [firstMatch, hway]
      change (if s < src.length ∧ anchor = false then findLoop src pat p anchor fuel (s + 1) else return none) = _
      split
      case isTrue hmore =>
        have hplaces : places src s anchor = s :: places src (s + 1) anchor := by
          rw [hmore.2]
          exact places_eq_cons hs
        rw [hplaces, hskip, ih (by omega) (by omega)]
      case isFalse hend =>
        have hplaces : places src s anchor = [s] := by
          cases anchor with
          | true => rfl
          | false =>
            have hlast : src.length + 1 - s = 1 := by
              simp only [and_true] at hend
              omega
            simp [places, hlast]
        rw [hplaces, hskip]
        rfl

/-! Captures -/

/-- A finished capture: a position or a part of the source. -/
def captured (src : List UInt8) (c : Capture) : Pushed :=
  if c.len = CAP_POSITION then .integer (c.init + 1) else .string (substring src c.init (c.init + c.len.toNat))

theorem mem_waysAll {items : List Item} {s s' : ℕ} {ms ms' : MatchState} {os : List Bool} (h : Inside src s ms)
    (hafter : afterAll items (opens ms) = some os) (hmem : (s', ms') ∈ waysAll src items s ms) :
    Inside src s' ms' ∧ s ≤ s' ∧ opens ms' = os := by
  induction items generalizing s ms with
  | nil =>
    cases List.mem_singleton.mp hmem
    exact ⟨h, le_rfl, Option.some.inj hafter⟩
  | cons item items ih =>
    obtain ⟨mid, hmid, hrest⟩ := afterAll_cons hafter
    obtain ⟨way, hway, hmem⟩ := List.mem_flatMap.mp hmem
    have hopens := opens_of_mem_ways h hway hmid
    obtain ⟨hin, hle, hos⟩ := ih (inside_of_mem_ways h hway) (by rwa [hopens]) hmem
    exact ⟨hin, (ways_cases h.le hway).1.trans hle, hos⟩

theorem push_onecapture_eq {ms : MatchState} (hclosed : true ∉ opens ms) {i : ℕ} {c : Capture}
    (hc : ms.capture[i]? = some c) (s e : ℕ) : push_onecapture src ms i s e = .ok (captured src c) := by
  have hlen : c.len ≠ CAP_UNFINISHED := by
    intro hlen
    refine hclosed (List.mem_map.mpr ⟨c, List.mem_of_getElem? hc, ?_⟩)
    simpa using hlen
  unfold push_onecapture captured
  rw [hc]
  dsimp only
  rw [if_neg hlen]
  split
  · rfl
  · rfl

theorem mapM_range_eq {α β ε : Type} {f : ℕ → Except ε β} {g : α → β} {l : List α}
    (h : ∀ i a, l[i]? = some a → f i = .ok (g a)) : (List.range l.length).mapM f = .ok (l.map g) := by
  induction l using List.reverseRecOn with
  | nil => rfl
  | append_singleton l a ih =>
    have hinit := ih fun i b hb => h i b (by
      obtain ⟨hlt, rfl⟩ := List.getElem?_eq_some_iff.mp hb
      rw [List.getElem?_append_left hlt, List.getElem?_eq_getElem hlt])
    have hlast := h l.length a (by simp)
    rw [List.length_append, List.length_singleton, List.range_succ, List.mapM_append, hinit]
    simp only [List.mapM_cons, hlast, List.mapM_nil, List.map_append, List.map_singleton]
    rfl

theorem push_captures_eq {ms : MatchState} (hclosed : true ∉ opens ms) (whole : Option (ℕ × ℕ)) :
    push_captures src ms whole = .ok (match whole, ms.capture with
      | some (s, e), [] => [.string (substring src s e)]
      | _, capture => capture.map (captured src)) := by
  unfold push_captures
  have hall (s e : ℕ) : (List.range ms.level).mapM (fun i => push_onecapture src ms i s e) =
      .ok (ms.capture.map (captured src)) :=
    mapM_range_eq fun i c hc => push_onecapture_eq hclosed hc s e
  cases whole with
  | none => simpa using hall 0 0
  | some p =>
    obtain ⟨s, e⟩ := p
    cases hcapture : ms.capture with
    | nil =>
      have hlevel : ms.level = 0 := by simp [MatchState.level, hcapture]
      simp [hlevel, push_onecapture, hcapture, List.range_succ]
      rfl
    | cons c l =>
      have hlevel : ms.level ≠ 0 := by simp [MatchState.level, hcapture]
      have hall := hall s e
      rw [hcapture] at hall
      simpa [hlevel] using hall

/-- What a function gives for the first match. -/
def results (src : List UInt8) (find : Bool) : Option (ℕ × ℕ × MatchState) → List Pushed
  | none => [.nil]
  | some (s, e, ms) =>
    if find then [.integer (s + 1), .integer e] ++ ms.capture.map (captured src)
    else if ms.capture = [] then [.string (substring src s e)]
    else ms.capture.map (captured src)

/-- Where the search begins. -/
def start (src : List UInt8) (init : ℤ) : ℕ := min (posrelat init src.length - 1).toNat src.length

theorem mem_places {init s : ℕ} {anchor : Bool} (hinit : init ≤ src.length) (h : s ∈ places src init anchor) :
    init ≤ s ∧ s ≤ src.length := by
  unfold places at h
  split at h
  · cases List.mem_singleton.mp h
    exact ⟨le_rfl, hinit⟩
  · have hrange := List.mem_range'_1.mp h
    omega

theorem mem_of_firstMatch {items : List Item} {l : List ℕ} {s e : ℕ} {ms : MatchState}
    (h : firstMatch src items l = some (s, e, ms)) : s ∈ l ∧ (e, ms) ∈ waysAll src items s ⟨[]⟩ := by
  obtain ⟨s', hs', hway⟩ := List.exists_of_findSome?_eq_some h
  obtain ⟨way, hhead, heq⟩ := Option.map_eq_some_iff.mp hway
  cases heq
  exact ⟨hs', List.mem_of_head? hhead⟩

theorem closed_of_firstMatch {p : ℕ} {items : List Item} (h : Valid pat p items) {l : List ℕ} {s e : ℕ}
    {ms : MatchState} (hs : s ≤ src.length) (hfirst : firstMatch src items l = some (s, e, ms)) : true ∉ opens ms := by
  obtain ⟨os, hos, hclosed⟩ := h.captures
  obtain ⟨-, -, heq⟩ := mem_waysAll ⟨hs, by simp⟩ hos (mem_of_firstMatch hfirst).2
  rwa [heq]

/-- For a pattern without errors, `match` gives the first match, the first place at which the pattern has a way, and
there the first of its ways. So does `find`, if it is not to search plainly and the pattern has a special character:
without one the search is plain. -/
theorem str_find_aux_eq (hsrc : src.length < 2 ^ 63) {items : List Item} {init : ℤ} {plain find : Bool}
    (h : Valid pat (if byte pat 0 = char '^' then 1 else 0) items)
    (hpattern : find = true → plain = false ∧ hasSpecials pat = true) :
    str_find_aux src pat init plain find =
      .ok (results src find (firstMatch src items (places src (start src init) (byte pat 0 = char '^')))) := by
  have hnot : ¬(find = true ∧ (plain = true ∨ hasSpecials pat = false)) := by
    intro hplain
    obtain ⟨hp, hs⟩ := hpattern hplain.1
    simp [hp, hs] at hplain
  unfold str_find_aux start
  simp only [if_neg hnot, decide_eq_true_eq]
  rw [findLoop_eq hsrc h _ (min_le_right ..) (by omega)]
  cases hfirst : firstMatch src items
      (places src (min (posrelat init src.length - 1).toNat src.length) (byte pat 0 = char '^')) with
  | none => rfl
  | some way =>
    obtain ⟨s, e, ms⟩ := way
    have hs := (mem_places (min_le_right ..) (mem_of_firstMatch hfirst).1).2
    have hclosed := closed_of_firstMatch h hs hfirst
    cases find with
    | true =>
      change (do return [.integer (s + 1), .integer e] ++ (← push_captures src ms none) : Except MatchError _) = _
      rw [push_captures_eq hclosed]
      rfl
    | false =>
      change push_captures src ms (some (s, e)) = _
      rw [push_captures_eq hclosed]
      cases hcapture : ms.capture with
      | nil => simp [results, hcapture]
      | cons c l => simp [results, hcapture]

/-- The pattern `(%b())$`: text in balanced brackets, at the end of the source. -/
theorem str_find_aux_eq_example :
    str_find_aux [120, 40, 121, 41] [40, 37, 98, 40, 41, 41, 36] 1 false true =
      .ok (results [120, 40, 121, 41] true (firstMatch [120, 40, 121, 41] [opening, balance 40 41, closing, final]
        (places [120, 40, 121, 41] (start [120, 40, 121, 41] 1)
          (byte [40, 37, 98, 40, 41, 41, 36] 0 = char '^')))) :=
  str_find_aux_eq (by decide) ⟨rfl, [false], rfl, by decide⟩ (by decide)

end H1Z1Server.LuaPattern
