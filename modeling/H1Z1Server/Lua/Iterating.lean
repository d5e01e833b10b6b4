import H1Z1Server.Lua.Substituting

/-! `string.gmatch`: a loop over it visits the matches that `string.gsub` replaces. -/
namespace H1Z1Server.LuaPattern
open Item Segment

variable {src pat : List UInt8} {items : List Item} {s : ℕ}

/-! Where the first match is -/

theorem places_eq_nil (h : src.length < s) : places src s false = [] := by
  have hlen : src.length + 1 - s = 0 := by omega
  simp [places, hlen]

theorem firstMatch_cons (src : List UInt8) (items : List Item) (s : ℕ) (l : List ℕ) :
    firstMatch src items (s :: l) =
      ((firstWay src items s).map fun way => (s, way)).or (firstMatch src items l) := by
  unfold firstMatch firstWay
  rw [List.findSome?_cons]
  cases (waysAll src items s ⟨[]⟩).head? with
  | none => rfl
  | some way => rfl

theorem firstMatch_eq_none (h : ∀ i, s ≤ i → i ≤ src.length → firstWay src items i = none) :
    firstMatch src items (places src s false) = none := by
  refine List.findSome?_eq_none_iff.mpr fun i hi => ?_
  have hrange := List.mem_range'_1.mp (show i ∈ List.range' s (src.length + 1 - s) from hi)
  have hway := h i hrange.1 (by omega)
  unfold firstWay at hway
  rw [hway]
  rfl

theorem firstMatch_eq_some {i : ℕ} {way : ℕ × MatchState} (hsi : s ≤ i) (hi : i ≤ src.length)
    (hbefore : ∀ j, s ≤ j → j < i → firstWay src items j = none) (hway : firstWay src items i = some way) :
    firstMatch src items (places src s false) = some (i, way) := by
  induction hd : i - s generalizing s with
  | zero =>
    obtain rfl : s = i := by omega
    rw [places_eq_cons hi, firstMatch_cons, hway]
    rfl
  | succ d ih =>
    rw [places_eq_cons (by omega), firstMatch_cons, hbefore s le_rfl (by omega)]
    exact ih (by omega) (fun j hj => hbefore j (by omega)) (by omega)

theorem gmatchLoop_eq (hsrc : src.length < 2 ^ 63) (h : Valid pat 0 items) {fuel : ℕ}
    (hfuel : src.length + 1 - s ≤ fuel) :
    gmatchLoop src pat fuel s = .ok (firstMatch src items (places src s false)) := by
  induction fuel generalizing s with
  | zero =>
    rw [places_eq_nil (by omega)]
    rfl
  | succ fuel ih =>
    unfold gmatchLoop
    split
    case isTrue hs =>
      rw [matchAt_firstWay hsrc h hs, places_eq_cons hs, firstMatch_cons]
      cases hway : firstWay src items s with
      | none => exact ih (by omega)
      | some way => rfl
    case isFalse hs =>
      rw [places_eq_nil (not_le.mp hs)]
      rfl

/-! The calls of a loop -/

/-- What a loop gets for a match: its captures, or the whole match if there are none. -/
def visit (src : List UInt8) (items : List Item) (segment : Segment) : List Pushed :=
  results src false ((firstWay src items segment.start).map fun way => (segment.start, way))

/-- The matches from a place on, one behind the other. -/
structure Successive (src : List UInt8) (items : List Item) (s : ℕ) (segments : List Segment) : Prop where
  matched : ∀ segment ∈ segments, s ≤ segment.start ∧ segment.start ≤ src.length ∧ segment.start ≤ segment.stop ∧
    ∃ ms, firstWay src items segment.start = some (segment.stop, ms)
  order : segments.Pairwise fun a b => a.start < b.start ∧ a.stop ≤ b.start
  covered : ∀ i, s ≤ i → i ≤ src.length → firstWay src items i = none ∨
    ∃ segment ∈ segments, segment.start ≤ i ∧ (i = segment.start ∨ i < segment.stop)

theorem Successive.first {segment : Segment} {segments : List Segment}
    (h : Successive src items s (segment :: segments)) {j : ℕ} (hj : s ≤ j) (hlt : j < segment.start) :
    firstWay src items j = none := by
  obtain ⟨-, hle, -⟩ := h.matched segment List.mem_cons_self
  refine (h.covered j hj (by omega)).resolve_right ?_
  rintro ⟨other, hmem, hother, -⟩
  rcases List.mem_cons.mp hmem with rfl | hmem
  · omega
  · have horder := (List.pairwise_cons.mp h.order).1 other hmem
    omega

theorem Successive.tail {segment : Segment} {segments : List Segment}
    (h : Successive src items s (segment :: segments)) :
    Successive src items (if segment.stop = segment.start then segment.stop + 1 else segment.stop) segments where
  matched other hmem := by
    have horder := (List.pairwise_cons.mp h.order).1 other hmem
    obtain ⟨-, hway⟩ := h.matched other (List.mem_cons_of_mem _ hmem)
    refine ⟨?_, hway⟩
    split <;> omega
  order := (List.pairwise_cons.mp h.order).2
  covered i hi hle := by
    obtain ⟨hs, -, hstop, -⟩ := h.matched segment List.mem_cons_self
    have hbehind : segment.start < i ∧ segment.stop ≤ i := by
      split at hi <;> omega
    refine (h.covered i (by omega) hle).imp_right ?_
    rintro ⟨other, hmem, hother⟩
    rcases List.mem_cons.mp hmem with rfl | hmem
    · omega
    · exact ⟨other, hmem, hother⟩

theorem gmatch_aux_none (hsrc : src.length < 2 ^ 63) (h : Valid pat 0 items)
    (hnone : firstMatch src items (places src s false) = none) : gmatch_aux src pat s = .ok ([], s) := by
  unfold gmatch_aux
  rw [gmatchLoop_eq hsrc h le_rfl, hnone]
  rfl

theorem gmatch_aux_some (hsrc : src.length < 2 ^ 63) (h : Valid pat 0 items) (hs : s ≤ src.length) {i e : ℕ}
    {ms : MatchState} (hfirst : firstMatch src items (places src s false) = some (i, e, ms)) :
    gmatch_aux src pat s = .ok (results src false (some (i, e, ms)), if e = i then e + 1 else e) := by
  have hi := (mem_places hs (mem_of_firstMatch hfirst).1).2
  unfold gmatch_aux
  rw [gmatchLoop_eq hsrc h le_rfl, hfirst]
  change (do return (← push_captures src ms (some (i, e)), if e = i then e + 1 else e) : Except MatchError _) = _
  rw [push_captures_eq (closed_of_firstMatch h hi hfirst)]
  cases hcapture : ms.capture with
  | nil => simp [results, hcapture]
  | cons c l => simp [results, hcapture]

theorem results_ne_nil (i e : ℕ) (ms : MatchState) : results src false (some (i, e, ms)) ≠ [] := by
  cases hcapture : ms.capture with
  | nil => simp [results, hcapture]
  | cons c l => simp [results, hcapture]

theorem gmatchCalls_eq (hsrc : src.length < 2 ^ 63) (h : Valid pat 0 items) {segments : List Segment}
    (hsegments : Successive src items s segments) {fuel : ℕ} (hfuel : segments.length < fuel) :
    gmatchCalls src pat fuel s = .ok (segments.map (visit src items)) := by
  induction segments generalizing s fuel with
  | nil =>
    obtain ⟨fuel, rfl⟩ := Nat.exists_eq_succ_of_ne_zero (Nat.ne_of_gt hfuel)
    have hnone : firstMatch src items (places src s false) = none :=
      firstMatch_eq_none fun i hi hle => (hsegments.covered i hi hle).resolve_right (by simp)
    unfold gmatchCalls
    rw [gmatch_aux_none hsrc h hnone]
    rfl
  | cons segment segments ih =>
    obtain ⟨fuel, rfl⟩ := Nat.exists_eq_succ_of_ne_zero (Nat.ne_of_gt (Nat.zero_lt_of_lt hfuel))
    obtain ⟨hs, hle, -, ms, hway⟩ := hsegments.matched segment List.mem_cons_self
    have hfirst := firstMatch_eq_some hs hle (fun j => hsegments.first) hway
    have hrest := ih hsegments.tail (Nat.lt_of_succ_lt_succ hfuel)
    have hvisit : visit src items segment = results src false (some (segment.start, segment.stop, ms)) := by
      rw [visit, hway]
      rfl
    unfold gmatchCalls
    rw [gmatch_aux_some hsrc h (hs.trans hle) hfirst, List.map_cons, hvisit]
    change (if results src false (some (segment.start, segment.stop, ms)) = [] then return []
      else return results src false (some (segment.start, segment.stop, ms)) :: (← gmatchCalls src pat fuel _)) = _
    rw [if_neg (results_ne_nil _ _ _), hrest]
    rfl

/-! The matches that are replaced -/

variable {segments : List Segment} {add_value : MatchState → ℕ → ℕ → Except MatchError (List UInt8)} {max_s : ℤ}

theorem Tiles.start_le (h : Tiles src s segments) {segment : Segment} (hmem : segment ∈ segments) :
    s ≤ segment.start ∧ segment.start ≤ segment.stop := by
  induction segments generalizing s with
  | nil => cases hmem
  | cons first segments ih =>
    obtain ⟨hfirst, hle, hrest⟩ := h
    rcases List.mem_cons.mp hmem with rfl | hmem
    · exact ⟨hfirst.ge, hfirst.le.trans hle⟩
    · obtain ⟨hstart, hstop⟩ := ih hrest hmem
      exact ⟨hle.trans hstart, hstop⟩

theorem Tiles.pairwise (h : Tiles src s segments) : segments.Pairwise fun a b => a.stop ≤ b.start := by
  induction segments generalizing s with
  | nil => exact .nil
  | cons first segments ih =>
    obtain ⟨-, -, hrest⟩ := h
    exact List.pairwise_cons.mpr ⟨fun other hmem => (hrest.start_le hmem).1, ih hrest⟩

/-- As many numbers up to a bound as there are leave none of them out. -/
theorem mem_of_pairwise_lt {l : List ℕ} {N : ℕ} (hlt : l.Pairwise (· < ·)) (hle : ∀ i ∈ l, i ≤ N) :
    l.length ≤ N + 1 ∧ (l.length = N + 1 → ∀ i ≤ N, i ∈ l) := by
  have hsub : l ⊆ List.range (N + 1) := fun i hi => List.mem_range.mpr (Nat.lt_succ_of_le (hle i hi))
  have hsubperm : l.Subperm (List.range (N + 1)) := hlt.nodup.subperm hsub
  have hlength := hsubperm.length_le
  rw [List.length_range] at hlength
  refine ⟨hlength, fun hall i hi => ?_⟩
  have hperm := hsubperm.perm_of_length_le (by rw [List.length_range, hall])
  exact hperm.mem_iff.mpr (List.mem_range.mpr (Nat.lt_succ_of_le hi))

theorem Replaces.replaced {more : Prop} (h : Replaces src items add_value false 0 segments more) {segment : Segment}
    (hmem : segment ∈ segments.filter (·.value.isSome)) :
    0 ≤ segment.start ∧ segment.start ≤ src.length ∧ segment.start ≤ segment.stop ∧
      ∃ ms, firstWay src items segment.start = some (segment.stop, ms) := by
  have hplace := mem_places (Nat.zero_le _) (h.start_mem hmem)
  obtain ⟨hmem, hvalue⟩ := List.mem_filter.mp hmem
  obtain ⟨value, heq⟩ := Option.isSome_iff_exists.mp hvalue
  obtain ⟨-, ms, hway, -⟩ := h.matched segment hmem value heq
  exact ⟨hplace.1, hplace.2, (h.tiles.start_le hmem).2, ms, hway⟩

theorem Replaces.starts {more : Prop} (h : Replaces src items add_value false 0 segments more) :
    replacements segments ≤ src.length + 1 ∧ (replacements segments = src.length + 1 →
      ∀ i ≤ src.length, ∃ segment ∈ segments.filter (·.value.isSome), segment.start = i) := by
  have hstarts := mem_of_pairwise_lt (List.pairwise_map.mpr h.once) fun i hi => by
    obtain ⟨segment, hmem, rfl⟩ := List.mem_map.mp hi
    exact (h.replaced hmem).2.1
  rw [List.length_map, ← List.countP_eq_length_filter] at hstarts
  exact ⟨hstarts.1, fun hall i hi => List.mem_map.mp (hstarts.2 hall i hi)⟩

theorem Replaces.successive {more : Prop} (h : Replaces src items add_value false 0 segments more)
    (hmore : more ∨ replacements segments = src.length + 1) :
    Successive src items 0 (segments.filter (·.value.isSome)) where
  matched _ hmem := h.replaced hmem
  order := h.once.and (h.tiles.pairwise.filter _)
  covered i _ hle := by
    rcases hmore with hmore | hall
    · have hi : i ∈ places src 0 false := by
        simp only [places, Bool.false_eq_true, if_false, List.mem_range'_1]
        omega
      refine (h.covered i hi (.inl hmore)).imp_right ?_
      rintro ⟨segment, hmem, hvalue, hcovers⟩
      exact ⟨segment, List.mem_filter.mpr ⟨hmem, hvalue⟩, hcovers⟩
    · obtain ⟨segment, hmem, rfl⟩ := h.starts.2 hall i hle
      exact .inr ⟨segment, hmem, le_rfl, .inl rfl⟩

/-- A loop over `gmatch` comes to an end, and visits the matches that `gsub` replaces, one by one. With an anchor in
front of the pattern it would look for a `^`. -/
theorem gmatch_visits_replaced (hsrc : src.length < 2 ^ 63) (h : Valid pat 0 items) (hanchor : byte pat 0 ≠ char '^')
    (hmax : src.length < max_s) {out : List UInt8} {n : ℕ} (hsub : str_gsub src pat add_value max_s = .ok (out, n)) :
    ∃ segments, Replaces src items add_value false 0 segments (n < max_s) ∧ segments.flatMap (output src) = out ∧
      n = replacements segments ∧
      gmatchCalls src pat (src.length + 2) 0 = .ok ((segments.filter (·.value.isSome)).map (visit src items)) := by
  have hloop : Substitutes src items add_value false max_s 0 0 (str_gsub src pat add_value max_s) := by
    unfold str_gsub
    simp only [hanchor, decide_false, Bool.false_eq_true, if_false]
    exact gsubLoop_substitutes hsrc h (Nat.zero_le _) (by omega)
  rw [hsub] at hloop
  obtain ⟨segments, hreplaces, hout, hn, -⟩ := hloop
  rw [Nat.zero_add] at hn
  have hcount := hreplaces.starts.1
  have hmore : (n : ℤ) < max_s ∨ replacements segments = src.length + 1 := by omega
  have hlength : (segments.filter (·.value.isSome)).length < src.length + 2 := by
    rw [← List.countP_eq_length_filter]
    exact Nat.lt_succ_of_le hcount
  exact ⟨segments, hreplaces, hout, hn, gmatchCalls_eq hsrc h (hreplaces.successive hmore) hlength⟩

/-- Three places, the end included. -/
theorem gmatch_visits_replaced_example :
    (∃ segments, Replaces [97, 98] [position] (fun _ _ _ => .ok [45]) false 0 segments ((3 : ℕ) < (3 : ℤ)) ∧
      segments.flatMap (output [97, 98]) = [45, 97, 45, 98, 45] ∧ 3 = replacements segments ∧
      gmatchCalls [97, 98] [40, 41] 4 0 =
        .ok ((segments.filter (·.value.isSome)).map (visit [97, 98] [position]))) ∧
      gmatchCalls [97, 98] [40, 41] 4 0 = .ok [[.integer 1], [.integer 2], [.integer 3]] :=
  ⟨gmatch_visits_replaced (by decide) ⟨rfl, [false], rfl, by decide⟩ (by decide) (by decide) rfl, rfl⟩

end H1Z1Server.LuaPattern
