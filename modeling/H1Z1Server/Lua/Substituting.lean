import H1Z1Server.Lua.Finding

/-! `string.gsub`: the source falls into parts that are kept and matches that are replaced. -/
namespace H1Z1Server.LuaPattern
open Item

/-- A part of the source, which is kept unless there is a value in its place. -/
structure Segment where
  start : ℕ
  stop : ℕ
  value : Option (List UInt8)

namespace Segment

def original (src : List UInt8) (segment : Segment) : List UInt8 := substring src segment.start segment.stop

def output (src : List UInt8) (segment : Segment) : List UInt8 := segment.value.getD (segment.original src)

end Segment

open Segment

variable {src pat : List UInt8} {items : List Item} {s : ℕ} {segments : List Segment}
  {add_value : MatchState → ℕ → ℕ → Except MatchError (List UInt8)}

/-- One behind the other, from a place to the end of the source. -/
def Tiles (src : List UInt8) : ℕ → List Segment → Prop
  | s, [] => s = src.length
  | s, segment :: segments => segment.start = s ∧ s ≤ segment.stop ∧ Tiles src segment.stop segments

def replacements (segments : List Segment) : ℕ := segments.countP (·.value.isSome)

/-- A replaced part begins here or goes over this place. -/
def Covered (segments : List Segment) (i : ℕ) : Prop :=
  ∃ segment ∈ segments, segment.value.isSome = true ∧ segment.start ≤ i ∧ (i = segment.start ∨ i < segment.stop)

def firstWay (src : List UInt8) (items : List Item) (s : ℕ) : Option (ℕ × MatchState) :=
  (waysAll src items s ⟨[]⟩).head?

/-- Segments in which the matches are replaced: every replaced one is the first way at its place, none begins where
another does, and no place with a way is left out up to the last of them, nor behind it if there may be more. -/
structure Replaces (src : List UInt8) (items : List Item)
    (add_value : MatchState → ℕ → ℕ → Except MatchError (List UInt8)) (anchor : Bool) (s : ℕ)
    (segments : List Segment) (more : Prop) : Prop where
  tiles : Tiles src s segments
  matched : ∀ segment ∈ segments, ∀ value, segment.value = some value → segment.start ∈ places src s anchor ∧
    ∃ ms, firstWay src items segment.start = some (segment.stop, ms) ∧
      add_value ms segment.start segment.stop = .ok value
  once : (segments.filter (·.value.isSome)).Pairwise (·.start < ·.start)
  covered : ∀ i ∈ places src s anchor, (more ∨ ∃ segment ∈ segments, segment.value.isSome = true ∧ i < segment.start) →
    firstWay src items i = none ∨ Covered segments i

/-- The result of a substitution from `s` on, after `n` replacements. What fails is the replacement of a match. -/
def Substitutes (src : List UInt8) (items : List Item) (add_value : MatchState → ℕ → ℕ → Except MatchError (List UInt8))
    (anchor : Bool) (max_s : ℤ) (s n : ℕ) : Except MatchError (List UInt8 × ℕ) → Prop
  | .ok (out, n') => ∃ segments, Replaces src items add_value anchor s segments (n' < max_s) ∧
      segments.flatMap (output src) = out ∧ n' = n + replacements segments ∧ (n' = n ∨ n' ≤ max_s)
  | .error err => ∃ i ∈ places src s anchor, ∃ e ms, firstWay src items i = some (e, ms) ∧ add_value ms i e = .error err

/-! Parts -/

theorem Tiles.le (h : Tiles src s segments) : s ≤ src.length := by
  induction segments generalizing s with
  | nil => exact h.le
  | cons segment segments ih => exact h.2.1.trans (ih h.2.2)

theorem substring_append_drop {e : ℕ} (h : s ≤ e) : substring src s e ++ src.drop e = src.drop s := by
  have hdrop : src.drop e = (src.drop s).drop (e - s) := by rw [List.drop_drop, Nat.add_sub_cancel' h]
  rw [hdrop]
  exact List.take_append_drop (e - s) (src.drop s)

theorem Tiles.original (h : Tiles src s segments) : segments.flatMap (original src) = src.drop s := by
  induction segments generalizing s with
  | nil => simp [show s = src.length from h]
  | cons segment segments ih =>
    obtain ⟨rfl, hle, hrest⟩ := h
    rw [List.flatMap_cons, ih hrest]
    exact substring_append_drop hle

theorem tiles_rest (h : s ≤ src.length) : Tiles src s [⟨s, src.length, none⟩] := ⟨rfl, h, rfl⟩

theorem output_rest (s : ℕ) : Segment.output src ⟨s, src.length, none⟩ = src.drop s := by
  simp [Segment.output, Segment.original, substring]

theorem output_byte (h : s < src.length) : Segment.output src ⟨s, s + 1, none⟩ = [byte src s] := by
  simp [Segment.output, Segment.original, substring, byte, List.take_one_drop_eq_of_lt_length, h]

theorem mem_places_of_le {s1 i : ℕ} (h : i ∈ places src s1 false) (hle : s ≤ s1) : i ∈ places src s false := by
  simp only [places, Bool.false_eq_true, if_false, List.mem_range'_1] at h ⊢
  omega

theorem self_mem_places (anchor : Bool) (h : s ≤ src.length) : s ∈ places src s anchor := by
  cases anchor with
  | true => exact List.mem_singleton_self s
  | false => simp only [places, Bool.false_eq_true, if_false, List.mem_range'_1]; omega

theorem Covered.append_left {l l' : List Segment} {i : ℕ} (h : Covered l i) : Covered (l ++ l') i := by
  obtain ⟨segment, hmem, hpart⟩ := h
  exact ⟨segment, List.mem_append_left l' hmem, hpart⟩

theorem Covered.append_right {l l' : List Segment} {i : ℕ} (h : Covered l' i) : Covered (l ++ l') i := by
  obtain ⟨segment, hmem, hpart⟩ := h
  exact ⟨segment, List.mem_append_right l hmem, hpart⟩

/-! Rounds -/

/-- The parts that a round adds, up to `s1`. -/
structure Round (src : List UInt8) (items : List Item) (add_value : MatchState → ℕ → ℕ → Except MatchError (List UInt8))
    (s : ℕ) (front : List Segment) (s1 : ℕ) : Prop where
  le : s ≤ s1
  tiles : ∀ rest, Tiles src s1 rest → Tiles src s (front ++ rest)
  count : replacements front ≤ 1
  matched : ∀ segment ∈ front, ∀ value, segment.value = some value → segment.start = s ∧
    ∃ ms, firstWay src items s = some (segment.stop, ms) ∧ add_value ms s segment.stop = .ok value
  covered : ∀ i, s ≤ i → (i = s ∨ i < s1) → firstWay src items i = none ∨ Covered front i

theorem round_none (h : firstWay src items s = none) : Round src items add_value s [] s where
  le := le_rfl
  tiles _ h := h
  count := Nat.zero_le 1
  matched _ hmem := absurd hmem List.not_mem_nil
  covered i hle hi := by
    obtain rfl : i = s := by omega
    exact .inl h

theorem round_some {e : ℕ} {ms : MatchState} {value : List UInt8} (h : firstWay src items s = some (e, ms))
    (hle : s ≤ e) (hvalue : add_value ms s e = .ok value) : Round src items add_value s [⟨s, e, some value⟩] e where
  le := hle
  tiles _ h := ⟨rfl, hle, h⟩
  count := le_rfl
  matched segment hmem value' heq := by
    cases List.mem_singleton.mp hmem
    cases heq
    exact ⟨rfl, ms, h, hvalue⟩
  covered i hi hlt := .inr ⟨_, List.mem_singleton_self _, rfl, hi, hlt⟩

/-- Where nothing has been taken, the next byte is kept. -/
theorem Round.keep {front : List Segment} (h : Round src items add_value s front s) :
    Round src items add_value s (front ++ [⟨s, s + 1, none⟩]) (s + 1) where
  le := Nat.le_succ s
  tiles rest hrest := by
    rw [List.append_assoc]
    exact h.tiles _ ⟨rfl, Nat.le_succ s, hrest⟩
  count := by
    have hcount := h.count
    simpa [replacements] using hcount
  matched segment hmem value heq := by
    rcases List.mem_append.mp hmem with hmem | hmem
    · exact h.matched segment hmem value heq
    · cases List.mem_singleton.mp hmem
      cases heq
  covered i hle hi := (h.covered i hle (by omega)).imp_right Covered.append_left

variable {max_s : ℤ} {anchor : Bool} {n : ℕ} {front : List Segment} {s1 : ℕ}

theorem Round.start_eq (h : Round src items add_value s front s1) {segment : Segment}
    (hmem : segment ∈ front.filter (·.value.isSome)) : segment.start = s := by
  obtain ⟨hmem, hvalue⟩ := List.mem_filter.mp hmem
  obtain ⟨value, heq⟩ := Option.isSome_iff_exists.mp hvalue
  exact (h.matched segment hmem value heq).1

theorem pairwise_of_length_le_one {α : Type} {R : α → α → Prop} {l : List α} (h : l.length ≤ 1) : l.Pairwise R := by
  cases l with
  | nil => exact .nil
  | cons a l =>
    obtain rfl : l = [] := by simpa using h
    exact List.pairwise_singleton R a

theorem Round.once (h : Round src items add_value s front s1) :
    (front.filter (·.value.isSome)).Pairwise (·.start < ·.start) :=
  pairwise_of_length_le_one (List.countP_eq_length_filter ▸ h.count)

theorem Replaces.start_mem {segments : List Segment} {more : Prop}
    (h : Replaces src items add_value anchor s segments more) {segment : Segment} (hmem : segment ∈ segments.filter (·.value.isSome)) : segment.start ∈ places src s anchor := by
  obtain ⟨hmem, hvalue⟩ := List.mem_filter.mp hmem
  obtain ⟨value, heq⟩ := Option.isSome_iff_exists.mp hvalue
  exact (h.matched segment hmem value heq).1

theorem replacements_append (l l' : List Segment) : replacements (l ++ l') = replacements l + replacements l' :=
  List.countP_append

/-- The rest is kept where no more may be replaced. -/
theorem substitutes_rest (hs : s ≤ src.length) (h : max_s ≤ n) :
    Substitutes src items add_value anchor max_s s n (.ok (src.drop s, n)) := by
  refine ⟨[⟨s, src.length, none⟩], ⟨tiles_rest hs, ?_, .nil, ?_⟩, by simp [output_rest], rfl, .inl rfl⟩
  · intro segment hmem value heq
    cases List.mem_singleton.mp hmem
    cases heq
  · rintro i - (hlt | ⟨segment, hmem, hvalue, -⟩)
    · exact absurd hlt (not_lt.mpr h)
    · cases List.mem_singleton.mp hmem
      cases hvalue

/-- The last round. -/
theorem Round.last (h : Round src items add_value s front s1) (hs : s1 ≤ src.length) (hn : n < max_s)
    (hlast : anchor = true ∨ s = src.length) :
    Substitutes src items add_value anchor max_s s n
      (.ok (front.flatMap (output src) ++ src.drop s1, n + replacements front)) := by
  have hcount := h.count
  refine ⟨front ++ [⟨s1, src.length, none⟩], ⟨h.tiles _ (tiles_rest hs), ?_, ?_, fun i hi _ => ?_⟩,
    by simp [output_rest], by simp [replacements], .inr (by omega)⟩
  · intro segment hmem value heq
    rcases List.mem_append.mp hmem with hmem | hmem
    · obtain ⟨hstart, hway⟩ := h.matched segment hmem value heq
      rw [hstart]
      exact ⟨self_mem_places anchor (h.le.trans hs), hway⟩
    · cases List.mem_singleton.mp hmem
      cases heq
  · simpa using h.once
  · have hplace := mem_places (h.le.trans hs) hi
    have heq : i = s := by
      rcases hlast with rfl | rfl
      · exact List.mem_singleton.mp hi
      · omega
    exact (h.covered i hplace.1 (.inl heq)).imp_right Covered.append_left

/-- A round, and what is substituted behind it. -/
theorem Round.append (h : Round src items add_value s front s1) (hlt : s < s1) (hs : s1 ≤ src.length) (hn : n < max_s)
    {r : Except MatchError (List UInt8 × ℕ)}
    (hr : Substitutes src items add_value false max_s s1 (n + replacements front) r) :
    Substitutes src items add_value false max_s s n (r.map fun x => (front.flatMap (output src) ++ x.1, x.2)) := by
  have hcount := h.count
  cases r with
  | error err =>
    obtain ⟨i, hi, hway⟩ := hr
    exact ⟨i, mem_places_of_le hi h.le, hway⟩
  | ok x =>
    obtain ⟨segments, hrest, hout, hn', hmax⟩ := hr
    refine ⟨front ++ segments, ⟨h.tiles _ hrest.tiles, ?_, ?_, fun i hi hmore => ?_⟩, by rw [List.flatMap_append, hout],
      by rw [replacements_append, hn', Nat.add_assoc], .inr (by omega)⟩
    · intro segment hmem value heq
      rcases List.mem_append.mp hmem with hmem | hmem
      · obtain ⟨hstart, hway⟩ := h.matched segment hmem value heq
        rw [hstart]
        exact ⟨self_mem_places false (h.le.trans hs), hway⟩
      · obtain ⟨hplace, hway⟩ := hrest.matched segment hmem value heq
        exact ⟨mem_places_of_le hplace h.le, hway⟩
    · rw [List.filter_append]
      refine List.pairwise_append.mpr ⟨h.once, hrest.once, fun a ha b hb => ?_⟩
      have hstart := h.start_eq ha
      have hplace := hrest.start_mem hb
      have hbehind := mem_places hs hplace
      omega
    · have hplace := mem_places (h.le.trans hs) hi
      rcases Nat.lt_or_ge i s1 with hbefore | hbehind
      · exact (h.covered i hplace.1 (.inr hbefore)).imp_right Covered.append_left
      · have hi : i ∈ places src s1 false := by
          simp only [places, Bool.false_eq_true, if_false, List.mem_range'_1]
          omega
        have hmore : x.2 < max_s ∨ ∃ segment ∈ segments, segment.value.isSome = true ∧ i < segment.start := by
          refine hmore.imp_right ?_
          rintro ⟨segment, hmem, hvalue, hlater⟩
          rcases List.mem_append.mp hmem with hmem | hmem
          · have hstart := h.start_eq (List.mem_filter.mpr ⟨hmem, hvalue⟩)
            omega
          · exact ⟨segment, hmem, hvalue, hlater⟩
        exact (hrest.covered i hi hmore).imp_right Covered.append_right

/-! The loop -/

theorem advance_cases (src : List UInt8) (s : ℕ) (e : Option ℕ) :
    (∃ e1, e = some e1 ∧ s < e1 ∧ advance src s e = some ([], e1)) ∨
      (e.getD s ≤ s ∧ s < src.length ∧ advance src s e = some ([byte src s], s + 1)) ∨
      (e.getD s ≤ s ∧ src.length ≤ s ∧ advance src s e = none) := by
  cases e with
  | none =>
    rcases Nat.lt_or_ge s src.length with hlt | hge
    · exact .inr (.inl ⟨le_rfl, hlt, by simp [advance, hlt]⟩)
    · exact .inr (.inr ⟨le_rfl, hge, by simp [advance, hge]⟩)
  | some e =>
    rcases Nat.lt_or_ge s e with hnew | hsame
    · exact .inl ⟨e, rfl, hnew, by simp [advance, hnew]⟩
    · rcases Nat.lt_or_ge s src.length with hlt | hge
      · exact .inr (.inl ⟨hsame, hlt, by simp [advance, hlt, hsame]⟩)
      · exact .inr (.inr ⟨hsame, hge, by simp [advance, hsame.not_gt, hge.not_gt]⟩)

/-- The second half of a round. -/
theorem Round.advanced {p fuel : ℕ} {e : Option ℕ} (h : Round src items add_value s front (e.getD s))
    (hs : e.getD s ≤ src.length) (hn : n < max_s)
    (hloop : ∀ s1 n, s < s1 → s1 ≤ src.length →
      Substitutes src items add_value anchor max_s s1 n (gsubLoop src pat add_value p anchor max_s fuel s1 n)) :
    Substitutes src items add_value anchor max_s s n
      (match advance src s e with
      | none => return (front.flatMap (output src) ++ src.drop s, n + replacements front)
      | some (copy, s) =>
        if anchor then return (front.flatMap (output src) ++ copy ++ src.drop s, n + replacements front)
        else do
          let (rest, n) ← gsubLoop src pat add_value p anchor max_s fuel s (n + replacements front)
          return (front.flatMap (output src) ++ copy ++ rest, n)) := by
  have hend {front : List Segment} {s1 : ℕ} (h : Round src items add_value s front s1) (hs : s1 ≤ src.length)
      (hlt : s < s1) :
      Substitutes src items add_value anchor max_s s n
        (if anchor then return (front.flatMap (output src) ++ src.drop s1, n + replacements front)
        else (gsubLoop src pat add_value p anchor max_s fuel s1 (n + replacements front)).map
          fun x => (front.flatMap (output src) ++ x.1, x.2)) := by
    cases anchor with
    | true => exact h.last hs hn (.inl rfl)
    | false => exact h.append hlt hs hn (hloop s1 _ hlt hs)
  rcases advance_cases src s e with ⟨e1, rfl, hlt, heq⟩ | ⟨hle, hlt, heq⟩ | ⟨hle, hge, heq⟩
  · rw [heq]
    have hnext := hend h hs hlt
    rw [← List.append_nil (front.flatMap (output src))] at hnext
    exact hnext
  · obtain hsame : e.getD s = s := le_antisymm hle h.le
    rw [hsame] at h
    have hnext := hend h.keep hlt (Nat.lt_succ_self s)
    have hout : (front ++ [Segment.mk s (s + 1) none]).flatMap (output src) =
        front.flatMap (output src) ++ [byte src s] := by
      rw [List.flatMap_append, List.flatMap_singleton, output_byte hlt]
    rw [hout, replacements_append] at hnext
    rw [heq]
    exact hnext
  · obtain hsame : e.getD s = s := le_antisymm hle h.le
    rw [hsame] at h hs
    rw [heq]
    exact h.last hs hn (.inr (le_antisymm hs hge))

theorem matchAt_firstWay (hsrc : src.length < 2 ^ 63) {p : ℕ} (h : Valid pat p items) (hs : s ≤ src.length) :
    matchAt src pat s p =
      .ok ((firstWay src items s).map Prod.fst, ((firstWay src items s).map Prod.snd).getD ⟨[]⟩) :=
  matchAt_eq hsrc h hs

theorem gsubLoop_substitutes (hsrc : src.length < 2 ^ 63) {p : ℕ} (h : Valid pat p items) {fuel : ℕ}
    (hs : s ≤ src.length) (hfuel : src.length - s < fuel) :
    Substitutes src items add_value anchor max_s s n (gsubLoop src pat add_value p anchor max_s fuel s n) := by
  induction fuel generalizing s n with
  | zero => omega
  | succ fuel ih =>
    unfold gsubLoop
    split
    case isTrue hmax => exact substitutes_rest hs hmax
    case isFalse hmax =>
      have hloop (s1 n : ℕ) (hlt : s < s1) (hs1 : s1 ≤ src.length) :
          Substitutes src items add_value anchor max_s s1 n (gsubLoop src pat add_value p anchor max_s fuel s1 n) :=
        ih hs1 (by omega)
      rw [matchAt_firstWay hsrc h hs]
      cases hway : firstWay src items s with
      | none =>
        exact Round.advanced (e := none) (round_none hway) hs (not_le.mp hmax) hloop
      | some way =>
        obtain ⟨e, ms⟩ := way
        have hle : s ≤ e ∧ e ≤ src.length := by
          obtain ⟨os, hos, -⟩ := h.captures
          obtain ⟨hin, hle, -⟩ := mem_waysAll ⟨hs, by simp⟩ hos (List.mem_of_head? hway)
          exact ⟨hle, hin.le⟩
        cases hvalue : add_value ms s e with
        | error err =>
          simp only [Option.map_some, Option.getD_some]
          change Substitutes src items add_value anchor max_s s n (do let value ← add_value ms s e; _)
          rw [hvalue]
          exact ⟨s, self_mem_places anchor hs, e, ms, hway, hvalue⟩
        | ok value =>
          have hround : Round src items add_value s [⟨s, e, some value⟩] e := round_some hway hle.1 hvalue
          have hnext := Round.advanced (e := some e) hround hle.2 (not_le.mp hmax) hloop
          have hout : [Segment.mk s e (some value)].flatMap (output src) = value := List.append_nil value
          rw [hout] at hnext
          simp only [Option.map_some, Option.getD_some]
          change Substitutes src items add_value anchor max_s s n (do let value ← add_value ms s e; _)
          rw [hvalue]
          exact hnext

/-- For a pattern without errors, `gsub` replaces the first way at each place, one behind the other, and fails only
where a replacement does. -/
theorem str_gsub_substitutes (hsrc : src.length < 2 ^ 63)
    (h : Valid pat (if byte pat 0 = char '^' then 1 else 0) items) :
    Substitutes src items add_value (byte pat 0 = char '^') max_s 0 0 (str_gsub src pat add_value max_s) := by
  unfold str_gsub
  simp only [decide_eq_true_eq]
  exact gsubLoop_substitutes hsrc h (Nat.zero_le _) (by omega)

/-- A value at every place, the end included: `()` takes nothing anywhere. -/
theorem str_gsub_substitutes_example :
    Substitutes [97, 98] [position] (fun _ _ _ => .ok [45]) (byte [40, 41] 0 = char '^') 3 0 0
        (str_gsub [97, 98] [40, 41] (fun _ _ _ => .ok [45]) 3) ∧
      str_gsub [97, 98] [40, 41] (fun _ _ _ => .ok [45]) 3 = .ok ([45, 97, 45, 98, 45], 3) :=
  ⟨str_gsub_substitutes (by decide) ⟨rfl, [false], rfl, by decide⟩, rfl⟩

/-- If the value of a match is the match itself, nothing changes. -/
theorem Substitutes.same {r : Except MatchError (List UInt8 × ℕ)}
    (h : Substitutes src items add_value anchor max_s 0 0 r)
    (hsame : ∀ ms s e, add_value ms s e = .ok (substring src s e)) : ∃ n, r = .ok (src, n) := by
  cases r with
  | error err =>
    obtain ⟨i, -, e, ms, -, herr⟩ := h
    rw [hsame] at herr
    cases herr
  | ok x =>
    obtain ⟨segments, hrep, hout, -⟩ := h
    have hkept : ∀ segment ∈ segments, segment.output src = segment.original src := by
      intro segment hmem
      cases hvalue : segment.value with
      | none => simp [output, hvalue]
      | some value =>
        obtain ⟨-, ms, -, hok⟩ := hrep.matched segment hmem value hvalue
        rw [hsame] at hok
        simpa [output, hvalue, original] using (Except.ok.inj hok).symm
    have hsrc : x.1 = src := by
      rw [← hout, List.flatMap_congr hkept, hrep.tiles.original, List.drop_zero]
    exact ⟨x.2, by rw [← hsrc]⟩

/-- Whatever is matched, `%0` puts it back. -/
theorem str_gsub_whole (hsrc : src.length < 2 ^ 63)
    (h : Valid pat (if byte pat 0 = char '^' then 1 else 0) items) :
    ∃ n, str_gsub src pat (fun ms s e => add_s src ms s e [L_ESC, char '0']) max_s = .ok (src, n) := by
  have hwhole (ms : MatchState) (s e : ℕ) : add_s src ms s e [L_ESC, char '0'] = .ok (substring src s e) :=
    congrArg Except.ok (List.append_nil _)
  unfold str_gsub
  simp only [decide_eq_true_eq]
  exact (gsubLoop_substitutes hsrc h (Nat.zero_le _) (by omega)).same hwhole

end H1Z1Server.LuaPattern
