import H1Z1Server.Lua.Chunks

/-! What a stream gives depends on its bytes only, not on the pieces in which its reader has them. -/
namespace H1Z1Server.LuaChunk
open Codec

namespace Zio

/-- The bytes in front of the end of the stream. -/
def left (z : Zio) : List UInt8 := z.p ++ (z.reader.takeWhile (· ≠ [])).flatten

theorem luaZ_lookahead_eq_none {z : Zio} (h : z.luaZ_lookahead = none) : z.left = [] := by
  obtain ⟨p, reader⟩ := z
  cases p with
  | cons b p => simp [luaZ_lookahead] at h
  | nil =>
    cases reader with
    | nil => simp [left]
    | cons piece reader =>
      cases piece with
      | nil => simp [left]
      | cons b piece => simp [luaZ_lookahead] at h

theorem luaZ_lookahead_eq_some {z z' : Zio} (h : z.luaZ_lookahead = some z') :
    z'.left = z.left ∧ 0 < z'.p.length := by
  obtain ⟨p, reader⟩ := z
  cases p with
  | cons b p =>
    simp only [luaZ_lookahead, Option.some.injEq] at h
    simp [← h]
  | nil =>
    cases reader with
    | nil => simp [luaZ_lookahead] at h
    | cons piece reader =>
      cases piece with
      | nil => simp [luaZ_lookahead] at h
      | cons b piece =>
        simp only [luaZ_lookahead, Option.some.injEq] at h
        simp [← h, left]

theorem readLoop_spec {fuel n : ℕ} (hfuel : n ≤ fuel) (z : Zio) :
    ∃ z', readLoop fuel n z = (z.left.take n, n - z.left.length, z') ∧ z'.left = z.left.drop n := by
  induction fuel generalizing n z with
  | zero =>
    have hn : n = 0 := by omega
    exact ⟨z, by simp [readLoop, hn], by simp [hn]⟩
  | succ fuel ih =>
    unfold readLoop
    split
    case isTrue hn => exact ⟨z, by simp [hn], by simp [hn]⟩
    case isFalse hn =>
      cases hz : z.luaZ_lookahead with
      | none =>
        have hleft := luaZ_lookahead_eq_none hz
        exact ⟨z, by simp [hleft], by simp [hleft]⟩
      | some z₁ =>
        obtain ⟨hleft, hpos⟩ := luaZ_lookahead_eq_some hz
        have hm : min n z₁.p.length ≤ n := min_le_left ..
        obtain ⟨z', hrun, hz'⟩ := ih (n := n - min n z₁.p.length) (by omega)
          { z₁ with p := z₁.p.drop (min n z₁.p.length) }
        -- the piece is divided at `m`, and so is the stream
        have hrest : ({ z₁ with p := z₁.p.drop (min n z₁.p.length) } : Zio).left = z.left.drop (min n z₁.p.length) := by
          rw [← hleft, left, left, List.drop_append_of_le_length (min_le_right ..)]
        have hfront : z₁.p.take (min n z₁.p.length) = z.left.take (min n z₁.p.length) := by
          rw [← hleft, left, List.take_append_of_le_length (min_le_right ..)]
        have hlen : z₁.p.length ≤ z.left.length := by
          rw [← hleft, left, List.length_append]
          omega
        have hmissing : n - min n z₁.p.length - (z.left.length - min n z₁.p.length) = n - z.left.length := by omega
        refine ⟨z', ?_, ?_⟩
        · dsimp only
          rw [hrun, hrest, hfront, ← List.take_add, List.length_drop, Nat.add_sub_cancel' hm, hmissing]
        · rw [hz', hrest, List.drop_drop, Nat.add_sub_cancel' hm]

theorem luaZ_read_spec (n : ℕ) (z : Zio) :
    ∃ z', z.luaZ_read n = (z.left.take n, n - z.left.length, z') ∧ z'.left = z.left.drop n :=
  readLoop_spec le_rfl z

end Zio

namespace LoadState
variable (S : LoadState) {size : ℕ}

theorem LoadBlock_of_le {z : Zio} (h : size ≤ z.left.length) :
    ∃ z', S.LoadBlock size z = .ok (z.left.take size, z') ∧ z'.left = z.left.drop size := by
  obtain ⟨z', hrun, hz'⟩ := z.luaZ_read_spec size
  exact ⟨z', by simp [LoadBlock, hrun, Nat.sub_eq_zero_of_le h], hz'⟩

theorem LoadBlock_of_lt {z : Zio} (h : z.left.length < size) :
    S.LoadBlock size z = .error (S.error "unexpected end") := by
  obtain ⟨z', hrun, -⟩ := z.luaZ_read_spec size
  have hmissing : size - z.left.length ≠ 0 := by omega
  simp [LoadBlock, hrun, hmissing]

theorem reads_LoadBlock {bs : List UInt8} (h : bs.length = size) : Reads Zio.left (S.LoadBlock size) bs bs := by
  intro z rest hz
  obtain ⟨z', hrun, hz'⟩ := S.LoadBlock_of_le (show size ≤ z.left.length by simp [hz, h])
  refine ⟨z', ?_, ?_⟩
  · rw [StateT.run, hrun, hz, List.take_left' h]
  · rw [hz', hz, List.drop_left' h]

theorem steady_LoadBlock : Steady Zio.left (S.error "unexpected end") (S.LoadBlock size) := by
  intro z z' more hz
  by_cases h : size ≤ z.left.length
  · obtain ⟨t, hrun, ht⟩ := S.LoadBlock_of_le h
    obtain ⟨t', hrun', ht'⟩ := S.LoadBlock_of_le (show size ≤ z'.left.length by simp [hz]; omega)
    refine .inl ⟨z.left.take size, t, t', hrun, ?_, ?_⟩
    · rw [StateT.run, hrun', hz, List.take_append_of_le_length h]
    · rw [ht', ht, hz, List.drop_append_of_le_length h]
  · have hrun := S.LoadBlock_of_lt (not_le.mp h)
    by_cases hmore : more = []
    · refine .inr (.inl ⟨_, hrun, S.LoadBlock_of_lt ?_⟩)
      simp [hz, hmore, not_le.mp h]
    · exact .inr (.inr ⟨hrun, hmore⟩)

theorem gives_LoadBlock : Gives (S.LoadBlock size) fun b => b.length = size := by
  intro z b z' hrun
  by_cases h : size ≤ z.left.length
  · obtain ⟨t, ht, -⟩ := S.LoadBlock_of_le h
    cases ht.symm.trans hrun
    simp [h]
  · cases (S.LoadBlock_of_lt (not_le.mp h)).symm.trans hrun

end LoadState
end H1Z1Server.LuaChunk
