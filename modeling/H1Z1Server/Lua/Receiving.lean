import H1Z1Server.Lua.Guarding

/-! Packets whiten userdata that the registry refers to, and what this does depends on where the
collection is. -/
namespace H1Z1Server.Lua
namespace GlobalState
open Colouring

variable {g g' : GlobalState} {r : ℕ}

section Marking
variable {v : Value} {a : ℕ}

theorem luaC_mark_frame (g : GlobalState) (v : Value) :
    { g.luaC_mark v with objects := g.objects } = g := by
  cases v <;> rfl

theorem body_luaC_mark (g : GlobalState) (v : Value) : (g.luaC_mark v).body = g.body := by
  cases v with
  | obj a => exact body_setMarked g a _
  | _ => rfl

theorem iswhite_luaC_mark_of_white (h : g.iswhite a = true) : (g.luaC_mark v).iswhite a = true := by
  cases v with
  | obj x =>
    have hsome : g.test (fun _ => true) a = true := by
      unfold iswhite test at h
      unfold test
      cases hg : g.get a with
      | none => simp [hg] at h
      | some y => rfl
    unfold luaC_mark iswhite
    rw [test_setMarked]
    split_ifs
    · simpa using hsome
    · exact h
  | _ => exact h

theorem iswhite_luaC_mark_of_notMem (h : a ∉ v.refs) :
    (g.luaC_mark v).iswhite a = g.iswhite a := by
  cases v with
  | obj x =>
    have hne : x ≠ a := by
      rintro rfl
      simp [Value.refs] at h
    unfold luaC_mark iswhite
    rw [test_setMarked, if_neg hne]
  | _ => rfl

theorem isdead_luaC_mark (h : g.isdead a = false) : (g.luaC_mark v).isdead a = false := by
  cases v with
  | obj x =>
    change (g.luaC_mark (.obj x)).test (Marked.isdead g.currentwhite) a = false
    unfold luaC_mark
    rw [test_setMarked]
    split_ifs
    · simp only [Marked.isdead_luaC_white]
      unfold test
      cases g.get a <;> rfl
    · exact h
  | _ => exact h

theorem greyProtected_luaC_mark (h : g.pending.GreyProtected a) :
    (g.luaC_mark v).pending.GreyProtected a := by
  have hbody := body_luaC_mark g v
  have hgray : (g.luaC_mark v).gray = g.gray := congrArg (·.gray) (g.luaC_mark_frame v)
  have hagain : (g.luaC_mark v).grayagain = g.grayagain :=
    congrArg (·.grayagain) (g.luaC_mark_frame v)
  have hweak : (g.luaC_mark v).weak = g.weak := congrArg (·.weak) (g.luaC_mark_frame v)
  apply h.mono
  · unfold pending
    rw [hbody]
  · exact fun b hb => iswhite_luaC_mark_of_white hb
  · intro k hk
    simp only [pending, colouring, hbody, hgray, hagain, hweak] at hk ⊢
    exact hk

/-- A mark leaves the registry alone, which is no userdata. -/
theorem IsUserdata.notMem (h : g.IsUserdata v) (ht : g.isTable r) : r ∉ v.refs := by
  intro hr
  obtain ⟨array, node, hb⟩ := ht
  cases v with
  | obj x =>
    obtain rfl : r = x := by simpa [Value.refs] using hr
    obtain ⟨metatable, env, hb'⟩ := h
    rw [hb'] at hb
    cases hb
  | _ => cases hr

theorem luaC_mark_guarded (h : Guarded r g) (hv : g.IsUserdata v)
    (hcalm : g.gcstate = .propagate → ∀ a ∈ v.refs, g.pending.GreyProtected a) :
    Guarded r (g.luaC_mark v) := by
  have hbody := body_luaC_mark g v
  have hreg : (g.luaC_mark v).registry = g.registry := congrArg (·.registry) (g.luaC_mark_frame v)
  have hroot : (g.luaC_mark v).rootgc = g.rootgc := congrArg (·.rootgc) (g.luaC_mark_frame v)
  have hstate : (g.luaC_mark v).gcstate = g.gcstate := congrArg (·.gcstate) (g.luaC_mark_frame v)
  have hplace : (g.luaC_mark v).sweepgc = g.sweepgc := congrArg (·.sweepgc) (g.luaC_mark_frame v)
  have hrefs : (g.luaC_mark v).registryRefs = g.registryRefs := by
    unfold registryRefs valueRefs
    rw [hreg, hbody]
  have ht : (g.luaC_mark v).isTable r := by
    unfold isTable
    rw [hbody]
    exact h.table
  have hswept : Swept r g.sweepgc g ∧ (∀ a ∈ g.registryRefs, g.isdead a = false) →
      Swept r g.sweepgc (g.luaC_mark v) ∧
        ∀ a ∈ g.registryRefs, (g.luaC_mark v).isdead a = false := by
    rintro ⟨hold, halive⟩
    refine ⟨⟨ht, isdead_luaC_mark hold.alive, ?_, ?_⟩, fun a ha => isdead_luaC_mark (halive a ha)⟩
    · rw [hroot]
      exact hold.rooted
    · rw [hroot]
      exact fun hr => iswhite_luaC_mark_of_white (hold.passed hr)
  refine ⟨hreg.trans h.registry, ht, by rw [hroot]; exact h.rooted, ?_⟩
  have hphase := h.phase
  rw [hstate, hrefs, hplace]
  cases hg : g.gcstate with
  | pause | finalize =>
    rw [hg] at hphase
    exact iswhite_luaC_mark_of_white hphase
  | propagate =>
    rw [hg] at hphase
    obtain ⟨hnonwhite, haccounted⟩ := hphase
    refine ⟨by rw [iswhite_luaC_mark_of_notMem (hv.notMem h.table), hnonwhite], ?_⟩
    intro a ha
    by_cases hmem : a ∈ v.refs
    · exact .inr (greyProtected_luaC_mark (hcalm hg a hmem))
    · rcases haccounted a ha with hn | hp
      · left
        simp only [pending] at hn ⊢
        rw [iswhite_luaC_mark_of_notMem hmem]
        exact hn
      · exact .inr (greyProtected_luaC_mark hp)
  | sweepstring | sweep =>
    rw [hg] at hphase
    exact hswept hphase

end Marking

theorem rawgeti_congr (h : g'.body = g.body) (t : Value) (n : ℤ) :
    g'.rawgeti t n = g.rawgeti t n := by
  unfold rawgeti
  rw [h]

theorem packet_guarded {socketRef eventRef : ℤ} (h : Guarded r g)
    (hlawful : Lawful g (.packet socketRef eventRef)) (hcalm : Calm g (.packet socketRef eventRef)) :
    Guarded r (g.step (.packet socketRef eventRef)) ∧ Harmless g (.packet socketRef eventRef) := by
  obtain ⟨hsocket, hevent⟩ := hlawful
  change g.gcstate = .propagate → ∀ a ∈ (g.rawgeti g.registry socketRef).refs ++
    (g.rawgeti g.registry eventRef).refs, g.pending.GreyProtected a at hcalm
  have hstep : g.step (.packet socketRef eventRef) =
      (g.luaC_mark (g.rawgeti g.registry socketRef)).luaC_mark (g.rawgeti g.registry eventRef) := by
    have hreg : (g.luaC_mark (g.rawgeti g.registry socketRef)).registry = g.registry :=
      congrArg (·.registry) (g.luaC_mark_frame _)
    simp only [step, eventHandlerMarks]
    rw [hreg, rawgeti_congr (body_luaC_mark g _)]
  rw [Harmless, hstep]
  generalize g.rawgeti g.registry socketRef = socket at hsocket hcalm ⊢
  generalize g.rawgeti g.registry eventRef = event at hevent hcalm ⊢
  have hbody := body_luaC_mark g socket
  have hstate : (g.luaC_mark socket).gcstate = g.gcstate :=
    congrArg (·.gcstate) (g.luaC_mark_frame socket)
  have hfirst := luaC_mark_guarded h hsocket fun hg a ha => hcalm hg a (List.mem_append_left _ ha)
  have hevent' : (g.luaC_mark socket).IsUserdata event := by
    unfold IsUserdata at hevent ⊢
    rw [hbody]
    exact hevent
  have hsecond := luaC_mark_guarded hfirst hevent' fun hg a ha =>
    greyProtected_luaC_mark (hcalm (hstate ▸ hg) a (List.mem_append_right _ ha))
  refine ⟨hsecond, ?_⟩
  intro a _
  have htmu : ∀ (s : GlobalState) (v : Value), (s.luaC_mark v).tmudata = s.tmudata :=
    fun s v => congrArg (·.tmudata) (s.luaC_mark_frame v)
  rw [htmu, htmu, body_luaC_mark, hbody]
  exact ⟨id, id⟩

theorem step_guarded {act : Action} (h : Guarded r g) (hlawful : Lawful g act) (hcalm : Calm g act) :
    Guarded r (g.step act) ∧ Harmless g act := by
  cases act with
  | collect L released => exact collect_guarded h
  | packet socketRef eventRef => exact packet_guarded h hlawful hcalm

theorem run_harmless (acts : List Action) : ∀ {g : GlobalState}, Guarded r g → Along Lawful g acts →
    Along Calm g acts → Along Harmless g acts := by
  induction acts with
  | nil => exact fun _ _ _ => trivial
  | cons act acts ih =>
    intro g h hlawful hcalm
    obtain ⟨hguarded, hharmless⟩ := step_guarded h hlawful.1 hcalm.1
    exact ⟨hharmless, ih hguarded hlawful.2 hcalm.2⟩

/-- Nothing that the registry refers to is finalized or freed, in any run from a state with the
invariant, as long as packets that arrive while marks are propagated whiten only what is still
going to be found. -/
theorem calm_runs_harmless {g : GlobalState} (h : TriColour g) (acts : List Action)
    (hlawful : Along Lawful g acts) (hcalm : Along Calm g acts) : Along Harmless g acts := by
  obtain ⟨r, hguarded⟩ := h.guarded
  exact run_harmless acts hguarded hlawful hcalm

/-- A collection under way. The registry, 2, refers to a `NetSocket`, 3, or to its address, and to an
`EventUserdata`, 7. Their metatable, 4, has a finalizer. The main thread, 0, has been traversed. -/
def midCycle (socket : Value) (registry userdata : Marked) (gray : List ℕ) : GlobalState where
  objects := [some ⟨.gray, .thread (.obj 1) [] 0 [] []⟩, some ⟨.gray2black .gray, .table none [] []⟩,
    some ⟨registry, .table none [socket, .obj 7] []⟩, some ⟨userdata, .userdata (some 4) 1⟩,
    some ⟨.gray2black .gray, .table none [] [(.obj 5, .obj 6)]⟩, some ⟨.gray, .string "__gc"⟩,
    some ⟨.gray2black .gray, .cclosure 1 []⟩, some ⟨userdata, .userdata (some 4) 1⟩]
  currentwhite := false
  gcstate := .propagate
  sweepstrgc := 0
  sweepgc := 0
  rootgc := [6, 4, 2, 1, 0, 7, 3]
  strt := [[5]]
  tmudata := []
  gray := gray
  grayagain := [0]
  weak := []
  mainthread := 0
  registry := .obj 2
  mt := []
  uvhead := []

/-- The registry has not been traversed yet, so that the packet does no harm; nor does the next one,
which arrives when the collector sweeps. -/
theorem calm_runs_harmless_example :
    Along Harmless (midCycle (.obj 3) .gray (.luaC_white false) [2])
      [.packet 1 2, .collect 0 [], .collect 0 [], .packet 1 2, .collect 0 [], .collect 0 []] := by
  apply calm_runs_harmless
  · exact {
      registry := ⟨2, rfl, ⟨_, _, rfl⟩, by decide⟩
      colours := by
        change _ ∧ _
        decide }
  · exact ⟨⟨⟨some 4, 1, rfl⟩, ⟨some 4, 1, rfl⟩⟩, trivial, trivial,
      ⟨⟨some 4, 1, rfl⟩, ⟨some 4, 1, rfl⟩⟩, trivial, trivial, trivial⟩
  · refine ⟨?_, trivial, trivial, ?_, trivial, trivial, trivial⟩
    · intro _ a ha
      apply GreyProtected.held (k := 2)
      · exact .inl ⟨by decide, by decide⟩
      · exact ha
    · intro hstate
      exact absurd hstate (by decide)

/-- The registry and all that it refers to has been traversed. -/
def traversed (socket : Value) : GlobalState :=
  midCycle socket (.gray2black .gray) (.gray2black .gray) []

theorem triColour_traversed : ∀ socket ∈ [Value.obj 3, Value.lightuserdata 3],
    TriColour (traversed socket) := by
  have hcolours : ∀ socket ∈ [Value.obj 3, Value.lightuserdata 3],
      (∀ r ∈ (traversed socket).registry.refs, (traversed socket).iswhite r = false) ∧
        ∀ o < (traversed socket).objects.length,
          ((traversed socket).isblack o = true →
            ∀ a ∈ Heap.strong (traversed socket).body o, (traversed socket).iswhite a = false) ∧
          ((traversed socket).isgray o = true ∧ Heap.listed (traversed socket).body o = true →
            o ∈ (traversed socket).gray ∨ o ∈ (traversed socket).grayagain ∨
              o ∈ (traversed socket).weak) := by
    decide
  intro socket hsocket
  exact {
    registry := ⟨2, rfl, ⟨_, _, rfl⟩, by simp [traversed, midCycle]⟩
    colours := hcolours socket hsocket }

/-- The packet whitens the userdata, nothing leads to them any more, and the atomic phase hands them
to their finalizers. -/
theorem traversed_harmed : ∀ socket ∈ [Value.obj 3, Value.lightuserdata 3],
    TriColour (traversed socket) ∧ Along Lawful (traversed socket) [.packet 1 2, .collect 0 []] ∧
      ¬ Along Harmless (traversed socket) [.packet 1 2, .collect 0 []] := by
  have hmoved : ∀ socket ∈ [Value.obj 3, Value.lightuserdata 3],
      7 ∈ ((traversed socket).step (.packet 1 2)).registryRefs ∧
      7 ∉ ((traversed socket).step (.packet 1 2)).tmudata ∧
      7 ∈ (((traversed socket).step (.packet 1 2)).step (.collect 0 [])).tmudata := by
    decide
  intro socket hsocket
  refine ⟨triColour_traversed socket hsocket, ?_, ?_⟩
  · refine ⟨⟨?_, ⟨some 4, 1, rfl⟩⟩, trivial, trivial⟩
    simp only [List.mem_cons, List.not_mem_nil, or_false] at hsocket
    rcases hsocket with rfl | rfl
    · exact ⟨some 4, 1, rfl⟩
    · trivial
  · rintro ⟨-, hcollect, -⟩
    obtain ⟨hheld, hbefore, hafter⟩ := hmoved socket hsocket
    exact hbefore ((hcollect 7 hheld).1 hafter)

theorem packet_finalizes_live_userdata :
    TriColour (traversed (.obj 3)) ∧
      Along Lawful (traversed (.obj 3)) [.packet 1 2, .collect 0 []] ∧
      ¬ Along Harmless (traversed (.obj 3)) [.packet 1 2, .collect 0 []] :=
  traversed_harmed (.obj 3) (by simp)

end GlobalState
end H1Z1Server.Lua
