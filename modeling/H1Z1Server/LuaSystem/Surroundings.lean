import H1Z1Server.Lua.Receiving
import H1Z1Server.LuaSystem.LuaNetSocket

/-! What surrounds the handling of a datagram: the collector, which the marks of
`LuaNetSocket_EventHandler` disturb, and the memory that they store into. -/
namespace H1Z1Server
open Lua Lua.GlobalState

namespace Lua.GlobalState

/-- Whether `luaC_mark` may store through a value: it takes whatever there is for the address of an
object that has not been freed. `mayStore` tells of the byte that would be the colour of an object at a
light userdata. -/
def takesMark (mayStore : ℕ → Bool) (g : GlobalState) : Value → Bool
  | .obj o => (g.body o).isSome
  | .lightuserdata p => mayStore p
  | .nil | .boolean _ | .number _ | .deadkey => false

/-- The finalizer that is called next is that of one of these objects. -/
def finalizes (g : GlobalState) (held : List ℕ) : Bool :=
  decide (g.gcstate = .finalize) && g.tmudata.head?.any fun o => held.contains o && g.needsFinalizer o

/-- One mark, of what a reference stands for. -/
def markReferred (mayStore : ℕ → Bool) (g : GlobalState) (ref : ℕ) : Except Abort GlobalState :=
  let v := g.rawgeti g.registry ref
  if g.takesMark mayStore v then .ok (g.luaC_mark v) else .error .undefinedBehaviour

end Lua.GlobalState

/-- A step that the collector takes in the thread `L`, and what Lua has changed before it. -/
structure CollectorStep where
  changes : GlobalState → GlobalState
  L : ℕ
  released : List ℤ

/-- What a datagram finds: the collector, the steps that this takes until the callback has returned, the
userdata of the socket and of other connections, the bytes that may be written behind light userdata, and
what the register for results is left with by `Debug.HexDump`. -/
structure Surroundings where
  collector : GlobalState
  steps : List CollectorStep
  others : List ℕ
  mayStore : ℕ → Bool
  leftover : Int32

namespace Surroundings

/-- The objects that must not be finalized: those that a connection refers to, and the others. -/
def held (w : Surroundings) (ud : EventUserdata) : List ℕ :=
  (w.collector.rawgeti w.collector.registry ud.socketRef).refs ++
    (w.collector.rawgeti w.collector.registry ud.eventRef).refs ++ w.others

/-- The steps of the collector. To finalize a connection or its socket is undefined: `EventConnection_GC`
takes the userdata for a pointer to one, and `NetSocket_GC` deletes the socket that is listening. -/
def collect (held : List ℕ) (g : GlobalState) : List CollectorStep → Except Abort GlobalState
  | [] => .ok g
  | st :: steps =>
    let g := st.changes g
    if g.finalizes held then .error .undefinedBehaviour
    else collect held (g.singlestep st.L st.released) steps

/-- The two marks, and what the collector does from then on. -/
def marks (w : Surroundings) (ud : EventUserdata) : Except Abort GlobalState := do
  let g ← w.collector.markReferred w.mayStore ud.socketRef
  let g ← g.markReferred w.mayStore ud.eventRef
  collect (w.held ud) g w.steps

/-- What the registry has for a connection takes its marks. -/
def TakesMarks (w : Surroundings) (ud : EventUserdata) : Prop :=
  ∀ ref ∈ [ud.socketRef, ud.eventRef],
    w.collector.takesMark w.mayStore (w.collector.rawgeti w.collector.registry ref) = true

/-- No step calls the finalizer of one of these objects. -/
def Spared (held : List ℕ) (g : GlobalState) : List CollectorStep → Prop
  | [] => True
  | st :: steps => (st.changes g).finalizes held = false ∧
      Spared held ((st.changes g).singlestep st.L st.released) steps

/-- From the state that the marks leave, the collector spares the connection and its socket. -/
def Spares (w : Surroundings) (ud : EventUserdata) : Prop :=
  Spared (w.held ud) (w.collector.eventHandlerMarks ud.socketRef ud.eventRef) w.steps

variable {w : Surroundings} {ud : EventUserdata}

theorem collect_ok_iff (held : List ℕ) (g : GlobalState) (steps : List CollectorStep) :
    (∃ g', collect held g steps = .ok g') ↔ Spared held g steps := by
  induction steps generalizing g with
  | nil => exact iff_of_true ⟨g, rfl⟩ trivial
  | cons st steps ih =>
    unfold collect Spared
    dsimp only
    cases (st.changes g).finalizes held with
    | true => simp
    | false => simpa using ih ((st.changes g).singlestep st.L st.released)

/-- What a reference stands for does not change with the colours. -/
theorem referred_luaC_mark (g : GlobalState) (v : Value) (ref : ℤ) :
    (g.luaC_mark v).rawgeti (g.luaC_mark v).registry ref = g.rawgeti g.registry ref := by
  have hreg : (g.luaC_mark v).registry = g.registry := congrArg (·.registry) (g.luaC_mark_frame v)
  rw [hreg, rawgeti_congr (body_luaC_mark g v)]

theorem takesMark_luaC_mark (mayStore : ℕ → Bool) (g : GlobalState) (v v' : Value) :
    (g.luaC_mark v).takesMark mayStore v' = g.takesMark mayStore v' := by
  cases v' with
  | obj o => exact congrArg (fun body => (body o).isSome) (body_luaC_mark g v)
  | _ => rfl

/-- The second mark is taken or not, whatever the first one has coloured. -/
theorem takesMark_referred (mayStore : ℕ → Bool) (g : GlobalState) (v : Value) (ref : ℤ) :
    (g.luaC_mark v).takesMark mayStore ((g.luaC_mark v).rawgeti (g.luaC_mark v).registry ref) =
      g.takesMark mayStore (g.rawgeti g.registry ref) := by
  rw [referred_luaC_mark, takesMark_luaC_mark]

theorem markReferred_taken {mayStore : ℕ → Bool} {g : GlobalState} {ref : ℕ}
    (h : g.takesMark mayStore (g.rawgeti g.registry ref) = true) :
    g.markReferred mayStore ref = .ok (g.luaC_mark (g.rawgeti g.registry ref)) := by
  simp only [markReferred, h, if_true]

theorem markReferred_stray {mayStore : ℕ → Bool} {g : GlobalState} {ref : ℕ}
    (h : g.takesMark mayStore (g.rawgeti g.registry ref) = false) :
    g.markReferred mayStore ref = .error .undefinedBehaviour := by
  simp only [markReferred, h, Bool.false_eq_true, if_false]

/-- Marks that are taken leave the rest to the collector. -/
theorem marks_taken (h : w.TakesMarks ud) :
    w.marks ud = collect (w.held ud) (w.collector.eventHandlerMarks ud.socketRef ud.eventRef) w.steps := by
  have hsocket := h ud.socketRef (by simp)
  have hevent := h ud.eventRef (by simp)
  rw [← takesMark_referred _ _ (w.collector.rawgeti w.collector.registry ud.socketRef)] at hevent
  simp only [marks, bind, Except.bind, markReferred_taken hsocket, markReferred_taken hevent]
  rfl

theorem marks_stray (h : ¬w.TakesMarks ud) : w.marks ud = .error .undefinedBehaviour := by
  cases hsocket : w.collector.takesMark w.mayStore (w.collector.rawgeti w.collector.registry ud.socketRef) with
  | false => simp only [marks, bind, Except.bind, markReferred_stray hsocket]
  | true =>
    cases hevent : w.collector.takesMark w.mayStore (w.collector.rawgeti w.collector.registry ud.eventRef) with
    | false =>
      rw [← takesMark_referred _ _ (w.collector.rawgeti w.collector.registry ud.socketRef)] at hevent
      simp only [marks, bind, Except.bind, markReferred_taken hsocket, markReferred_stray hevent]
    | true => exact absurd (by simp [TakesMarks, hsocket, hevent]) h

/-- The marks and the collector leave the dispatch alone exactly if the marks are taken and the connection
is spared. -/
theorem marks_ok_iff : (∃ g, w.marks ud = .ok g) ↔ w.TakesMarks ud ∧ w.Spares ud := by
  by_cases htakes : w.TakesMarks ud
  · rw [marks_taken htakes, collect_ok_iff]
    exact ⟨fun h => ⟨htakes, h⟩, fun h => h.2⟩
  · rw [marks_stray htakes]
    simp [htakes]

section Calm

/-- A step before which Lua has changed nothing. -/
def CollectorStep.action (st : CollectorStep) : Action := .collect st.L st.released

/-- The registry refers to these objects. -/
def Registered (held : List ℕ) (g : GlobalState) (_ : Action) : Prop := ∀ a ∈ held, a ∈ g.registryRefs

theorem along_collect {P : GlobalState → Action → Prop} (hP : ∀ g L released, P g (.collect L released))
    (steps : List CollectorStep) (g : GlobalState) : Along P g (steps.map CollectorStep.action) := by
  induction steps generalizing g with
  | nil => trivial
  | cons st steps ih => exact ⟨hP g st.L st.released, ih _⟩

theorem spared_of_harmless {held : List ℕ} {steps : List CollectorStep}
    (hidle : ∀ st ∈ steps, st.changes = id) {g : GlobalState} (hfirst : ∀ a ∈ held, a ∉ g.tmudata)
    (hregistered : Along (Registered held) g (steps.map CollectorStep.action))
    (hharmless : Along Harmless g (steps.map CollectorStep.action)) : Spared held g steps := by
  induction steps generalizing g with
  | nil => trivial
  | cons st steps ih =>
    obtain ⟨hst, hsteps⟩ := List.forall_mem_cons.mp hidle
    obtain ⟨hrefs, hrefs'⟩ := hregistered
    obtain ⟨hharm, hharm'⟩ := hharmless
    rw [Spared, hst]
    constructor
    · cases htmu : g.tmudata with
      | nil => simp [finalizes, htmu]
      | cons o rest =>
        have ho : o ∉ held := fun hmem => hfirst o hmem (by simp [htmu])
        simp [finalizes, htmu, ho]
    · refine ih hsteps (fun a ha hin => ?_) hrefs' hharm'
      exact hfirst a ha ((hharm a (hrefs a ha)).1 hin)

/-- A datagram that whitens only what the collector is still going to find leaves the connection and its
socket alone, as long as the registry refers to them. -/
theorem spares_of_calm (hcolours : TriColour w.collector)
    (hlawful : Lawful w.collector (.packet ud.socketRef ud.eventRef))
    (hcalm : Calm w.collector (.packet ud.socketRef ud.eventRef))
    (hidle : ∀ st ∈ w.steps, st.changes = id)
    (hfirst : ∀ a ∈ w.held ud, a ∉ w.collector.tmudata)
    (hregistered : Along (Registered (w.held ud)) w.collector
      (.packet ud.socketRef ud.eventRef :: w.steps.map CollectorStep.action)) : w.Spares ud := by
  obtain ⟨r, hguarded⟩ := hcolours.guarded
  have hharmless := run_harmless (.packet ud.socketRef ud.eventRef :: w.steps.map CollectorStep.action)
    hguarded ⟨hlawful, along_collect (fun _ _ _ => trivial) w.steps _⟩
    ⟨hcalm, along_collect (fun _ _ _ => trivial) w.steps _⟩
  apply spared_of_harmless hidle _ hregistered.2 hharmless.2
  intro a ha hin
  exact hfirst a ha ((hharmless.1 a (hregistered.1 a ha)).1 hin)

end Calm

end Surroundings
end H1Z1Server
