import H1Z1Server.Sockets.Handlers

/-! The loop of `Listener` over the vector of handlers, which the handlers that it calls may change. -/
namespace H1Z1Server

/-- What a handler may do to the handlers of its socket. -/
inductive HandlerChange (H U : Type) where
  | add (handler : H) (userdata : U)
  | remove (handler : H)

inductive DispatchEvent (H U : Type) where
  | call (handler : H) (userdata : Option U)
  | change (c : HandlerChange H U)

/-- The loop at an index, with what has happened so far, the latest first. -/
structure Dispatch (H U : Type) where
  net : NetSocket H U
  i : ℕ
  log : List (DispatchEvent H U)

variable {H U : Type}

/-- A handler stands in a list once, not before the index `j` and not behind the index `k`. -/
def StandsOnce (h : H) (j k : ℕ) (l : List H) : Prop :=
  ∃ front back, l = front ++ h :: back ∧ h ∉ front ∧ h ∉ back ∧ j ≤ front.length ∧ front.length ≤ k

theorem StandsOnce.append {h x : H} {j k : ℕ} {l : List H} (hstands : StandsOnce h j k l) (hx : x ≠ h) :
    StandsOnce h j k (l ++ [x]) := by
  obtain ⟨front, back, rfl, hfront, hback, hj, hk⟩ := hstands
  refine ⟨front, back ++ [x], ?_, hfront, ?_, hj, hk⟩
  · rw [List.append_assoc, List.cons_append]
  · rw [List.mem_append, List.mem_singleton, not_or]
    exact ⟨hback, hx.symm⟩

/-- A handler that is not the one at the index is still to come behind it. -/
theorem StandsOnce.next {h x : H} {j k : ℕ} {l : List H} (hstands : StandsOnce h j k l)
    (hx : l[j]? = some x) (hne : x ≠ h) : StandsOnce h (j + 1) k l := by
  obtain ⟨front, back, rfl, hfront, hback, hj, hk⟩ := hstands
  refine ⟨front, back, rfl, hfront, hback, ?_, hk⟩
  apply lt_of_le_of_ne hj
  rintro rfl
  rw [List.getElem?_append_right le_rfl, Nat.sub_self, List.getElem?_cons_zero] at hx
  exact hne (Option.some.inj hx).symm

theorem StandsOnce.notMem_drop {h : H} {j k : ℕ} {l : List H} (hstands : StandsOnce h j k l)
    (hh : l[j]? = some h) : h ∉ l.drop (j + 1) := by
  obtain ⟨front, back, rfl, hfront, hback, hj, hk⟩ := hstands
  have hlength : j = front.length := by
    apply le_antisymm hj
    by_contra hlt
    rw [List.getElem?_append_left (Nat.lt_of_not_le hlt)] at hh
    exact hfront (List.mem_of_getElem? hh)
  subst hlength
  rw [← List.drop_drop, List.drop_left, List.drop_one, List.tail_cons]
  exact hback

/-- The changes that the handler called last makes, when this has happened. -/
abbrev Behaviour (H U : Type) := List (DispatchEvent H U) → List (HandlerChange H U)

namespace Dispatch
variable [DecidableEq H]

def start (net : NetSocket H U) : Dispatch H U := ⟨net, 0, []⟩

def change (d : Dispatch H U) : HandlerChange H U → Dispatch H U
  | .add handler userdata =>
      { d with net := (d.net.addHandler handler userdata).2, log := .change (.add handler userdata) :: d.log }
  | .remove handler =>
      { d with net := d.net.removeHandlerOf handler, log := .change (.remove handler) :: d.log }

def calling (d : Dispatch H U) (handler : H) : Dispatch H U :=
  { d with log := .call handler (d.net.socketUserdata handler) :: d.log }

/-- One round: the bound is that of the vector as it is now, and the vector is indexed unchecked. -/
def round (act : Behaviour H U) (d : Dispatch H U) : Except Abort (Dispatch H U) :=
  if d.i < d.net.socketHandlers.length then
    match d.net.socketHandlers[d.i]? with
    | none => .error .undefinedBehaviour
    | some handler =>
      let d := d.calling handler
      let d := (act d.log).foldl change d
      .ok { d with i := d.i + 1 }
  else .ok d

/-- The loop after some rounds. There may be no last one. -/
def rounds (act : Behaviour H U) (net : NetSocket H U) : ℕ → Except Abort (Dispatch H U)
  | 0 => .ok (start net)
  | n + 1 => do
    let d ← rounds act net n
    d.round act

end Dispatch

section Log
variable [DecidableEq H]

/-- How often a handler was called. -/
def calls (h : H) : List (DispatchEvent H U) → ℕ
  | [] => 0
  | .call handler _ :: log => calls h log + if handler = h then 1 else 0
  | .change _ :: log => calls h log

/-- A handler was removed before it was called at all. -/
def RemovedBeforeTurn (h : H) : List (DispatchEvent H U) → Prop
  | .change (.remove handler) :: log => RemovedBeforeTurn h log ∨ handler = h ∧ calls h log = 0
  | [] => False
  | _ :: log => RemovedBeforeTurn h log

end Log

variable [DecidableEq H]

/-- No round fails, and every handler registered at the start that is not removed before its turn
has been called once from some round on. -/
def Delivers (act : Behaviour H U) (net : NetSocket H U) : Prop :=
  (∀ n, ∃ d, Dispatch.rounds act net n = .ok d) ∧
    ∀ h ∈ net.socketHandlers, ∃ N, ∀ n ≥ N, ∀ d, Dispatch.rounds act net n = .ok d →
      RemovedBeforeTurn h d.log ∨ calls h d.log = 1

/-- Registered at the start, and neither called nor removed yet. -/
def Pending (arrived : List H) (log : List (DispatchEvent H U)) (h : H) : Prop :=
  h ∈ arrived ∧ calls h log = 0 ∧ ¬RemovedBeforeTurn h log

/-- A change that a handler makes while it is called, in front of others. It removes nothing from
the part of the vector that the loop has been through, unless the call leaves no other handler
pending; and it adds no handler that was registered at the start, unless that one was removed before
its turn, or was called and the loop ends before it. -/
def Dispatch.Harmless (arrived : List H) (d : Dispatch H U) (later : List (HandlerChange H U)) :
    HandlerChange H U → Prop
  | .remove handler => handler ∈ d.net.socketHandlers.take (d.i + 1) →
      ∀ h, Pending arrived d.log h → h = handler ∨ .remove h ∈ later
  | .add handler _ => handler ∈ arrived →
      RemovedBeforeTurn handler d.log ∨ 0 < calls handler d.log ∧ d.net.socketHandlers.length ≤ d.i

def Dispatch.AllHarmless (arrived : List H) (d : Dispatch H U) : List (HandlerChange H U) → Prop
  | [] => True
  | c :: cs => d.Harmless arrived cs c ∧ (d.change c).AllHarmless arrived cs

/-- All changes that handlers make, in any round, are harmless. -/
def KeepsTurns (act : Behaviour H U) (net : NetSocket H U) : Prop :=
  ∀ n d, Dispatch.rounds act net n = .ok d → ∀ handler, d.net.socketHandlers[d.i]? = some handler →
    (d.calling handler).AllHarmless net.socketHandlers (act (d.calling handler).log)

/-- What holds when the loop has been through the first `j` handlers, and these changes are still to
be made: those that stay pending are still to come, and those that have been called are not. -/
structure Turns (arrived handlers : List H) (j : ℕ) (log : List (DispatchEvent H U))
    (later : List (HandlerChange H U)) : Prop where
  pending : ∀ h, Pending arrived log h → .remove h ∉ later → StandsOnce h j (arrived.idxOf h) handlers
  called : ∀ h ∈ arrived, ¬RemovedBeforeTurn h log → 0 < calls h log →
    calls h log = 1 ∧ h ∉ handlers.drop j

/-- What is taken out behind the index `j` moves nothing in front of it. -/
theorem StandsOnce.erase {h x : H} {j k : ℕ} {l : List H} (hstands : StandsOnce h j k l) (hx : x ≠ h)
    (hbehind : x ∉ l.take j) : StandsOnce h j k (l.erase x) := by
  obtain ⟨front, back, rfl, hfront, hback, hj, hk⟩ := hstands
  by_cases hmem : x ∈ front
  · have hlt : j < front.length := by
      apply lt_of_le_of_ne hj
      rintro rfl
      rw [List.take_left] at hbehind
      exact hbehind hmem
    have hlength := List.length_erase_of_mem hmem
    refine ⟨front.erase x, back, List.erase_append_left _ hmem, ?_, hback, by omega, by omega⟩
    exact fun hh => hfront (List.mem_of_mem_erase hh)
  · refine ⟨front, back.erase x, ?_, hfront, ?_, hj, hk⟩
    · rw [List.erase_append_right _ hmem, List.erase_cons_tail (by simpa using hx.symm)]
    · exact fun hh => hback (List.mem_of_mem_erase hh)

theorem drop_erase_subset (l : List H) (x : H) (j : ℕ) : (l.erase x).drop j ⊆ l.drop j := by
  induction l generalizing j with
  | nil => exact List.Subset.refl _
  | cons y l ih =>
    cases j with
    | zero => exact List.erase_subset
    | succ j =>
      by_cases hy : y = x
      · rw [hy, List.erase_cons_head, List.drop_succ_cons]
        exact List.drop_subset_drop_left l (Nat.le_succ j)
      · rw [List.erase_cons_tail (by simpa using hy), List.drop_succ_cons, List.drop_succ_cons]
        exact ih j

section Turns
variable {arrived handlers : List H} {j : ℕ} {log : List (DispatchEvent H U)}

theorem Pending.of_change {c : HandlerChange H U} {h : H} (hp : Pending arrived (.change c :: log) h) :
    Pending arrived log h ∧ c ≠ .remove h := by
  obtain ⟨harrived, hcalls, hremoved⟩ := hp
  cases c with
  | add handler userdata => exact ⟨⟨harrived, hcalls, hremoved⟩, fun heq => nomatch heq⟩
  | remove handler =>
    unfold RemovedBeforeTurn at hremoved
    rw [not_or] at hremoved
    refine ⟨⟨harrived, hcalls, hremoved.1⟩, ?_⟩
    intro heq
    cases heq
    exact hremoved.2 ⟨rfl, hcalls⟩

theorem not_removedBeforeTurn_of_change {c : HandlerChange H U} {h : H}
    (hremoved : ¬RemovedBeforeTurn h (.change c :: log)) : ¬RemovedBeforeTurn h log := by
  cases c with
  | add handler userdata => exact hremoved
  | remove handler =>
    unfold RemovedBeforeTurn at hremoved
    exact fun hlog => hremoved (.inl hlog)

theorem turns_start (hdistinct : arrived.Nodup) :
    Turns arrived arrived 0 ([] : List (DispatchEvent H U)) [] := by
  constructor
  · rintro h ⟨harrived, -, -⟩ -
    obtain ⟨front, back, rfl⟩ := List.append_of_mem harrived
    have hgone := (List.nodup_middle.mp hdistinct).notMem
    rw [List.mem_append, not_or] at hgone
    refine ⟨front, back, rfl, hgone.1, hgone.2, Nat.zero_le _, ?_⟩
    rw [List.idxOf_append_of_notMem hgone.1]
    exact Nat.le_add_right _ _
  · intro h _ _ hpos
    cases hpos

/-- The handler at the index has its turn, and the others wait behind it. -/
theorem Turns.call (t : Turns arrived handlers j log []) {handler : H}
    (hget : handlers[j]? = some handler) (userdata : Option U) (later : List (HandlerChange H U)) :
    Turns arrived handlers (j + 1) (.call handler userdata :: log) later := by
  constructor
  · rintro h ⟨harrived, hcalls, hremoved⟩ -
    by_cases heq : handler = h
    · rw [calls, if_pos heq] at hcalls
      omega
    · rw [calls, if_neg heq] at hcalls
      exact (t.pending h ⟨harrived, hcalls, hremoved⟩ List.not_mem_nil).next hget heq
  · intro h harrived hremoved hpos
    by_cases hcalls : calls h log = 0
    · rw [calls, hcalls] at hpos ⊢
      have heq : handler = h := by
        by_contra hne
        rw [if_neg hne] at hpos
        omega
      refine ⟨by rw [if_pos heq], ?_⟩
      exact (t.pending h ⟨harrived, hcalls, hremoved⟩ List.not_mem_nil).notMem_drop (heq ▸ hget)
    · obtain ⟨hone, hgone⟩ := t.called h harrived hremoved (Nat.pos_of_ne_zero hcalls)
      have hdrop : handler ∈ handlers.drop j := by
        apply List.mem_of_getElem? (i := 0)
        rw [List.getElem?_drop, Nat.add_zero, hget]
      have hne : handler ≠ h := fun heq => hgone (heq ▸ hdrop)
      rw [calls, if_neg hne]
      exact ⟨hone, fun hmem => hgone (List.drop_subset_drop_left handlers (Nat.le_succ j) hmem)⟩

variable {d : Dispatch H U} {later : List (HandlerChange H U)}

theorem Turns.add {handler : H} {userdata : U}
    (t : Turns arrived d.net.socketHandlers (d.i + 1) d.log (.add handler userdata :: later))
    (hc : d.Harmless arrived later (.add handler userdata)) :
    Turns arrived (d.net.socketHandlers ++ [handler]) (d.i + 1)
      (.change (.add handler userdata) :: d.log) later := by
  constructor
  · intro h hp hstays
    obtain ⟨hp, hother⟩ := hp.of_change
    have hstays' := List.not_mem_cons_of_ne_of_not_mem hother.symm hstays
    apply (t.pending h hp hstays').append
    rintro rfl
    rcases hc hp.1 with hremoved | ⟨hcalled, -⟩
    · exact hp.2.2 hremoved
    · exact hcalled.ne' hp.2.1
  · intro h harrived hremoved hpos
    obtain ⟨hone, hgone⟩ := t.called h harrived hremoved hpos
    refine ⟨hone, ?_⟩
    rw [List.drop_append, List.mem_append, not_or]
    refine ⟨hgone, ?_⟩
    intro hmem
    obtain rfl := List.mem_singleton.mp (List.mem_of_mem_drop hmem)
    rcases hc harrived with hlog | ⟨-, hshort⟩
    · exact hremoved hlog
    · rw [List.drop_of_length_le (by simp only [List.length_singleton]; omega)] at hmem
      cases hmem

theorem Turns.remove {handler : H}
    (t : Turns arrived d.net.socketHandlers (d.i + 1) d.log (.remove handler :: later))
    (hc : d.Harmless arrived later (.remove handler)) :
    Turns arrived (d.net.socketHandlers.erase handler) (d.i + 1)
      (.change (.remove handler) :: d.log) later := by
  constructor
  · intro h hp hstays
    obtain ⟨hp, hother⟩ := hp.of_change
    have hstays' := List.not_mem_cons_of_ne_of_not_mem hother.symm hstays
    have hne : handler ≠ h := fun heq => hother (by rw [heq])
    apply (t.pending h hp hstays').erase hne
    intro hmem
    rcases hc hmem h hp with heq | hlater
    · exact hne heq.symm
    · exact hstays hlater
  · intro h harrived hremoved hpos
    obtain ⟨hone, hgone⟩ := t.called h harrived (not_removedBeforeTurn_of_change hremoved) hpos
    exact ⟨hone, fun hmem => hgone (drop_erase_subset _ _ _ hmem)⟩

theorem Turns.change {c : HandlerChange H U}
    (t : Turns arrived d.net.socketHandlers (d.i + 1) d.log (c :: later))
    (hc : d.Harmless arrived later c) :
    Turns arrived (d.change c).net.socketHandlers (d.i + 1) (d.change c).log later := by
  cases c with
  | add handler userdata => exact t.add hc
  | remove handler =>
    show Turns arrived (d.net.removeHandlerOf handler).socketHandlers _ _ _
    rw [removeHandlerOf_socketHandlers]
    exact t.remove hc

theorem change_i (d : Dispatch H U) (c : HandlerChange H U) : (d.change c).i = d.i := by
  cases c with
  | add handler userdata => rfl
  | remove handler => rfl

theorem Turns.changes {cs : List (HandlerChange H U)}
    (t : Turns arrived d.net.socketHandlers (d.i + 1) d.log cs) (hcs : d.AllHarmless arrived cs) :
    (cs.foldl Dispatch.change d).i = d.i ∧
      Turns arrived (cs.foldl Dispatch.change d).net.socketHandlers (d.i + 1)
        (cs.foldl Dispatch.change d).log [] := by
  induction cs generalizing d with
  | nil => exact ⟨rfl, t⟩
  | cons c cs ih =>
    have hnext := t.change hcs.1
    rw [← change_i d c] at hnext
    obtain ⟨hi, hturns⟩ := ih hnext hcs.2
    rw [change_i] at hi hturns
    exact ⟨hi, hturns⟩

end Turns

section Rounds
variable {act : Behaviour H U} {net : NetSocket H U}

/-- The check of the bound is made right before the vector is indexed. -/
theorem round_ok (act : Behaviour H U) (d : Dispatch H U) : ∃ d', d.round act = .ok d' := by
  unfold Dispatch.round
  split
  next hlt =>
    rw [List.getElem?_eq_getElem hlt]
    exact ⟨_, rfl⟩
  next => exact ⟨d, rfl⟩

theorem rounds_ok (act : Behaviour H U) (net : NetSocket H U) (n : ℕ) :
    ∃ d, Dispatch.rounds act net n = .ok d := by
  induction n with
  | zero => exact ⟨_, rfl⟩
  | succ n ih =>
    obtain ⟨d, hd⟩ := ih
    obtain ⟨d', hd'⟩ := round_ok act d
    refine ⟨d', ?_⟩
    rw [Dispatch.rounds, hd]
    exact hd'

theorem rounds_succ {n : ℕ} {d' : Dispatch H U} (h : Dispatch.rounds act net (n + 1) = .ok d') :
    ∃ d, Dispatch.rounds act net n = .ok d ∧ d.round act = .ok d' := by
  obtain ⟨d, hd⟩ := rounds_ok act net n
  rw [Dispatch.rounds, hd] at h
  exact ⟨d, hd, h⟩

/-- A round calls the handler at the index, or there is none. -/
theorem round_cases {d d' : Dispatch H U} (h : d.round act = .ok d') :
    (d.net.socketHandlers.length ≤ d.i ∧ d' = d) ∨
      ∃ handler, d.net.socketHandlers[d.i]? = some handler ∧
        let changed := (act (d.calling handler).log).foldl Dispatch.change (d.calling handler)
        d' = { changed with i := changed.i + 1 } := by
  unfold Dispatch.round at h
  split at h
  next hlt =>
    rw [List.getElem?_eq_getElem hlt] at h ⊢
    exact .inr ⟨_, rfl, (Except.ok.inj h).symm⟩
  next hge => exact .inl ⟨Nat.le_of_not_lt hge, (Except.ok.inj h).symm⟩

/-- A dispatch that is over stays as it is. -/
theorem rounds_of_done {n m : ℕ} {d : Dispatch H U} (hd : Dispatch.rounds act net n = .ok d)
    (hdone : d.net.socketHandlers.length ≤ d.i) (hle : n ≤ m) : Dispatch.rounds act net m = .ok d := by
  induction m, hle using Nat.le_induction with
  | base => exact hd
  | succ m _ ih =>
    rw [Dispatch.rounds, ih]
    show d.round act = .ok d
    rw [Dispatch.round, if_neg (Nat.not_lt.mpr hdone)]

theorem turns_rounds (hdistinct : net.socketHandlers.Nodup) (hact : KeepsTurns act net) (n : ℕ)
    {d : Dispatch H U} (hd : Dispatch.rounds act net n = .ok d) :
    (d.i = n ∨ d.net.socketHandlers.length ≤ d.i) ∧
      Turns net.socketHandlers d.net.socketHandlers d.i d.log [] := by
  induction n generalizing d with
  | zero =>
    cases hd
    exact ⟨.inl rfl, turns_start hdistinct⟩
  | succ n ih =>
    obtain ⟨d', hd', hround⟩ := rounds_succ hd
    obtain ⟨hi, hturns⟩ := ih hd'
    rcases round_cases hround with ⟨hdone, rfl⟩ | ⟨handler, hget, rfl⟩
    · exact ⟨.inr hdone, hturns⟩
    · have hcalled : Turns net.socketHandlers (d'.calling handler).net.socketHandlers
          ((d'.calling handler).i + 1) (d'.calling handler).log (act (d'.calling handler).log) :=
        hturns.call hget _ _
      obtain ⟨hsame, hchanged⟩ := hcalled.changes (hact n d' hd' handler hget)
      have hlt := (List.getElem?_eq_some_iff.mp hget).1
      constructor
      · left
        show _ + 1 = n + 1
        rw [hsame]
        show d'.i + 1 = n + 1
        omega
      · dsimp only
        rw [hsame]
        exact hchanged

theorem rounds_quiet (net : NetSocket H U) {n : ℕ} (hn : n ≤ net.socketHandlers.length) :
    Dispatch.rounds (fun _ => []) net n = .ok ⟨net, n,
      ((net.socketHandlers.take n).map fun h => .call h (net.socketUserdata h)).reverse⟩ := by
  induction n with
  | zero => rfl
  | succ n ih =>
    have hget := List.getElem?_eq_getElem hn
    rw [Dispatch.rounds, ih (Nat.le_of_succ_le hn)]
    show Dispatch.round (fun _ => []) (⟨net, n, _⟩ : Dispatch H U) = _
    unfold Dispatch.round
    rw [if_pos (Nat.lt_of_succ_le hn), hget]
    dsimp only [Dispatch.calling, List.foldl_nil]
    rw [List.take_succ_eq_append_getElem hn, List.map_append, List.reverse_append]
    rfl

/-- With handlers that change nothing, the rounds make the calls of `Listener`. -/
theorem rounds_called [Winsock] (net : NetSocket H U) (beyond : ℤ → Option UInt8) {datagram : List UInt8}
    (hreceived : net.recvfrom datagram > 0) :
    ∃ d, Dispatch.rounds (fun _ => []) net net.socketHandlers.length = .ok d ∧
      d.log.reverse = (net.called beyond datagram).map fun c => .call c.handler c.userdata := by
  refine ⟨_, rounds_quiet net le_rfl, ?_⟩
  rw [called_eq, if_pos hreceived, List.map_map, List.reverse_reverse, List.take_length]
  rfl

/-- Every delivery is made when no handler changes what the loop has been through, nor adds again
what was registered at the start. -/
theorem delivers_of_keepsTurns (hdistinct : net.socketHandlers.Nodup) (hact : KeepsTurns act net) :
    Delivers act net := by
  refine ⟨rounds_ok act net, ?_⟩
  intro h harrived
  refine ⟨net.socketHandlers.idxOf h + 1, ?_⟩
  intro n hn d hd
  obtain ⟨hi, hturns⟩ := turns_rounds hdistinct hact n hd
  by_cases hremoved : RemovedBeforeTurn h d.log
  · exact .inl hremoved
  · right
    apply (hturns.called h harrived hremoved ?_).1
    by_contra hzero
    obtain ⟨front, back, hsplit, -, -, hj, hk⟩ :=
      hturns.pending h ⟨harrived, Nat.eq_zero_of_not_pos hzero, hremoved⟩ List.not_mem_nil
    have hlength := congrArg List.length hsplit
    rw [List.length_append, List.length_cons] at hlength
    omega

end Rounds

/-- One handler removes itself whenever it is called. -/
def leaveOnCall (handler : H) : Behaviour H U
  | .call h _ :: _ => if h = handler then [.remove h] else []
  | _ => []

theorem delivers_of_keepsTurns_example :
    Delivers (leaveOnCall 2) (⟨512, [1, 2], fun h => some (10 * h)⟩ : NetSocket ℕ ℕ) := by
  apply delivers_of_keepsTurns (by decide)
  intro n d hd handler hget
  rcases n with _ | _ | n
  · cases hd
    cases hget
    trivial
  · cases hd
    cases hget
    refine ⟨?_, trivial⟩
    rintro - h ⟨harrived, hcalls, -⟩
    left
    rcases List.mem_cons.mp harrived with rfl | harrived
    · exact absurd hcalls (by decide)
    · exact List.mem_singleton.mp harrived
  · have htwo : Dispatch.rounds (leaveOnCall 2) (⟨512, [1, 2], fun h => some (10 * h)⟩ : NetSocket ℕ ℕ) 2 =
        .ok ⟨⟨512, [1], _⟩, 2, _⟩ := rfl
    rw [rounds_of_done htwo (by decide) (Nat.le_add_left 2 n)] at hd
    cases hd
    cases hget

/-- The first of two handlers removes itself, and the second is never called. -/
theorem neighbour_skipped :
    ¬Delivers (leaveOnCall 1) (⟨512, [1, 2], fun h => some (10 * h)⟩ : NetSocket ℕ ℕ) := by
  rintro ⟨-, hdelivered⟩
  obtain ⟨N, hN⟩ := hdelivered 2 (by decide)
  have hone : Dispatch.rounds (leaveOnCall 1) (⟨512, [1, 2], fun h => some (10 * h)⟩ : NetSocket ℕ ℕ) 1 =
      .ok ⟨⟨512, [2], _⟩, 1, [.change (.remove 1), .call 1 (some 10)]⟩ := rfl
  have hdone := rounds_of_done hone (by decide) (Nat.le_add_left 1 N)
  rcases hN (N + 1) (Nat.le_succ N) _ hdone with (hremoved | ⟨hne, -⟩) | hcalled
  · exact hremoved
  · exact absurd hne (by decide)
  · exact absurd hcalled (by decide)

end H1Z1Server
