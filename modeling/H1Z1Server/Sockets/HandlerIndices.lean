import H1Z1Server.Sockets.Handlers

/-! The indices that `AddHandler` returns. A caller keeps the index of a registration for as long
as the registration lasts, and passes it to `RemoveHandler(int)`. -/
namespace H1Z1Server
open MachineInt

/-- Registrations are numbered in the order in which they are made. -/
inductive IndexOp (H U : Type) where
  | add (handler : H) (userdata : U)
  | remove (number : ℕ)

/-- A registration, and how many others there were when it was made. -/
structure Registration (H U : Type) where
  number : ℕ
  handler : H
  userdata : U
  place : ℕ
  deriving DecidableEq

/-- A socket, with the indices that its registrations were given. -/
structure IndexedSocket (H U : Type) where
  net : NetSocket H U
  indices : List Int32

/-- How many registrations were made, and those that were not removed since. -/
structure IndexRoster (H U : Type) where
  made : ℕ
  live : List (Registration H U)

variable {H U : Type}

namespace IndexRoster

def empty : IndexRoster H U := ⟨0, []⟩

def entries (r : IndexRoster H U) : Registrations H U := r.live.map fun c => (c.handler, c.userdata)

def add (r : IndexRoster H U) (handler : H) (userdata : U) : IndexRoster H U :=
  ⟨r.made + 1, r.live ++ [⟨r.made, handler, userdata, r.live.length⟩]⟩

def remove (r : IndexRoster H U) (number : ℕ) : IndexRoster H U :=
  ⟨r.made, r.live.filter (·.number ≠ number)⟩

/-- A function is added only while it is not registered, and a registration is removed only once. -/
def WellFormed (r : IndexRoster H U) : List (IndexOp H U) → Prop
  | [] => True
  | .add handler userdata :: ops => handler ∉ r.entries.map Prod.fst ∧ (r.add handler userdata).WellFormed ops
  | .remove number :: ops => (∃ c ∈ r.live, c.number = number) ∧ (r.remove number).WellFormed ops

/-- The index of a registration is the number of those that are before it now. -/
def InPlace (r : IndexRoster H U) (c : Registration H U) : Prop :=
  (Int32.ofInt c.place).toInt = (r.live.filter (·.number < c.number)).length

/-- Every registration that is removed is in place then. -/
def RemovesInPlace (r : IndexRoster H U) : List (IndexOp H U) → Prop
  | [] => True
  | .add handler userdata :: ops => (r.add handler userdata).RemovesInPlace ops
  | .remove number :: ops => (∃ c ∈ r.live, c.number = number ∧ r.InPlace c) ∧
      (r.remove number).RemovesInPlace ops

end IndexRoster

namespace IndexedSocket
variable [DecidableEq H]

def new (bufferSize : ℕ) : IndexedSocket H U := ⟨.new bufferSize, []⟩

def add (s : IndexedSocket H U) (handler : H) (userdata : U) : IndexedSocket H U :=
  let (index, net) := s.net.addHandler handler userdata
  ⟨net, s.indices ++ [index]⟩

/-- Every `RemoveHandler(int)` stays within the vector, and leaves all registrations but the one
that its index was returned for. -/
def NamesHandlers (s : IndexedSocket H U) (r : IndexRoster H U) : List (IndexOp H U) → Prop
  | [] => True
  | .add handler userdata :: ops => (s.add handler userdata).NamesHandlers (r.add handler userdata) ops
  | .remove number :: ops => ∃ net, s.net.removeHandler (s.indices.getD number 0) = .ok net ∧
      Registers net (r.remove number).entries ∧
      NamesHandlers ⟨net, s.indices⟩ (r.remove number) ops

end IndexedSocket

/-- A socket and its callers agree on the registrations, and on the index of each. -/
structure Indexes (s : IndexedSocket H U) (r : IndexRoster H U) : Prop where
  registers : Registers s.net r.entries
  made : s.indices.length = r.made
  index : ∀ c ∈ r.live, s.indices[c.number]? = some (Int32.ofInt c.place)
  ordered : r.live.Pairwise (·.number < ·.number)

theorem indexes_new [DecidableEq H] (bufferSize : ℕ) :
    Indexes (IndexedSocket.new bufferSize : IndexedSocket H U) .empty := by
  constructor
  · exact registers_new bufferSize
  · rfl
  · intro c hc
    cases hc
  · exact List.Pairwise.nil

variable {s : IndexedSocket H U} {r : IndexRoster H U}

theorem Indexes.number_lt (h : Indexes s r) {c : Registration H U} (hc : c ∈ r.live) :
    c.number < r.made := by
  rw [← h.made]
  exact (List.getElem?_eq_some_iff.mp (h.index c hc)).1

/-- A registration has those made before it in front, and the others behind. -/
theorem Indexes.split (h : Indexes s r) {c : Registration H U} (hc : c ∈ r.live) :
    ∃ front back, r.live = front ++ c :: back ∧ r.live.filter (·.number < c.number) = front ∧
      r.live.filter (·.number ≠ c.number) = front ++ back := by
  obtain ⟨front, back, hlive⟩ := List.append_of_mem hc
  have hordered := h.ordered
  rw [hlive, List.pairwise_append, List.pairwise_cons] at hordered
  obtain ⟨-, ⟨hback, -⟩, hfront⟩ := hordered
  have hbefore : ∀ d ∈ front, d.number < c.number := fun d hd => hfront d hd c List.mem_cons_self
  refine ⟨front, back, hlive, ?_, ?_⟩
  · rw [hlive, List.filter_append, List.filter_eq_self.mpr, List.filter_cons_of_neg,
      List.filter_eq_nil_iff.mpr, List.append_nil]
    · intro d hd
      have hafter := hback d hd
      simp only [decide_eq_true_eq]
      omega
    · simp only [lt_self_iff_false, decide_false, Bool.false_eq_true, not_false_eq_true]
    · intro d hd
      exact decide_eq_true (hbefore d hd)
  · rw [hlive, List.filter_append, List.filter_eq_self.mpr, List.filter_cons_of_neg,
      List.filter_eq_self.mpr]
    · intro d hd
      exact decide_eq_true (hback d hd).ne'
    · simp only [ne_eq, not_true_eq_false, decide_false, Bool.false_eq_true, not_false_eq_true]
    · intro d hd
      exact decide_eq_true (hbefore d hd).ne

theorem Indexes.add [DecidableEq H] (h : Indexes s r) {handler : H}
    (hnew : handler ∉ r.entries.map Prod.fst) (userdata : U) :
    Indexes (s.add handler userdata) (r.add handler userdata) := by
  have hindices : (s.add handler userdata).indices = s.indices ++ [Int32.ofInt r.live.length] := by
    have hlen := congrArg List.length h.registers.handlers
    rw [IndexRoster.entries, List.length_map, List.length_map] at hlen
    show s.indices ++ [narrow (UInt64.ofNat (s.net.socketHandlers ++ [handler]).length - 1)] = _
    rw [List.length_append, List.length_singleton, narrow_last, hlen]
  constructor
  · have hadd := h.registers.add hnew userdata
    rw [IndexRoster.entries, IndexRoster.add, List.map_append]
    exact hadd
  · rw [hindices, List.length_append, h.made]
    rfl
  · intro c hc
    rw [hindices]
    rcases List.mem_append.mp hc with hc | hc
    · rw [List.getElem?_append_left (by rw [h.made]; exact h.number_lt hc)]
      exact h.index c hc
    · obtain rfl := List.mem_singleton.mp hc
      rw [← h.made, List.getElem?_concat_length]
  · apply List.pairwise_append.mpr
    refine ⟨h.ordered, List.pairwise_singleton _ _, ?_⟩
    intro c hc d hd
    obtain rfl := List.mem_singleton.mp hd
    exact h.number_lt hc

theorem Indexes.remove (h : Indexes s r) (number : ℕ) {net : NetSocket H U}
    (hnet : Registers net (r.remove number).entries) : Indexes ⟨net, s.indices⟩ (r.remove number) := by
  constructor
  · exact hnet
  · exact h.made
  · intro c hc
    exact h.index c (List.mem_of_mem_filter hc)
  · exact h.ordered.filter _

variable [DecidableEq H]

/-- Of a vector without repetitions, only one index takes out a given handler. -/
theorem eq_of_removeHandler {net net' : NetSocket H U} {front back : Registrations H U} {p : H × U}
    (hnet : Registers net (front ++ p :: back)) (hnet' : Registers net' (front ++ back)) {i : Int32}
    (hremove : net.removeHandler i = .ok net') : i.toInt = front.length := by
  have hmap := hnet.handlers
  rw [List.map_append, List.map_cons] at hmap
  have hdistinct := hnet.distinct
  rw [List.map_append, List.map_cons] at hdistinct
  have hgone := (List.nodup_middle.mp hdistinct).notMem
  unfold NetSocket.removeHandler at hremove
  split at hremove
  next hpos =>
    split at hremove
    next => cases hremove
    next handler _ =>
      cases hremove
      by_contra hne
      have hleft : p.1 ∈ net.socketHandlers.eraseIdx i.toInt.toNat := by
        rw [List.mem_eraseIdx_iff_getElem?]
        refine ⟨front.length, by omega, ?_⟩
        rw [hmap, List.getElem?_append_right (by rw [List.length_map]), List.length_map, Nat.sub_self,
          List.getElem?_cons_zero]
      have hhandlers := hnet'.handlers
      dsimp only at hhandlers
      rw [hhandlers, List.map_append] at hleft
      exact hgone hleft
  next => cases hremove

theorem removeHandler_front {net : NetSocket H U} {front back : Registrations H U} {p : H × U}
    (hnet : Registers net (front ++ p :: back)) {i : Int32} (hi : i.toInt = front.length) :
    ∃ net', net.removeHandler i = .ok net' ∧ Registers net' (front ++ back) := by
  refine ⟨_, ?_, hnet.remove rfl⟩
  have hget : net.socketHandlers[front.length]? = some p.1 := by
    rw [hnet.handlers, List.map_append, List.map_cons,
      List.getElem?_append_right (by rw [List.length_map]), List.length_map, Nat.sub_self,
      List.getElem?_cons_zero]
  unfold NetSocket.removeHandler
  rw [hi, if_pos (Int.natCast_nonneg _), Int.toNat_natCast, hget]

/-- A removal takes out the registration it is meant for exactly when that one is in place. -/
theorem Indexes.removes_iff (h : Indexes s r) {c : Registration H U} (hc : c ∈ r.live) :
    (∃ net, s.net.removeHandler (s.indices.getD c.number 0) = .ok net ∧
      Registers net (r.remove c.number).entries) ↔ r.InPlace c := by
  obtain ⟨front, back, hlive, hbefore, hothers⟩ := h.split hc
  have hregisters := h.registers
  unfold IndexRoster.entries at hregisters
  rw [hlive, List.map_append, List.map_cons] at hregisters
  have hleft : (r.remove c.number).entries =
      (front.map fun c => (c.handler, c.userdata)) ++ back.map fun c => (c.handler, c.userdata) := by
    rw [IndexRoster.entries, IndexRoster.remove, hothers, List.map_append]
  have hlength : (front.map fun c => (c.handler, c.userdata)).length = front.length := List.length_map _
  rw [List.getD_eq_getElem?_getD, h.index c hc, Option.getD_some, hleft]
  unfold IndexRoster.InPlace
  rw [hbefore, ← hlength]
  constructor
  · rintro ⟨net, hremove, hnet⟩
    exact eq_of_removeHandler hregisters hnet hremove
  · intro hi
    exact removeHandler_front hregisters hi

theorem namesHandlers_iff_of_indexes (h : Indexes s r) {ops : List (IndexOp H U)} (hops : r.WellFormed ops) :
    s.NamesHandlers r ops ↔ r.RemovesInPlace ops := by
  induction ops generalizing s r with
  | nil => exact Iff.rfl
  | cons op ops ih =>
    cases op with
    | add handler userdata => exact ih (h.add hops.1 userdata) hops.2
    | remove number =>
      obtain ⟨⟨c, hc, rfl⟩, hops⟩ := hops
      constructor
      · rintro ⟨net, hremove, hnet, hrest⟩
        have hplace := (h.removes_iff hc).mp ⟨net, hremove, hnet⟩
        exact ⟨⟨c, hc, rfl, hplace⟩, (ih (h.remove c.number hnet) hops).mp hrest⟩
      · rintro ⟨⟨d, hd, hnumber, hplace⟩, hrest⟩
        rw [← hnumber] at hrest hops ⊢
        obtain ⟨net, hremove, hnet⟩ := (h.removes_iff hd).mpr hplace
        exact ⟨net, hremove, hnet, (ih (h.remove d.number hnet) hops).mpr hrest⟩

/-- An index keeps naming its registration exactly as long as every registration that is removed
still has as many before it as when it was made. -/
theorem namesHandlers_iff (bufferSize : ℕ) {ops : List (IndexOp H U)}
    (hops : (IndexRoster.empty : IndexRoster H U).WellFormed ops) :
    (IndexedSocket.new bufferSize).NamesHandlers .empty ops ↔
      (IndexRoster.empty : IndexRoster H U).RemovesInPlace ops :=
  namesHandlers_iff_of_indexes (indexes_new bufferSize) hops

theorem namesHandlers_iff_example :
    (IndexedSocket.new 512).NamesHandlers .empty [.add 1 10, .add 2 20, .remove 1, .remove 0] ↔
      (IndexRoster.empty : IndexRoster ℕ ℕ).RemovesInPlace [.add 1 10, .add 2 20, .remove 1, .remove 0] :=
  namesHandlers_iff 512 ⟨by decide, by decide, ⟨⟨1, 2, 20, 1⟩, by decide, rfl⟩,
    ⟨⟨0, 1, 10, 0⟩, by decide, rfl⟩, trivial⟩

/-- Once the first of three is gone, the index of the second removes the third. -/
theorem second_index_names_third :
    (IndexRoster.empty : IndexRoster ℕ ℕ).WellFormed
        [.add 1 10, .add 2 20, .add 3 30, .remove 0, .remove 1] ∧
      ¬(IndexedSocket.new 512).NamesHandlers (.empty : IndexRoster ℕ ℕ)
        [.add 1 10, .add 2 20, .add 3 30, .remove 0, .remove 1] := by
  constructor
  · exact ⟨by decide, by decide, by decide, ⟨⟨0, 1, 10, 0⟩, by decide, rfl⟩,
      ⟨⟨1, 2, 20, 1⟩, by decide, rfl⟩, trivial⟩
  · rintro ⟨net, hfirst, -, net', hsecond, hregisters, -⟩
    cases hfirst
    cases hsecond
    exact absurd hregisters.handlers (by decide)

end H1Z1Server
