import Mathlib.Tactic

/-! The thread of a listening socket. The threads of the system are seen through the calls that the
socket has made about them. -/
namespace H1Z1Server

/-- A `HANDLE`: one of the two that are no handle, the one that the `n`-th `CreateThread` of the
socket returns, or any other. -/
inductive Handle where
  | null
  | invalidHandleValue
  | thread (n : ℕ)
  | other (n : ℕ)
  deriving DecidableEq, Repr

inductive ThreadCall where
  | createThread (h : Handle)
  | suspendThread (h : Handle)
  | resumeThread (h : Handle)
  | terminateThread (h : Handle)
  deriving DecidableEq, Repr

/-- The calls so far, the latest first. -/
abbrev ThreadCalls := List ThreadCall

namespace ThreadCalls

/-- How many threads were created. -/
def created : ThreadCalls → ℕ
  | [] => 0
  | .createThread _ :: calls => created calls + 1
  | _ :: calls => created calls

/-- A thread has been created and not been ended since. It may be suspended. -/
def Alive (h : Handle) : ThreadCalls → Prop
  | [] => False
  | .createThread h' :: calls => h' = h ∨ Alive h calls
  | .terminateThread h' :: calls => h' ≠ h ∧ Alive h calls
  | _ :: calls => Alive h calls

instance decidableAlive (h : Handle) : (calls : ThreadCalls) → Decidable (Alive h calls)
  | [] => inferInstanceAs (Decidable False)
  | .createThread h' :: calls =>
      have := decidableAlive h calls
      inferInstanceAs (Decidable (h' = h ∨ Alive h calls))
  | .terminateThread h' :: calls =>
      have := decidableAlive h calls
      inferInstanceAs (Decidable (h' ≠ h ∧ Alive h calls))
  | .suspendThread _ :: calls => decidableAlive h calls
  | .resumeThread _ :: calls => decidableAlive h calls

/-- Only handles of threads that the socket has created before are suspended, resumed and ended. -/
def OwnHandles : ThreadCalls → Prop
  | [] => True
  | .createThread _ :: calls => OwnHandles calls
  | .suspendThread h :: calls => .createThread h ∈ calls ∧ OwnHandles calls
  | .resumeThread h :: calls => .createThread h ∈ calls ∧ OwnHandles calls
  | .terminateThread h :: calls => .createThread h ∈ calls ∧ OwnHandles calls

end ThreadCalls

/-- The part of a `NetSocket` that its listener thread uses, and the calls made so far. -/
structure ListeningSocket where
  initialized : Bool
  bufferSize : ℕ
  listenThread : Handle
  calls : ThreadCalls

inductive ListenerOp where
  | listenAsync
  | stopListener
  | startListener
  deriving DecidableEq, Repr

namespace ListeningSocket

/-- What the constructor leaves when nothing fails: `listenThread` is not initialized, and is
whatever the memory holds. -/
def initialised (bufferSize : ℕ) (listenThread : Handle) : ListeningSocket :=
  { initialized := true, bufferSize, listenThread, calls := [] }

def listenAsync (s : ListeningSocket) : ListeningSocket :=
  if !s.initialized || s.bufferSize = 0 then s
  else
    let listenThread := .thread s.calls.created
    { s with listenThread, calls := .createThread listenThread :: s.calls }

def stopListener (s : ListeningSocket) : ListeningSocket :=
  if s.listenThread = .null ∨ s.listenThread = .invalidHandleValue then s
  else { s with calls := .suspendThread s.listenThread :: s.calls }

def startListener (s : ListeningSocket) : ListeningSocket :=
  if s.listenThread = .null ∨ s.listenThread = .invalidHandleValue then s
  else { s with calls := .resumeThread s.listenThread :: s.calls }

def step (s : ListeningSocket) : ListenerOp → ListeningSocket
  | .listenAsync => s.listenAsync
  | .stopListener => s.stopListener
  | .startListener => s.startListener

def run (s : ListeningSocket) : List ListenerOp → ListeningSocket
  | [] => s
  | op :: ops => (s.step op).run ops

def stillActive : UInt32 := 259

/-- `GetExitCodeThread`. For handles that are not of threads of this socket, what it leaves in
`code` is unknown: a thread may belong to somebody else, and when the call fails, `code` stays
uninitialized. -/
def exitCode (unknown : Handle → UInt32) (s : ListeningSocket) : UInt32 :=
  if .createThread s.listenThread ∈ s.calls then
    if s.calls.Alive s.listenThread then stillActive else 0
  else unknown s.listenThread

/-- `~NetSocket`. -/
def destroy (unknown : Handle → UInt32) (s : ListeningSocket) : ListeningSocket :=
  if !s.initialized then s
  else if s.exitCode unknown = stillActive then
    { s with calls := .terminateThread s.listenThread :: s.calls }
  else s

/-- After the socket has been used and destroyed, only handles of its own threads have been used, and
none of these threads is left. -/
def LeavesNoThread (bufferSize : ℕ) (memory : Handle) (unknown : Handle → UInt32)
    (ops : List ListenerOp) : Prop :=
  let s := ((initialised bufferSize memory).run ops).destroy unknown
  s.calls.OwnHandles ∧ ∀ h, ¬s.calls.Alive h

end ListeningSocket

open ListeningSocket
variable {s : ListeningSocket} {ops : List ListenerOp}

theorem ThreadCalls.OwnHandles.of_append {new old : ThreadCalls} (h : OwnHandles (new ++ old)) :
    OwnHandles old := by
  induction new with
  | nil => exact h
  | cons call new ih =>
    cases call with
    | createThread handle => exact ih h
    | suspendThread handle => exact ih h.2
    | resumeThread handle => exact ih h.2
    | terminateThread handle => exact ih h.2

theorem step_calls (s : ListeningSocket) (op : ListenerOp) : ∃ new, (s.step op).calls = new ++ s.calls := by
  cases op with
  | listenAsync =>
    show ∃ new, s.listenAsync.calls = new ++ s.calls
    unfold ListeningSocket.listenAsync
    split
    · exact ⟨[], rfl⟩
    · exact ⟨[_], rfl⟩
  | stopListener =>
    show ∃ new, s.stopListener.calls = new ++ s.calls
    unfold stopListener
    split
    · exact ⟨[], rfl⟩
    · exact ⟨[_], rfl⟩
  | startListener =>
    show ∃ new, s.startListener.calls = new ++ s.calls
    unfold startListener
    split
    · exact ⟨[], rfl⟩
    · exact ⟨[_], rfl⟩

theorem run_calls (s : ListeningSocket) (ops : List ListenerOp) :
    ∃ new, (s.run ops).calls = new ++ s.calls := by
  induction ops generalizing s with
  | nil => exact ⟨[], rfl⟩
  | cons op ops ih =>
    obtain ⟨new, hnew⟩ := ih (s.step op)
    obtain ⟨call, hcall⟩ := step_calls s op
    refine ⟨new ++ call, ?_⟩
    rw [run, hnew, hcall, List.append_assoc]

theorem destroy_calls (unknown : Handle → UInt32) (s : ListeningSocket) :
    ∃ new, (s.destroy unknown).calls = new ++ s.calls := by
  unfold destroy
  split
  · exact ⟨[], rfl⟩
  · split
    · exact ⟨[_], rfl⟩
    · exact ⟨[], rfl⟩

/-- A handle that was used before it was the socket's own stays used. -/
theorem ownHandles_of_destroy (s : ListeningSocket) (ops : List ListenerOp) {unknown : Handle → UInt32}
    (h : ((s.run ops).destroy unknown).calls.OwnHandles) : s.calls.OwnHandles := by
  obtain ⟨last, hlast⟩ := destroy_calls unknown (s.run ops)
  obtain ⟨new, hnew⟩ := run_calls s ops
  rw [hlast, hnew] at h
  exact h.of_append.of_append

/-- The socket has created `k + 1` threads, holds the handle of the last one, and has ended none. -/
structure HoldsThread (s : ListeningSocket) (k : ℕ) : Prop where
  initialized : s.initialized = true
  bufferSize : s.bufferSize ≠ 0
  listenThread : s.listenThread = .thread k
  created : s.calls.created = k + 1
  known : .createThread (.thread k) ∈ s.calls
  own : s.calls.OwnHandles
  alive : ∀ h, s.calls.Alive h ↔ ∃ n ≤ k, h = .thread n

theorem holds_listenAsync {bufferSize : ℕ} (hbuffer : bufferSize ≠ 0) (memory : Handle) :
    HoldsThread (initialised bufferSize memory).listenAsync 0 := by
  unfold initialised listenAsync
  rw [if_neg (by simpa using hbuffer)]
  constructor
  · rfl
  · exact hbuffer
  · rfl
  · rfl
  · exact List.mem_cons_self
  · trivial
  · intro h
    constructor
    · rintro (heq | hnone)
      · exact ⟨0, le_rfl, heq.symm⟩
      · exact hnone.elim
    · rintro ⟨n, hn, rfl⟩
      rw [Nat.le_zero.mp hn]
      exact .inl rfl

theorem HoldsThread.listenAsync {k : ℕ} (h : HoldsThread s k) : HoldsThread s.listenAsync (k + 1) := by
  unfold ListeningSocket.listenAsync
  rw [if_neg (by simpa [h.initialized] using h.bufferSize)]
  constructor
  · exact h.initialized
  · exact h.bufferSize
  · dsimp only
    rw [h.created]
  · show s.calls.created + 1 = _
    rw [h.created]
  · rw [h.created]
    exact List.mem_cons_self
  · exact h.own
  · intro handle
    show Handle.thread s.calls.created = handle ∨ s.calls.Alive handle ↔ _
    rw [h.created, h.alive]
    constructor
    · rintro (rfl | ⟨n, hn, rfl⟩)
      · exact ⟨k + 1, le_rfl, rfl⟩
      · exact ⟨n, Nat.le_succ_of_le hn, rfl⟩
    · rintro ⟨n, hn, rfl⟩
      rcases Nat.le_succ_iff.mp hn with hn | rfl
      · exact .inr ⟨n, hn, rfl⟩
      · exact .inl rfl

theorem HoldsThread.isHandle {k : ℕ} (h : HoldsThread s k) :
    ¬(s.listenThread = .null ∨ s.listenThread = .invalidHandleValue) := by
  rw [h.listenThread]
  simp only [reduceCtorEq, or_self, not_false_eq_true]

/-- Suspending or resuming the thread that the socket holds changes nothing about which there are. -/
theorem HoldsThread.switch {k : ℕ} (h : HoldsThread s k) {call : ThreadCall}
    (hcall : call = .suspendThread s.listenThread ∨ call = .resumeThread s.listenThread) :
    HoldsThread { s with calls := call :: s.calls } k := by
  constructor
  · exact h.initialized
  · exact h.bufferSize
  · exact h.listenThread
  · rcases hcall with rfl | rfl
    · exact h.created
    · exact h.created
  · exact List.mem_cons_of_mem _ h.known
  · rw [h.listenThread] at hcall
    rcases hcall with rfl | rfl
    · exact ⟨h.known, h.own⟩
    · exact ⟨h.known, h.own⟩
  · rcases hcall with rfl | rfl
    · exact h.alive
    · exact h.alive

theorem HoldsThread.step {k : ℕ} (h : HoldsThread s k) {op : ListenerOp} (hop : op ≠ .listenAsync) :
    HoldsThread (s.step op) k := by
  cases op with
  | listenAsync => exact absurd rfl hop
  | stopListener =>
    show HoldsThread s.stopListener k
    rw [stopListener, if_neg h.isHandle]
    exact h.switch (.inl rfl)
  | startListener =>
    show HoldsThread s.startListener k
    rw [startListener, if_neg h.isHandle]
    exact h.switch (.inr rfl)

theorem HoldsThread.run {k : ℕ} (h : HoldsThread s k) (ops : List ListenerOp) :
    HoldsThread (s.run ops) (k + ops.count .listenAsync) := by
  induction ops generalizing s k with
  | nil => exact h
  | cons op ops ih =>
    by_cases hop : op = .listenAsync
    · subst hop
      rw [List.count_cons_self, ← Nat.add_assoc, Nat.add_right_comm]
      exact ih h.listenAsync
    · rw [List.count_cons_of_ne hop]
      exact ih (h.step hop)

theorem HoldsThread.destroy {k : ℕ} (h : HoldsThread s k) (unknown : Handle → UInt32) :
    (s.destroy unknown).calls = .terminateThread (.thread k) :: s.calls := by
  have halive : s.calls.Alive (.thread k) := (h.alive _).mpr ⟨k, le_rfl, rfl⟩
  unfold ListeningSocket.destroy exitCode
  rw [h.initialized, h.listenThread, if_neg (by decide), if_pos h.known, if_pos halive, if_pos rfl]

/-- The destructor ends the last thread only. -/
theorem HoldsThread.leaves_iff {k : ℕ} (h : HoldsThread s k) (unknown : Handle → UInt32) :
    ((s.destroy unknown).calls.OwnHandles ∧ ∀ handle, ¬(s.destroy unknown).calls.Alive handle) ↔
      k = 0 := by
  rw [h.destroy]
  constructor
  · rintro ⟨-, hnone⟩
    by_contra hk
    apply hnone (.thread 0)
    refine ⟨?_, (h.alive _).mpr ⟨0, Nat.zero_le k, rfl⟩⟩
    intro heq
    cases heq
    exact hk rfl
  · rintro rfl
    refine ⟨⟨h.known, h.own⟩, ?_⟩
    rintro handle ⟨hne, halive⟩
    obtain ⟨n, hn, rfl⟩ := (h.alive handle).mp halive
    rw [Nat.le_zero.mp hn] at hne
    exact hne rfl

/-- Whatever the memory of the socket held and other threads do, no thread outlives the socket
exactly when `ListenAsync` is called first, and never again. -/
theorem leavesNoThread_iff {bufferSize : ℕ} (hbuffer : bufferSize ≠ 0) (ops : List ListenerOp) :
    (∀ memory unknown, LeavesNoThread bufferSize memory unknown ops) ↔
      ∃ rest, ops = .listenAsync :: rest ∧ .listenAsync ∉ rest := by
  constructor
  · intro h
    have hstray := h (.other 0) (fun _ => stillActive)
    cases ops with
    | nil => exact absurd hstray.1.1 List.not_mem_nil
    | cons op rest =>
      cases op with
      | listenAsync =>
        refine ⟨rest, rfl, ?_⟩
        have hholds := (holds_listenAsync hbuffer (.other 0)).run rest
        have hzero := (hholds.leaves_iff _).mp hstray
        rw [Nat.zero_add] at hzero
        exact List.count_eq_zero.mp hzero
      | stopListener =>
        have hown : ThreadCalls.OwnHandles [.suspendThread (.other 0)] :=
          ownHandles_of_destroy (initialised bufferSize (.other 0)).stopListener rest hstray.1
        exact absurd hown.1 List.not_mem_nil
      | startListener =>
        have hown : ThreadCalls.OwnHandles [.resumeThread (.other 0)] :=
          ownHandles_of_destroy (initialised bufferSize (.other 0)).startListener rest hstray.1
        exact absurd hown.1 List.not_mem_nil
  · rintro ⟨rest, rfl, hrest⟩ memory unknown
    have hholds := (holds_listenAsync hbuffer memory).run rest
    rw [List.count_eq_zero.mpr hrest] at hholds
    exact (hholds.leaves_iff unknown).mpr rfl

theorem leavesNoThread_iff_example :
    (∀ memory unknown, LeavesNoThread 512 memory unknown [.listenAsync, .stopListener]) ↔
      ∃ rest, [ListenerOp.listenAsync, .stopListener] = .listenAsync :: rest ∧ .listenAsync ∉ rest :=
  leavesNoThread_iff (by decide) _

/-- Destroyed without ever having listened, the socket may end a thread that is not its own. -/
theorem unused_socket_ends_a_thread :
    ¬∀ memory unknown, LeavesNoThread 512 memory unknown [] := by
  intro h
  have hstray := h (.other 0) (fun _ => stillActive)
  exact absurd hstray.1.1 List.not_mem_nil

end H1Z1Server
