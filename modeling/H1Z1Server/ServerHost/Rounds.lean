import H1Z1Server.Library.Lifecycle
import H1Z1Server.Library.Outcome
import H1Z1Server.ServerHost.Tables

/-! What one round of the server loop comes to: the data it takes from the tables, and what it does to
the manager of its folder. -/
namespace H1Z1Server
open ServerHost Outcome Lifecycle

variable {host host' host'' : Host} {what : String} {fields : List Field}

namespace HostEvent

def Closes (e : HostEvent) : Prop := e = close ∨ e = delete

def Uses (e : HostEvent) : Prop := ∃ op, e = uses op

theorem print_not_closes (line : String) : ¬(print line).Closes := by simp [Closes]

theorem uses_not_closes (op : LuaManager.Operation) : ¬(uses op).Closes := by simp [Closes]

end HostEvent

/-- The manager is open, and only more has happened to it. -/
structure Proceeds (host host' : Host) : Prop where
  servers : host'.servers = host.servers
  environments : host'.environments = host.environments
  closed : host'.closed = false
  events : ∃ new, host'.events = host.events ++ new ∧ ∀ e ∈ new, ¬e.Closes

theorem Proceeds.trans (h : Proceeds host host') (h' : Proceeds host' host'') : Proceeds host host'' := by
  obtain ⟨new, hnew, hopen⟩ := h.events
  obtain ⟨new', hnew', hopen'⟩ := h'.events
  refine ⟨h'.servers.trans h.servers, h'.environments.trans h.environments, h'.closed, new ++ new', ?_, ?_⟩
  · simp [hnew, hnew']
  · intro e he
    exact (List.mem_append.mp he).elim (hopen e) (hopen' e)

theorem Proceeds.refl (hopen : host.closed = false) : Proceeds host host :=
  ⟨rfl, rfl, hopen, [], by simp, fun e he => absurd he List.not_mem_nil⟩

/-- One event that does not close the manager. -/
theorem proceeds_event (hopen : host.closed = false) {e : HostEvent} (he : ¬e.Closes) :
    Proceeds host { host with events := host.events ++ [e] } :=
  ⟨rfl, rfl, hopen, [e], rfl, by simpa using he⟩

/-- The manager has been closed. -/
def Shut (host host' : Host) : Prop :=
  host'.closed = true ∧ ∃ before c between, host'.events = host.events ++ (before ++ c :: between) ∧
    HostEvent.Closes c

/-- The manager was used after it had been closed. -/
def Misused (host host' : Host) : Prop :=
  ∃ new, host'.events = host.events ++ new ∧ ¬Orderly HostEvent.Closes HostEvent.Uses new

theorem Proceeds.shut (h : Proceeds host host') (hshut : Shut host' host'') : Shut host host'' := by
  obtain ⟨new, hnew, -⟩ := h.events
  obtain ⟨hclosed, before, c, between, hevents, hc⟩ := hshut
  exact ⟨hclosed, new ++ before, c, between, by simp [hevents, hnew], hc⟩

theorem Proceeds.misused (h : Proceeds host host') (hmisused : Misused host' host'') : Misused host host'' := by
  obtain ⟨new, hnew, hopen⟩ := h.events
  obtain ⟨new', hnew', hbad⟩ := hmisused
  refine ⟨new ++ new', by simp [hnew, hnew'], fun horderly => hbad ?_⟩
  rintro before after rfl ⟨e, hbefore, hcloses⟩
  exact horderly (new ++ before) after (by simp) ⟨e, List.mem_append_right new hbefore, hcloses⟩

theorem print_ends (hopen : host.closed = false) (line : String) :
    Ends ((ServerHost.print line).run host) (fun _ => Proceeds host) (fun _ _ => False) :=
  proceeds_event hopen (HostEvent.print_not_closes line)

theorem use_ends (hopen : host.closed = false) (op : LuaManager.Operation) :
    Ends ((use op).run host) (fun _ => Proceeds host) (fun _ _ => False) := by
  have hrun : (use op).run host = .ok () { host with events := host.events ++ [.uses op] } := by
    simp [use, emit, hopen]
  rw [hrun]
  exact proceeds_event hopen (HostEvent.uses_not_closes op)

/-- To use a closed manager is a misuse. -/
theorem use_misuses (hshut : Shut host host') (op : LuaManager.Operation) :
    Ends ((use op).run host') (fun _ _ => False)
      (fun e host'' => e = .undefinedBehaviour ∧ Misused host host'') := by
  obtain ⟨hclosed, before, c, between, hevents, hc⟩ := hshut
  have hrun : (use op).run host' =
      .error .undefinedBehaviour { host' with events := host'.events ++ [.uses op] } := by
    simp [use, emit, hclosed]
  rw [hrun]
  refine ⟨rfl, before ++ c :: between ++ .uses op :: [], ?_, not_orderly hc ⟨op, rfl⟩⟩
  simp [hevents]

theorem closeAndDelete_ends :
    Ends ((closeAndDelete []).run host) (fun _ => Shut host) (fun _ _ => False) := by
  refine ⟨rfl, [], .close, [.delete], ?_, .inl rfl⟩
  simp

/-- The loop over a table has gathered its data, or has closed the manager and set `exit`. -/
def Gathered (host : Host) (data : Option LuaServerData) (r : Bool × ℤ × LuaServerData) (host' : Host) : Prop :=
  (∃ info, data = some info ∧ r.1 = false ∧ r.2.2 = info ∧ Proceeds host host') ∨
    (data = none ∧ r.1 = true ∧ Shut host host')

theorem Proceeds.gathered {data : Option LuaServerData} {r : Bool × ℤ × LuaServerData} (h : Proceeds host host')
    (hgathered : Gathered host' data r host'') : Gathered host data r host'' := by
  obtain ⟨info, hinfo, hexit, hdata, hrest⟩ | ⟨hnone, hexit, hshut⟩ := hgathered
  · exact .inl ⟨info, hinfo, hexit, hdata, h.trans hrest⟩
  · exact .inr ⟨hnone, hexit, h.shut hshut⟩

/-- An ill-typed element closes the manager. -/
theorem refuse_ends (hopen : host.closed = false) (line : String) (current_idx : ℤ) (info : LuaServerData) :
    Ends ((do ServerHost.print line; closeAndDelete []; return (true, current_idx, info) :
        HostM (Bool × ℤ × LuaServerData)).run host) (Gathered host none) (fun _ _ => False) := by
  apply Ends.after (print_ends hopen line)
  intro _ host₁ h₁
  apply Ends.after closeAndDelete_ends
  intro _ host₂ hshut
  exact .inr ⟨rfl, rfl, h₁.shut hshut⟩

/-- The loop over a table gathers its data, or closes the manager. -/
theorem readElements_ends (elements : Elements) (current_idx : ℤ) (info : LuaServerData)
    (hopen : host.closed = false) :
    Ends ((readElements what fields elements current_idx info).run host)
      (Gathered host (gather fields elements info)) (fun _ _ => False) := by
  induction elements generalizing current_idx info host with
  | nil =>
    apply Ends.after (use_ends hopen _)
    intro _ host' hnext
    exact .inl ⟨info, rfl, rfl, rfl, hnext⟩
  | cons element rest ih =>
    obtain ⟨key, value⟩ := element
    unfold readElements
    apply Ends.after (use_ends hopen _)
    intro _ host₁ h₁
    apply Ends.after (use_ends h₁.closed _)
    intro _ host₂ h₂
    have hstart := h₁.trans h₂
    cases key with
    | string k =>
      apply Ends.after (use_ends h₂.closed _)
      intro _ host₃ h₃
      have hkey := hstart.trans h₃
      cases hfield : fields.find? (·.key = k) with
      | none =>
        apply Ends.after (print_ends h₃.closed _)
        intro _ host₄ h₄
        exact .inl ⟨info, by simp only [gather, hfield], rfl, rfl, hkey.trans h₄⟩
      | some field =>
        apply Ends.after (use_ends h₃.closed _)
        intro _ host₄ h₄
        have htype := hkey.trans h₄
        have hgather : gather fields ((.string k, value) :: rest) info =
            (field.store value info).bind (gather fields rest) := by
          simp only [gather, hfield]
        rw [hgather]
        cases hstore : field.store value info with
        | none => exact (refuse_ends h₄.closed _ _ _).mono_ok fun _ _ => htype.gathered
        | some info' =>
          apply Ends.after (use_ends h₄.closed _)
          intro _ host₅ h₅
          exact (ih (current_idx + 1) info' h₅.closed).mono_ok fun _ _ => (htype.trans h₅).gathered
    | _ => exact (refuse_ends h₂.closed _ _ _).mono_ok fun _ _ => hstart.gathered

theorem closeReader_ends (current_idx : ℤ) (hopen : host.closed = false) :
    Ends ((closeReader current_idx).run host) (fun _ => Proceeds host) (fun _ _ => False) := by
  unfold closeReader
  refine ends_ite (fun _ => ?_) fun _ => use_ends hopen _
  apply Ends.after (use_ends hopen _)
  intro _ host₁ h₁
  exact (use_ends h₁.closed _).mono_ok fun _ _ h₂ => h₁.trans h₂

/-- A reader whose manager has been closed is closed all the same. -/
theorem closeReader_misuses (current_idx : ℤ) (hshut : Shut host host') :
    Ends ((closeReader current_idx).run host') (fun _ _ => False)
      (fun e host'' => e = .undefinedBehaviour ∧ Misused host host'') := by
  unfold closeReader
  refine ends_ite (fun _ => ?_) fun _ => use_misuses hshut _
  exact Ends.seq (use_misuses hshut _) fun _ _ => False.elim

/-- The outcome of reading a table, for the data that it has. -/
def Reads (host : Host) (data : Option LuaServerData) (r : EStateM.Result Abort Host (Option LuaServerData)) :
    Prop :=
  Ends r (fun info host' => data ≠ none ∧ info = data ∧ Proceeds host host')
    (fun e host' => data = none ∧ e = .undefinedBehaviour ∧ Misused host host')

theorem readTable_reads (elements : Elements) (info : LuaServerData) (hopen : host.closed = false) :
    Reads host (gather fields elements info) ((readTable what fields elements info).run host) := by
  unfold readTable
  apply Ends.after (use_ends hopen _)
  intro _ host₁ h₁
  apply Ends.after (readElements_ends elements (-1) info h₁.closed)
  rintro ⟨exit, current_idx, info'⟩ host₂ (⟨_, hinfo, hexit, hdata, h₂⟩ | ⟨hnone, -, hshut⟩)
  · apply Ends.after (closeReader_ends current_idx h₂.closed)
    intro _ host₃ h₃
    apply Ends.after (use_ends h₃.closed _)
    intro _ host₄ h₄
    simp only [hinfo, ← hdata, show exit = false from hexit]
    exact ⟨Option.some_ne_none _, rfl, ((h₁.trans h₂).trans h₃).trans h₄⟩
  · apply Ends.bind
    apply (closeReader_misuses current_idx (h₁.shut hshut)).mono fun _ _ => False.elim
    exact fun _ _ he => ⟨hnone, he⟩

/-- The data with the name of the config file, from what the main script returned. -/
def serverInfoOf : ScriptValue → Option LuaServerData
  | .table elements => (gather serverInfoFields elements noData).map fun info =>
      if info.configFile.isEmpty then { info with configFile := configFileName } else info
  | .other _ => some { noData with configFile := configFileName }

theorem readServerInfo_reads (value : ScriptValue) (hopen : host.closed = false) :
    Reads host (serverInfoOf value) ((readServerInfo value).run host) := by
  cases value with
  | table elements =>
    apply Ends.bind
    apply (readTable_reads elements noData hopen).mono
    · rintro _ host' ⟨hdata, rfl, hnext⟩
      exact ⟨by simpa [serverInfoOf] using hdata, rfl, hnext⟩
    · rintro e host' ⟨hdata, he⟩
      exact ⟨by simp [serverInfoOf, hdata], he⟩
  | other typename => exact ⟨Option.some_ne_none _, rfl, .refl hopen⟩

/-- The ways a round ends. -/
inductive Round where
  | passed
  | hosted (info : LuaServerData)
  | misused
  | aborted
  deriving DecidableEq

/-- The end of the second half of a round, from what its config script comes to. -/
def configRound (config : Script) (info : LuaServerData) : Round :=
  match LuaManager.requireFile config with
  | .ok (.ok (.table elements)) =>
    match gather configFields elements info with
    | none => .misused
    | some info => .hosted info
  | _ => .aborted

/-- The end of a round, from what its scripts come to. -/
def round (folder : ServerFolder) : Round :=
  if folder.hasMain then
    match LuaManager.requireFile folder.main with
    | .error _ => .aborted
    | .ok (.error _) => if folder.main.made.all Finalizer.returns then .passed else .aborted
    | .ok (.ok result) =>
      match serverInfoOf result with
      | none => .misused
      | some info => configRound folder.config info
  else .passed

/-- What happened since, and whether the manager was used only while it was open. -/
def Happened (host host' : Host) (orderly : Prop) : Prop :=
  ∃ new, host'.events = host.events ++ new ∧
    (Orderly HostEvent.Closes HostEvent.Uses new ↔ orderly)

/-- The outcome of a round: the host goes on with one more server or none, or the loop is left. -/
def Rounds (host : Host) (folder : ServerFolder) (r : EStateM.Result Abort Host Unit) : Prop :=
  Ends r
    (fun _ host' => Happened host host' True ∧
      ((round folder = .passed ∧ host'.servers = host.servers ∧ host'.environments = host.environments) ∨
        ∃ info, round folder = .hosted info ∧ host'.servers = host.servers ++ [info] ∧
          host'.environments = host.environments ++ [folder.folderName]))
    (fun _ host' => (round folder = .misused ∧ Happened host host' False) ∨
      (round folder = .aborted ∧ Happened host host' True))

theorem Proceeds.happened (h : Proceeds host host') : Happened host host' True := by
  obtain ⟨new, hnew, hopen⟩ := h.events
  exact ⟨new, hnew, iff_true_intro (orderly_of_open hopen)⟩

theorem Misused.happened (h : Misused host host') : Happened host host' False := by
  obtain ⟨new, hnew, hbad⟩ := h
  exact ⟨new, hnew, iff_false_intro hbad⟩

/-- A manager may be closed when it is used no more, if the finalizers of its state return. -/
theorem Proceeds.closeAndDelete (h : Proceeds host host') (finalizers : List Finalizer) :
    Ends ((closeAndDelete finalizers).run host')
      (fun _ host'' => finalizers.all Finalizer.returns = true ∧ Happened host host'' True ∧
        host''.servers = host.servers ∧ host''.environments = host.environments)
      (fun _ host'' => finalizers.all Finalizer.returns = false ∧ Happened host host'' True) := by
  obtain ⟨new, hnew, hopen⟩ := h.events
  unfold ServerHost.closeAndDelete
  rw [← LuaManager.close_eq_ok_iff, ← Bool.not_eq_true, ← LuaManager.close_eq_ok_iff]
  cases LuaManager.close finalizers with
  | ok _ =>
    have hunused : ∀ e ∈ [HostEvent.close, .delete], ¬e.Uses := by simp [HostEvent.Uses]
    refine ⟨rfl, ⟨new ++ [.close, .delete], ?_, iff_true_intro ((orderly_of_open hopen).append hunused)⟩,
      h.servers, h.environments⟩
    simp [hnew]
  | error e =>
    have hunused : ∀ e ∈ [HostEvent.close], ¬e.Uses := by simp [HostEvent.Uses]
    refine ⟨nofun, new ++ [.close], ?_, iff_true_intro ((orderly_of_open hopen).append hunused)⟩
    simp [hnew]

theorem configure_rounds {folder : ServerFolder} {info : LuaServerData} (h : Proceeds host host')
    (hround : round folder = configRound folder.config info) :
    Rounds host folder ((configure folder info).run host') := by
  unfold configure
  apply Ends.after (use_ends h.closed _)
  intro _ host₁ h₁
  unfold configRound at hround
  rcases hconfig : LuaManager.requireFile folder.config with e | message | result
  · rw [hconfig] at hround
    exact .inr ⟨hround, (h.trans h₁).happened⟩
  · rw [hconfig] at hround
    apply Ends.after (use_ends h₁.closed _)
    intro _ host₂ h₂
    exact .inr ⟨hround, ((h.trans h₁).trans h₂).happened⟩
  · cases result with
    | other typename =>
      rw [hconfig] at hround
      exact .inr ⟨hround, (h.trans h₁).happened⟩
    | table elements =>
      simp only [hconfig] at hround
      apply Ends.bind
      apply (readTable_reads elements info h₁.closed).mono
      · rintro _ host₂ ⟨hsome, rfl, h₂⟩
        cases hdata : gather configFields elements info with
        | none => exact absurd hdata hsome
        | some data =>
          simp only [hdata] at hround
          have hnext := (h.trans h₁).trans h₂
          have hlast : Proceeds host { host₂ with
              events := host₂.events ++
                [.print ("[LuaSystem]: Successfully ran server '" ++ mainFileName ++ "'.\n\n")] } :=
            hnext.trans (proceeds_event hnext.closed (HostEvent.print_not_closes _))
          refine ⟨hlast.happened, .inr ⟨data, hround, ?_, ?_⟩⟩
          · exact congrArg (· ++ [data]) hnext.servers
          · exact congrArg (· ++ [folder.folderName]) hnext.environments
      · rintro e host₂ ⟨hnone, -, hmisused⟩
        simp only [hnone] at hround
        exact .inl ⟨hround, ((h.trans h₁).misused hmisused).happened⟩

/-- What one round of the loop does. -/
theorem runServer_rounds (folder : ServerFolder) (host : Host) :
    Rounds host folder ((runServer folder).run host) := by
  unfold runServer
  refine ends_ite (fun hmain => ?_) fun hmain => ?_
  · have hnone : folder.hasMain = false := by simpa using hmain
    refine ⟨⟨[_], rfl, iff_true_intro (orderly_of_open ?_)⟩, .inl ⟨?_, rfl, rfl⟩⟩
    · simpa using HostEvent.print_not_closes _
    · simp [round, hnone]
  have hsome : folder.hasMain = true := by simpa using hmain
  apply Ends.bind
  -- a new manager is open, whatever became of the last one
  have hnew : ∀ line, Ends (newManager.run { host with events := host.events ++ [.print line] })
      (fun _ => Proceeds host) (fun _ _ => False) :=
    fun line => ⟨rfl, rfl, rfl, [.print line], rfl, by simpa using HostEvent.print_not_closes line⟩
  apply Ends.after (hnew _)
  intro _ host₀ h₀
  apply Ends.after (use_ends h₀.closed _)
  intro _ host₁ h₁
  apply Ends.after (use_ends h₁.closed _)
  intro _ host₂ h₂
  apply Ends.after (use_ends h₂.closed _)
  intro _ host₃ h₃
  apply Ends.after (use_ends h₃.closed _)
  intro _ host₄ h₄
  apply Ends.after (print_ends h₄.closed _)
  intro _ host₅ h₅
  apply Ends.after (use_ends h₅.closed _)
  intro _ host₆ h₆
  have hready := ((((h₀.trans h₁).trans h₂).trans h₃).trans h₄).trans (h₅.trans h₆)
  rcases hscript : LuaManager.requireFile folder.main with e | message | result
  · exact .inr ⟨by simp [round, hsome, hscript], hready.happened⟩
  · apply Ends.after (use_ends h₆.closed _)
    intro _ host₇ h₇
    apply Ends.after (print_ends h₇.closed _)
    intro _ host₈ h₈
    apply (((hready.trans h₇).trans h₈).closeAndDelete folder.main.made).mono
    · rintro _ host₉ ⟨hfree, hhappened, hsame⟩
      exact ⟨hhappened, .inl ⟨by simp only [round, hsome, hscript, hfree, if_true], hsame⟩⟩
    · rintro _ host₉ ⟨hcalled, hhappened⟩
      exact .inr ⟨by simp only [round, hsome, hscript, hcalled, if_true, Bool.false_eq_true, if_false], hhappened⟩
  · apply Ends.after (use_ends h₆.closed _)
    intro _ host₇ h₇
    apply Ends.bind
    apply (readServerInfo_reads result h₇.closed).mono
    · rintro _ host₈ ⟨hdata, rfl, h₈⟩
      cases hinfo : serverInfoOf result with
      | none => exact absurd hinfo hdata
      | some info =>
        have hround : round folder = configRound folder.config info := by
          simp [round, hsome, hscript, hinfo]
        exact configure_rounds ((hready.trans h₇).trans h₈) hround
    · rintro e host₈ ⟨hnone, -, hmisused⟩
      have hround : round folder = .misused := by simp [round, hsome, hscript, hnone]
      exact .inl ⟨hround, ((hready.trans h₇).misused hmisused).happened⟩

end H1Z1Server
