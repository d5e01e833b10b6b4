import H1Z1Server.ServerHost.Rounds

/-! Which folders the server loop survives, and when a round uses a manager that it has closed. -/
namespace H1Z1Server
open ServerHost Outcome Lifecycle

variable {host : Host} {folder : ServerFolder} {folders : List ServerFolder}

/-- In what happens to the manager of a round, no use follows its closing. -/
def ClosedUnused (folder : ServerFolder) : Prop :=
  ∀ host, Ends ((runServer folder).run host) (fun _ host' => Happened host host' True)
    (fun _ host' => Happened host host' True)

theorem Happened.unique {host' : Host} {p q : Prop} (h : Happened host host' p) (h' : Happened host host' q) :
    p ↔ q := by
  obtain ⟨new, hnew, hp⟩ := h
  obtain ⟨new', hnew', hq⟩ := h'
  have hsame : new = new' := List.append_cancel_left (hnew.symm.trans hnew')
  exact hp.symm.trans (hsame ▸ hq)

theorem closedUnused_iff_round (folder : ServerFolder) : ClosedUnused folder ↔ round folder ≠ .misused := by
  constructor
  · intro hunused hmisused
    have hrounds := runServer_rounds folder ⟨[], [], false, []⟩
    have hends := hunused ⟨[], [], false, []⟩
    cases hrun : (runServer folder).run ⟨[], [], false, []⟩ with
    | ok _ host' =>
      rw [hrun] at hrounds
      rcases hrounds with ⟨-, ⟨hpassed, -⟩ | ⟨info, hhosted, -⟩⟩
      · simp [hpassed] at hmisused
      · simp [hhosted] at hmisused
    | error e host' =>
      rw [hrun] at hrounds hends
      rcases hrounds with ⟨-, hbad⟩ | ⟨haborted, -⟩
      · exact (hends.unique hbad).mp trivial
      · simp [haborted] at hmisused
  · intro hround host
    apply (runServer_rounds folder host).mono
    · exact fun _ _ h => h.1
    · rintro e host' (⟨hmisused, -⟩ | ⟨-, hfine⟩)
      · exact absurd hmisused hround
      · exact hfine

theorem configRound_misused_iff (config : Elements) (info : LuaServerData) :
    configRound (.returns (.table config)) info = .misused ↔ MeetsIllTyped configFields config := by
  have hmeets : gather configFields config info = none ↔ MeetsIllTyped configFields config :=
    gather_eq_none_iff
  rw [← hmeets]
  unfold configRound LuaManager.requireFile
  cases hconfig : gather configFields config info with
  | none => simp [hconfig]
  | some data => simp [hconfig]

theorem round_misused_iff (folderName : String) (info config : Elements) :
    round ⟨folderName, true, .returns (.table info), .returns (.table config)⟩ = .misused ↔
      MeetsIllTyped serverInfoFields info ∨ MeetsIllTyped configFields config := by
  have hinfo : gather serverInfoFields info noData = none ↔ MeetsIllTyped serverInfoFields info :=
    gather_eq_none_iff
  unfold round LuaManager.requireFile
  cases hgather : gather serverInfoFields info noData with
  | none => simp [serverInfoOf, hgather, ← hinfo]
  | some data =>
    have hnot : ¬MeetsIllTyped serverInfoFields info := by simp [← hinfo, hgather]
    simp [serverInfoOf, hgather, hnot, configRound_misused_iff]

/-- A closed manager is left alone exactly if neither table has an ill-typed element that no unknown key
stands before. -/
theorem closed_manager_unused_iff (folderName : String) (info config : Elements) :
    ClosedUnused ⟨folderName, true, .returns (.table info), .returns (.table config)⟩ ↔
      ¬MeetsIllTyped serverInfoFields info ∧ ¬MeetsIllTyped configFields config := by
  rw [closedUnused_iff_round, ne_eq, round_misused_iff, not_or]

/-- A number for the config file: the manager is closed, and its reader then closed with it. -/
theorem closed_manager_used :
    ¬ClosedUnused ⟨"Login", true, .returns (.table [(.string "ConfigFile", .number 5)]),
      .returns (.table [])⟩ := by
  rw [closedUnused_iff_round]
  exact fun h => h rfl

/-- The servers that should run: both scripts succeed, and the tables they return are well-typed. -/
def ServerFolder.healthy (folder : ServerFolder) : Bool :=
  folder.hasMain &&
    (match LuaManager.requireFile folder.main with
      | .ok (.ok (.table info)) => info.all (fits serverInfoFields)
      | .ok (.ok (.other _)) => true
      | _ => false) &&
    match LuaManager.requireFile folder.config with
    | .ok (.ok (.table config)) => config.all (fits configFields)
    | _ => false

/-- The script fails, with an error that Lua has caught, and what it has made before can be finalized. -/
def Script.failsAlone : Script → Bool
  | .missing | .compileError _ => true
  | .runError _ made => made.all Finalizer.returns
  | _ => false

def ServerFolder.hosted (folder : ServerFolder) : Bool :=
  match round folder with
  | .hosted _ => true
  | _ => false

/-- The globals before the loop. -/
def noServers : Host := ⟨[], [], false, []⟩

/-- The loop ends normally, with the healthy servers and their environments in the order of the folders. -/
def HostsHealthy (folders : List ServerFolder) : Prop :=
  ∃ host, (runServers folders).run noServers = .ok () host ∧
    host.environments = (folders.filter ServerFolder.healthy).map ServerFolder.folderName ∧
    List.Forall₂ (fun folder info => round folder = .hosted info) (folders.filter ServerFolder.healthy)
      host.servers ∧
    host.servers.length = host.environments.length

/-- A healthy server is hosted. -/
theorem ServerFolder.hosted_of_healthy (h : folder.healthy = true) : folder.hosted = true := by
  simp only [healthy, Bool.and_eq_true] at h
  obtain ⟨⟨hmain, hinfo⟩, hconfig⟩ := h
  have hround : ∀ info, ∃ data, configRound folder.config info = .hosted data := by
    intro info
    rcases hscript : LuaManager.requireFile folder.config with e | message | result
    · simp [hscript] at hconfig
    · simp [hscript] at hconfig
    · cases result with
      | other typename => simp [hscript] at hconfig
      | table config =>
        simp only [hscript] at hconfig
        obtain ⟨data, hdata⟩ := gather_of_all hconfig info
        exact ⟨data, by simp [configRound, hscript, hdata]⟩
  have hserver : ∃ result info, LuaManager.requireFile folder.main = .ok (.ok result) ∧
      serverInfoOf result = some info := by
    rcases hscript : LuaManager.requireFile folder.main with e | message | result
    · simp [hscript] at hinfo
    · simp [hscript] at hinfo
    · cases result with
      | other typename => exact ⟨_, _, rfl, rfl⟩
      | table elements =>
        simp only [hscript] at hinfo
        obtain ⟨info, hgather⟩ := gather_of_all hinfo noData
        obtain ⟨info', hinfo'⟩ : ∃ info', serverInfoOf (.table elements) = some info' := by
          simp [serverInfoOf, hgather]
        exact ⟨_, info', rfl, hinfo'⟩
  obtain ⟨result, info, hscript, hsome⟩ := hserver
  obtain ⟨data, hdata⟩ := hround info
  simp [hosted, round, hmain, hscript, hsome, hdata]

theorem ServerFolder.not_hosted_of_passed (h : round folder = .passed) : folder.hosted = false := by
  simp [hosted, h]

/-- What the loop does: it hosts the folders whose round hosts them, if no round leaves it. -/
theorem runServers_ends (folders : List ServerFolder) (host : Host) :
    Ends ((runServers folders).run host)
      (fun _ host' => (∀ folder ∈ folders, round folder = .passed ∨ folder.hosted = true) ∧
        host'.environments =
          host.environments ++ (folders.filter ServerFolder.hosted).map ServerFolder.folderName ∧
        ∃ infos, host'.servers = host.servers ++ infos ∧
          List.Forall₂ (fun folder info => round folder = .hosted info)
            (folders.filter ServerFolder.hosted) infos)
      (fun _ _ => ∃ folder ∈ folders, round folder = .misused ∨ round folder = .aborted) := by
  induction folders generalizing host with
  | nil => exact ⟨fun f hf => absurd hf List.not_mem_nil, by simp, [], by simp, .nil⟩
  | cons folder folders ih =>
    unfold runServers
    rw [List.forM_eq_forM, List.forM_cons, ← List.forM_eq_forM]
    apply Ends.bind
    apply (runServer_rounds folder host).mono
    · rintro _ host₁ ⟨-, hround⟩
      apply (ih host₁).mono
      · rintro _ host₂ ⟨hrest, henv, infos, hservers, hall⟩
        rcases hround with ⟨hpassed, hservers₁, henv₁⟩ | ⟨info, hhosted, hservers₁, henv₁⟩
        · have hnot := ServerFolder.not_hosted_of_passed hpassed
          refine ⟨List.forall_mem_cons.mpr ⟨.inl hpassed, hrest⟩, ?_, infos, ?_, ?_⟩
          · simp [henv, henv₁, hnot]
          · simp [hservers, hservers₁]
          · simpa [hnot] using hall
        · have hyes : folder.hosted = true := by simp [ServerFolder.hosted, hhosted]
          refine ⟨List.forall_mem_cons.mpr ⟨.inr hyes, hrest⟩, ?_, info :: infos, ?_, ?_⟩
          · simp [henv, henv₁, hyes]
          · simp [hservers, hservers₁]
          · simpa [hyes] using ⟨hhosted, hall⟩
      · rintro e host₂ ⟨bad, hbad, hround⟩
        exact ⟨bad, List.mem_cons_of_mem folder hbad, hround⟩
    · rintro e host₁ (⟨hmisused, -⟩ | ⟨haborted, -⟩)
      · exact ⟨folder, List.mem_cons_self, .inl hmisused⟩
      · exact ⟨folder, List.mem_cons_self, .inr haborted⟩

theorem configRound_not_passed (config : Script) (info : LuaServerData) :
    configRound config info ≠ .passed := by
  unfold configRound
  split
  · split <;> simp
  · simp

theorem round_passed_iff :
    round folder = .passed ↔ folder.hasMain = false ∨ folder.main.failsAlone = true := by
  unfold round
  cases hmain : folder.hasMain with
  | false => simp
  | true =>
    cases hscript : folder.main with
    | runError message made =>
      cases hmade : made.all Finalizer.returns <;>
        simp only [LuaManager.requireFile, Script.failsAlone, Script.made, hmade] <;> simp
    | returns result =>
      cases hinfo : serverInfoOf result with
      | none => simp [LuaManager.requireFile, Script.failsAlone, hinfo]
      | some info =>
        simp [LuaManager.requireFile, Script.failsAlone, hinfo, configRound_not_passed folder.config info]
    | _ => simp [LuaManager.requireFile, Script.failsAlone, Script.made]

/-- If every other folder is passed over, the loop hosts the healthy ones. -/
theorem filter_hosted (h : ∀ folder ∈ folders, round folder = .passed ∨ folder.healthy = true) :
    folders.filter ServerFolder.hosted = folders.filter ServerFolder.healthy := by
  apply List.filter_congr
  intro folder hmem
  rcases h folder hmem with hpassed | hhealthy
  · have hnot := ServerFolder.not_hosted_of_passed hpassed
    have hill : folder.healthy = false := by
      by_contra hyes
      simp [ServerFolder.hosted_of_healthy (Bool.not_eq_false _ ▸ hyes)] at hnot
    rw [hnot, hill]
  · rw [hhealthy, ServerFolder.hosted_of_healthy hhealthy]

/-- The loop hosts the healthy servers exactly if every other folder has no main file, or a main script that
fails with an error of Lua and has made nothing that cannot be finalized: all else takes the host down, or is
hosted all the same. -/
theorem servers_hosted_iff (folders : List ServerFolder) :
    HostsHealthy folders ↔ ∀ folder ∈ folders, folder.hasMain = false ∨
      folder.main.failsAlone = true ∨ folder.healthy = true := by
  have hends := runServers_ends folders noServers
  constructor
  · rintro ⟨host, hrun, henv, -, -⟩
    rw [hrun] at hends
    obtain ⟨hrounds, henv', -⟩ := hends
    have hlen : (folders.filter ServerFolder.healthy).length = (folders.filter ServerFolder.hosted).length := by
      have hcount := congrArg List.length (henv.symm.trans henv')
      simpa [noServers] using hcount
    have hsub : (folders.filter ServerFolder.healthy).Sublist (folders.filter ServerFolder.hosted) :=
      List.monotone_filter_right folders fun folder => ServerFolder.hosted_of_healthy
    have hsame := hsub.eq_of_length hlen
    intro folder hmem
    rcases hrounds folder hmem with hpassed | hhosted
    · rw [← or_assoc]
      exact .inl (round_passed_iff.mp hpassed)
    · have hin : folder ∈ folders.filter ServerFolder.hosted := List.mem_filter.mpr ⟨hmem, hhosted⟩
      rw [← hsame] at hin
      exact .inr (.inr (List.mem_filter.mp hin).2)
  · intro hall
    have hround : ∀ folder ∈ folders, round folder = .passed ∨ folder.healthy = true := by
      intro folder hmem
      rw [round_passed_iff, or_assoc]
      exact hall folder hmem
    have hsame := filter_hosted hround
    cases hrun : (runServers folders).run noServers with
    | ok _ host =>
      rw [hrun, hsame] at hends
      obtain ⟨-, henv, infos, hservers, hinfos⟩ := hends
      have hservers' : host.servers = infos := hservers
      refine ⟨host, hrun, henv, hservers' ▸ hinfos, ?_⟩
      rw [hservers', henv, List.length_append, List.length_map, hinfos.length_eq]
      exact (Nat.zero_add _).symm
    | error e host =>
      rw [hrun] at hends
      obtain ⟨folder, hmem, hbad⟩ := hends
      rcases hround folder hmem with hpassed | hhealthy
      · simp [hpassed] at hbad
      · have hhosted := ServerFolder.hosted_of_healthy hhealthy
        rcases hbad with hbad | hbad <;> simp [ServerFolder.hosted, hbad] at hhosted

/-- A config script that returns nothing: the reader throws, and the server behind it is never run. -/
theorem config_exception_ends_loop :
    ¬HostsHealthy [⟨"Login", true, .returns (.other "nil"), .returns (.other "nil")⟩,
      ⟨"Zone", true, .returns (.other "nil"), .returns (.table [])⟩] := by
  rintro ⟨host, hrun, -⟩
  have hends := runServers_ends [⟨"Login", true, .returns (.other "nil"), .returns (.other "nil")⟩,
    ⟨"Zone", true, .returns (.other "nil"), .returns (.table [])⟩] noServers
  rw [hrun] at hends
  exact absurd (hends.1 _ List.mem_cons_self) (by decide)

end H1Z1Server
