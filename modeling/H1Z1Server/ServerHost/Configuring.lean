import H1Z1Server.ServerHost.Rounds

/-! The data that a server is appended with, and the orders in which its tables may be enumerated. -/
namespace H1Z1Server
open ServerHost Outcome

variable {elements elements' rest : Elements} {info info' data : LuaServerData}

/-- With every key once, an entry is found under its key. -/
theorem lookup_of_mem {α β : Type} [BEq α] [LawfulBEq α] {l : List (α × β)}
    (hnodup : (l.map Prod.fst).Nodup) {a : α} {b : β} (h : (a, b) ∈ l) : l.lookup a = some b := by
  induction l with
  | nil => cases h
  | cons x l ih =>
    rw [List.map_cons, List.nodup_cons] at hnodup
    rcases List.mem_cons.mp h with rfl | hmem
    · exact List.lookup_cons_self
    · obtain ⟨k, b'⟩ := x
      have hne : a ≠ k := by
        have hkeys : a ∈ l.map Prod.fst := List.mem_map_of_mem hmem
        rintro rfl
        exact hnodup.1 hkeys
      have hkey : (a == k) = false := by simpa using hne
      simp [List.lookup_cons, hkey, ih hnodup.2 hmem]

/-- The lookup does not depend on the order. -/
theorem lookup_perm {α β : Type} [BEq α] [LawfulBEq α] {l l' : List (α × β)} (h : l.Perm l')
    (hnodup : (l.map Prod.fst).Nodup) (a : α) : l.lookup a = l'.lookup a := by
  cases hlookup : l.lookup a with
  | none =>
    rw [List.lookup_eq_none_iff] at hlookup
    symm
    rw [List.lookup_eq_none_iff]
    exact fun p hp => hlookup p (h.mem_iff.mpr hp)
  | some b =>
    obtain ⟨before, after, rfl, -⟩ := List.lookup_eq_some_iff.mp hlookup
    have hmem : (a, b) ∈ l' := h.mem_iff.mp (by simp)
    exact (lookup_of_mem ((h.map Prod.fst).nodup_iff.mp hnodup) hmem).symm

/-- The string that a table has under a key. -/
def entry (elements : Elements) (key : String) : Option String :=
  match elements.lookup (.string key) with
  | some (.string s) => some s
  | _ => none

/-- The number that a table has under `Port`. -/
def portEntry (elements : Elements) : Option Int32 :=
  match elements.lookup (.string "Port") with
  | some (.number n) => some n
  | _ => none

/-- A Lua table, with every key once, that is well-typed. -/
structure WellTyped (fields : List Field) (elements : Elements) : Prop where
  nodup : (elements.map Prod.fst).Nodup
  fits : elements.all (fits fields) = true

/-- No key is unknown. -/
def AllKnown (fields : List Field) (elements : Elements) : Prop :=
  ∀ e ∈ elements, fieldOf fields e ≠ none

/-- The entries of the two tables. -/
def serverData (info config : Elements) : LuaServerData where
  configFile := (entry info "ConfigFile").getD configFileName
  serverName := (entry config "ServerName").getD ""
  host := (entry config "Host").getD ""
  port := portEntry config

/-- In whatever orders its tables are enumerated, the server is appended with their entries. -/
def ConfiguredInAnyOrder (info config : Elements) : Prop :=
  ∀ info' config', info'.Perm info → config'.Perm config → ∀ folderName host,
    ∃ host', (runServer ⟨folderName, true, .returns (.table info'), .returns (.table config')⟩).run host =
        .ok () host' ∧
      host'.servers = host.servers ++ [serverData info config]

theorem WellTyped.perm {fields : List Field} (h : WellTyped fields elements) (hperm : elements'.Perm elements) :
    WellTyped fields elements' := by
  refine ⟨(hperm.map Prod.fst).nodup_iff.mpr h.nodup, List.all_eq_true.mpr fun e he => ?_⟩
  exact List.all_eq_true.mp h.fits e (hperm.mem_iff.mp he)

/-- The key of the first element is in no other, and the others are well-typed too. -/
theorem WellTyped.of_cons {fields : List Field} {e : Element × Element} (h : WellTyped fields (e :: rest)) :
    e.1 ∉ rest.map Prod.fst ∧ H1Z1Server.fits fields e = true ∧ WellTyped fields rest := by
  obtain ⟨hnodup, hfits⟩ := h
  rw [List.map_cons, List.nodup_cons] at hnodup
  rw [List.all_cons, Bool.and_eq_true] at hfits
  exact ⟨hnodup.1, hfits.1, hnodup.2, hfits.2⟩

theorem entry_perm (hperm : elements'.Perm elements) (hnodup : (elements.map Prod.fst).Nodup) (key : String) :
    entry elements' key = entry elements key := by
  rw [entry, entry, lookup_perm hperm.symm hnodup]

theorem portEntry_perm (hperm : elements'.Perm elements) (hnodup : (elements.map Prod.fst).Nodup) :
    portEntry elements' = portEntry elements := by
  rw [portEntry, portEntry, lookup_perm hperm.symm hnodup]

@[simp] theorem entry_cons_self (key s : String) : entry ((.string key, .string s) :: rest) key = some s := by
  simp [entry]

theorem entry_cons_ne {key key' : String} (h : key ≠ key') (value : Element) :
    entry ((.string key', value) :: rest) key = entry rest key := by
  have hkey : (Element.string key == Element.string key') = false := by simpa using h
  simp [entry, List.lookup_cons, hkey]

theorem portEntry_cons_ne {key : String} (h : "Port" ≠ key) (value : Element) :
    portEntry ((.string key, value) :: rest) = portEntry rest := by
  have hkey : (Element.string "Port" == Element.string key) = false := by simpa using h
  simp [portEntry, List.lookup_cons, hkey]

theorem entry_eq_none {key : String} (h : Element.string key ∉ rest.map Prod.fst) : entry rest key = none := by
  have hlookup : rest.lookup (.string key) = none := by
    rw [List.lookup_eq_none_iff]
    intro p hp
    have hne : Element.string key ≠ p.1 := fun heq => h (heq ▸ List.mem_map_of_mem hp)
    simpa using hne
  simp [entry, hlookup]

theorem entry_of_mem {key s : String} (hnodup : (elements.map Prod.fst).Nodup)
    (h : (Element.string key, Element.string s) ∈ elements) : entry elements key = some s := by
  simp [entry, lookup_of_mem hnodup h]

theorem Element.typename_string {e : Element} : e.typename = "string" ↔ ∃ s, e = .string s := by
  cases e <;> simp [typename]

theorem Element.typename_number {e : Element} : e.typename = "number" ↔ ∃ n, e = .number n := by
  cases e <;> simp [typename]

/-- The elements that the loop over a server info stores. -/
theorem serverInfo_known {e : Element × Element} (hfits : fits serverInfoFields e = true)
    (hknown : fieldOf serverInfoFields e ≠ none) :
    ∃ s, e = (.string "ConfigFile", .string s) := by
  obtain ⟨key, value⟩ := e
  cases key with
  | string k =>
    by_cases hk : k = "ConfigFile"
    · subst hk
      have htype : value.typename = "string" := typename_of_fits hfits rfl
      obtain ⟨s, rfl⟩ := Element.typename_string.mp htype
      exact ⟨s, rfl⟩
    · have hne : ¬"ConfigFile" = k := fun h => hk h.symm
      simp [fieldOf, serverInfoFields, stringField, hne] at hknown
  | _ => simp [fieldOf] at hknown

/-- The elements that the loop over a config stores. -/
theorem config_known {e : Element × Element} (hfits : fits configFields e = true)
    (hknown : fieldOf configFields e ≠ none) :
    (∃ s, e = (.string "ServerName", .string s)) ∨ (∃ s, e = (.string "Host", .string s)) ∨
      ∃ n, e = (.string "Port", .number n) := by
  obtain ⟨key, value⟩ := e
  cases key with
  | string k =>
    by_cases hname : k = "ServerName"
    · subst hname
      have htype : value.typename = "string" := typename_of_fits hfits rfl
      obtain ⟨s, rfl⟩ := Element.typename_string.mp htype
      exact .inl ⟨s, rfl⟩
    by_cases hhost : k = "Host"
    · subst hhost
      have htype : value.typename = "string" := typename_of_fits hfits rfl
      obtain ⟨s, rfl⟩ := Element.typename_string.mp htype
      exact .inr (.inl ⟨s, rfl⟩)
    by_cases hport : k = "Port"
    · subst hport
      have htype : value.typename = "number" := typename_of_fits hfits rfl
      obtain ⟨n, rfl⟩ := Element.typename_number.mp htype
      exact .inr (.inr ⟨n, rfl⟩)
    · simp [fieldOf, configFields, stringField, portField, Ne.symm hname, Ne.symm hhost,
        Ne.symm hport] at hknown
  | _ => simp [fieldOf] at hknown

theorem serverInfo_store (s : String) (rest : Elements) (info : LuaServerData) :
    gather serverInfoFields ((.string "ConfigFile", .string s) :: rest) info =
      gather serverInfoFields rest { info with configFile := s } := by
  simp [gather, serverInfoFields, stringField]

theorem serverName_store (s : String) (rest : Elements) (info : LuaServerData) :
    gather configFields ((.string "ServerName", .string s) :: rest) info =
      gather configFields rest { info with serverName := s } := by
  simp [gather, configFields, stringField]

theorem host_store (s : String) (rest : Elements) (info : LuaServerData) :
    gather configFields ((.string "Host", .string s) :: rest) info =
      gather configFields rest { info with host := s } := by
  simp [gather, configFields, stringField]

/-- Without unknown keys the name of the config file is stored, wherever it stands. -/
theorem gather_serverInfo (h : WellTyped serverInfoFields elements) (hknown : AllKnown serverInfoFields elements)
    (info : LuaServerData) :
    gather serverInfoFields elements info =
      some { info with configFile := (entry elements "ConfigFile").getD info.configFile } := by
  induction elements generalizing info with
  | nil => simp [gather, entry]
  | cons e rest ih =>
    obtain ⟨hnew, hfits, hwell⟩ := h.of_cons
    obtain ⟨he, hrest⟩ := List.forall_mem_cons.mp hknown
    obtain ⟨s, rfl⟩ := serverInfo_known hfits he
    rw [serverInfo_store, ih hwell hrest]
    simp [entry_eq_none hnew]

/-- Without unknown keys and a port, the name and the host are stored. -/
theorem gather_config (h : WellTyped configFields elements) (hknown : AllKnown configFields elements)
    (hport : portEntry elements = none) (info : LuaServerData) :
    gather configFields elements info =
      some { info with
        serverName := (entry elements "ServerName").getD info.serverName
        host := (entry elements "Host").getD info.host } := by
  induction elements generalizing info with
  | nil => simp [gather, entry]
  | cons e rest ih =>
    obtain ⟨hnew, hfits, hwell⟩ := h.of_cons
    obtain ⟨he, hrest⟩ := List.forall_mem_cons.mp hknown
    rcases config_known hfits he with ⟨s, rfl⟩ | ⟨s, rfl⟩ | ⟨n, rfl⟩
    · have hport' : portEntry rest = none := by rwa [portEntry_cons_ne (by decide)] at hport
      rw [serverName_store, ih hwell hrest hport', entry_cons_self,
        entry_cons_ne (by decide)]
      simp [entry_eq_none hnew]
    · have hport' : portEntry rest = none := by rwa [portEntry_cons_ne (by decide)] at hport
      rw [host_store, ih hwell hrest hport', entry_cons_self, entry_cons_ne (by decide)]
      simp [entry_eq_none hnew]
    · simp [portEntry] at hport

/-- The data that the two tables give, if no ill-typed element stops the loops. -/
def dataOf (info config : Elements) : Option LuaServerData :=
  (serverInfoOf (.table info)).bind (gather configFields config)

theorem round_hosted_iff (folderName : String) (info config : Elements) :
    round ⟨folderName, true, .returns (.table info), .returns (.table config)⟩ = .hosted data ↔
      dataOf info config = some data := by
  unfold round dataOf LuaManager.requireFile
  cases hinfo : serverInfoOf (.table info) with
  | none => simp [hinfo]
  | some first =>
    cases hconfig : gather configFields config first with
    | none => simp [hinfo, hconfig, configRound, LuaManager.requireFile]
    | some last => simp [hinfo, hconfig, configRound, LuaManager.requireFile]

/-- The server is appended with the data of its tables. -/
theorem appends_iff (folderName : String) (info config : Elements) (host : Host) :
    (∃ host', (runServer ⟨folderName, true, .returns (.table info), .returns (.table config)⟩).run host =
        .ok () host' ∧ host'.servers = host.servers ++ [data]) ↔ dataOf info config = some data := by
  rw [← round_hosted_iff folderName]
  have hrounds := runServer_rounds ⟨folderName, true, .returns (.table info), .returns (.table config)⟩ host
  constructor
  · rintro ⟨host', hrun, hservers⟩
    rw [hrun] at hrounds
    rcases hrounds with ⟨-, ⟨-, hsame, -⟩ | ⟨data', hhosted, hservers', -⟩⟩
    · simp [hsame] at hservers
    · rw [hservers', List.append_cancel_left_eq, List.singleton_inj] at hservers
      rw [hhosted, hservers]
  · intro hhosted
    cases hrun : (runServer ⟨folderName, true, .returns (.table info), .returns (.table config)⟩).run host with
    | ok _ host' =>
      rw [hrun] at hrounds
      rcases hrounds with ⟨-, ⟨hpassed, -⟩ | ⟨data', hhosted', hservers, -⟩⟩
      · simp [hpassed] at hhosted
      · rw [hhosted', Round.hosted.injEq] at hhosted
        exact ⟨host', rfl, hhosted ▸ hservers⟩
    | error e host' =>
      rw [hrun] at hrounds
      rcases hrounds with ⟨hmisused, -⟩ | ⟨haborted, -⟩
      · simp [hmisused] at hhosted
      · simp [haborted] at hhosted

theorem configuredInAnyOrder_iff_dataOf (info config : Elements) :
    ConfiguredInAnyOrder info config ↔ ∀ info' config', info'.Perm info → config'.Perm config →
      dataOf info' config' = some (serverData info config) := by
  constructor
  · intro h info' config' hinfo hconfig
    exact (appends_iff "" info' config' ⟨[], [], false, []⟩).mp (h info' config' hinfo hconfig _ _)
  · intro h info' config' hinfo hconfig folderName host
    exact (appends_iff folderName info' config' host).mpr (h info' config' hinfo hconfig)

/-- What the server info must be for its data not to depend on the order. -/
def InfoStable (info : Elements) : Prop :=
  entry info "ConfigFile" ≠ some "" ∧
    (AllKnown serverInfoFields info ∨ (entry info "ConfigFile").getD configFileName = configFileName)

/-- The same for the config, whose port is never stored. -/
def ConfigStable (config : Elements) : Prop :=
  portEntry config = none ∧
    (AllKnown configFields config ∨
      (entry config "ServerName").getD "" = "" ∧ (entry config "Host").getD "" = "")

theorem configFile_stored {value : Element} {field : Field}
    (h : fieldOf serverInfoFields (.string "ConfigFile", value) = some field) (s : String)
    (info : LuaServerData) : field.store (.string s) info = some { info with configFile := s } := by
  cases h
  rfl

theorem serverName_stored {value : Element} {field : Field}
    (h : fieldOf configFields (.string "ServerName", value) = some field) (s : String)
    (info : LuaServerData) : field.store (.string s) info = some { info with serverName := s } := by
  cases h
  rfl

theorem host_stored {value : Element} {field : Field}
    (h : fieldOf configFields (.string "Host", value) = some field) (s : String)
    (info : LuaServerData) : field.store (.string s) info = some { info with host := s } := by
  cases h
  rfl

theorem portEntry_of_mem {n : Int32} (hnodup : (elements.map Prod.fst).Nodup)
    (h : (Element.string "Port", Element.number n) ∈ elements) : portEntry elements = some n := by
  simp [portEntry, lookup_of_mem hnodup h]

theorem InfoStable.serverInfoOf_eq (h : InfoStable elements) (hwell : WellTyped serverInfoFields elements) :
    serverInfoOf (.table elements) =
      some { noData with configFile := (entry elements "ConfigFile").getD configFileName } := by
  obtain ⟨hne, hknown | hdefault⟩ := h
  · rw [serverInfoOf, gather_serverInfo hwell hknown]
    cases hentry : entry elements "ConfigFile" with
    | none => simp [noData]
    | some s =>
      have hs : s ≠ "" := fun hs => hne (hs ▸ hentry)
      simp [hs]
  · obtain ⟨info, hgather⟩ := gather_of_all hwell.fits noData
    -- whether or not the loop gets to the name, it is the default
    have hinfo : info = noData ∨ info = { noData with configFile := configFileName } := by
      apply gather_preserves (P := fun info =>
        info = noData ∨ info = { noData with configFile := configFileName }) _ hgather (.inl rfl)
      intro e he field hfield info info' hstore hbefore
      have hfits := List.all_eq_true.mp hwell.fits e he
      obtain ⟨s, rfl⟩ := serverInfo_known hfits (by simp [hfield])
      have hs : s = configFileName := by simpa [entry_of_mem hwell.nodup he] using hdefault
      rw [configFile_stored hfield, Option.some.injEq] at hstore
      rcases hbefore with rfl | rfl
      · exact .inr (by rw [← hstore, hs])
      · exact .inr (by rw [← hstore, hs])
    rw [serverInfoOf, hgather, hdefault]
    rcases hinfo with rfl | rfl
    · rfl
    · simp [configFileName]

theorem ConfigStable.gather_eq (h : ConfigStable elements) (hwell : WellTyped configFields elements)
    (hname : info.serverName = "") (hhost : info.host = "") :
    gather configFields elements info =
      some { info with
        serverName := (entry elements "ServerName").getD ""
        host := (entry elements "Host").getD "" } := by
  obtain ⟨hport, hknown | ⟨hname', hhost'⟩⟩ := h
  · rw [gather_config hwell hknown hport, hname, hhost]
  · obtain ⟨info', hgather⟩ := gather_of_all hwell.fits info
    -- what the loop stores, if it gets to it, is what is there already
    have hinfo : info' = info := by
      apply gather_preserves (P := fun info' => info' = info) _ hgather rfl
      rintro e he field hfield _ info' hstore rfl
      have hfits := List.all_eq_true.mp hwell.fits e he
      rcases config_known hfits (by simp [hfield]) with ⟨s, rfl⟩ | ⟨s, rfl⟩ | ⟨n, rfl⟩
      · have hs : s = "" := by simpa [entry_of_mem hwell.nodup he] using hname'
        rw [serverName_stored hfield, Option.some.injEq] at hstore
        rw [← hstore, hs, ← hname]
      · have hs : s = "" := by simpa [entry_of_mem hwell.nodup he] using hhost'
        rw [host_stored hfield, Option.some.injEq] at hstore
        rw [← hstore, hs, ← hhost]
      · simp [portEntry_of_mem hwell.nodup he] at hport
    obtain ⟨configFile, serverName, host, port⟩ := info
    cases hname
    cases hhost
    rw [hgather, hinfo, hname', hhost']

theorem serverInfo_stores {field : Field} (hfield : field ∈ serverInfoFields) {value : Element}
    (hstore : field.store value info = some info') : ∃ s, info' = { info with configFile := s } := by
  rw [serverInfoFields, List.mem_singleton] at hfield
  subst hfield
  cases value <;> simp only [stringField, Option.some.injEq, reduceCtorEq] at hstore
  exact ⟨_, hstore.symm⟩

theorem config_stores {field : Field} (hfield : field ∈ configFields) {value : Element}
    (hstore : field.store value info = some info') :
    ∃ serverName host, info' = { info with serverName, host } := by
  simp only [configFields, List.mem_cons, List.not_mem_nil, or_false] at hfield
  rcases hfield with rfl | rfl | rfl
  · cases value <;> simp only [stringField, Option.some.injEq, reduceCtorEq] at hstore
    exact ⟨_, _, hstore.symm⟩
  · cases value <;> simp only [stringField, Option.some.injEq, reduceCtorEq] at hstore
    exact ⟨_, _, hstore.symm⟩
  · cases value <;> simp only [portField, Option.some.injEq, reduceCtorEq] at hstore
    exact ⟨_, _, hstore.symm⟩

/-- The loop over a server info stores a name for the config file at most. -/
theorem serverInfoOf_gathered (h : serverInfoOf (.table elements) = some info) :
    ∃ s, s ≠ "" ∧ info = { noData with configFile := s } := by
  obtain ⟨first, hgather, rfl⟩ := Option.map_eq_some_iff.mp h
  have hfirst : ∃ s, first = { noData with configFile := s } := by
    apply gather_preserves (P := fun info => ∃ s, info = { noData with configFile := s }) _ hgather ⟨"", rfl⟩
    rintro e he field hfield _ info' hstore ⟨s, rfl⟩
    obtain ⟨s', rfl⟩ := serverInfo_stores (fieldOf_mem hfield) hstore
    exact ⟨s', rfl⟩
  obtain ⟨s, rfl⟩ := hfirst
  by_cases hs : s = ""
  · exact ⟨configFileName, by decide, by simp [hs]⟩
  · exact ⟨s, hs, by simp [hs]⟩

/-- Every store of the config leaves the port and the name of the config file alone. -/
theorem config_gathered (h : gather configFields elements info = some info') :
    info'.configFile = info.configFile ∧ info'.port = info.port := by
  apply gather_preserves (P := fun info' => info'.configFile = info.configFile ∧ info'.port = info.port) _ h
    ⟨rfl, rfl⟩
  rintro e he field hfield _ next hstore hbefore
  obtain ⟨serverName, host, rfl⟩ := config_stores (fieldOf_mem hfield) hstore
  exact hbefore

/-- No server has a port, and none an empty name for its config file. -/
theorem dataOf_gathered {config : Elements} (h : dataOf elements config = some data) :
    data.port = none ∧ data.configFile ≠ "" := by
  obtain ⟨info, hinfo, hconfig⟩ := Option.bind_eq_some_iff.mp h
  obtain ⟨s, hs, rfl⟩ := serverInfoOf_gathered hinfo
  obtain ⟨hfile, hport⟩ := config_gathered hconfig
  exact ⟨hport, by rw [hfile]; exact hs⟩

/-- An unknown key ends the loop over a table. -/
theorem gather_unknown {fields : List Field} {e : Element × Element} (hfits : fits fields e = true)
    (hunknown : fieldOf fields e = none) (rest : Elements) (info : LuaServerData) :
    gather fields (e :: rest) info = some info := by
  have hkey : e.1.typename = "string" := by simpa [fits, hunknown] using hfits
  rw [gather_cons, if_pos hkey, hunknown]

/-- A server info with data that no order changes. -/
theorem infoStable_of_dataOf {config : Elements} (hwell : WellTyped serverInfoFields elements)
    (h : ∀ elements', elements'.Perm elements →
      dataOf elements' config = some (serverData elements config)) : InfoStable elements := by
  have hne := (dataOf_gathered (h elements (.refl elements))).2
  refine ⟨fun hempty => hne (by simp [serverData, hempty]), ?_⟩
  by_cases hknown : AllKnown serverInfoFields elements
  · exact .inl hknown
  -- an order that begins with an unknown key
  simp only [AllKnown, not_forall, not_not] at hknown
  obtain ⟨e, he, hunknown⟩ := hknown
  have hfits := List.all_eq_true.mp hwell.fits e he
  obtain ⟨info, hinfo, hconfig⟩ := Option.bind_eq_some_iff.mp (h _ (List.perm_cons_erase he).symm)
  rw [serverInfoOf, gather_unknown hfits hunknown, Option.map_some, Option.some.injEq] at hinfo
  have hfile := (config_gathered hconfig).1
  rw [← hinfo] at hfile
  exact .inr hfile

/-- A config with data that no order changes. -/
theorem configStable_of_dataOf {info : Elements} (hwell : WellTyped configFields elements)
    (h : ∀ elements', elements'.Perm elements →
      dataOf info elements' = some (serverData info elements)) : ConfigStable elements := by
  refine ⟨(dataOf_gathered (h elements (.refl elements))).1, ?_⟩
  by_cases hknown : AllKnown configFields elements
  · exact .inl hknown
  simp only [AllKnown, not_forall, not_not] at hknown
  obtain ⟨e, he, hunknown⟩ := hknown
  have hfits := List.all_eq_true.mp hwell.fits e he
  obtain ⟨first, hfirst, hconfig⟩ := Option.bind_eq_some_iff.mp (h _ (List.perm_cons_erase he).symm)
  rw [gather_unknown hfits hunknown, Option.some.injEq] at hconfig
  obtain ⟨s, -, rfl⟩ := serverInfoOf_gathered hfirst
  exact .inr ⟨(congrArg LuaServerData.serverName hconfig).symm, (congrArg LuaServerData.host hconfig).symm⟩

theorem InfoStable.perm (h : InfoStable elements) (hnodup : (elements.map Prod.fst).Nodup)
    (hperm : elements'.Perm elements) : InfoStable elements' := by
  unfold InfoStable
  rw [entry_perm hperm hnodup]
  exact ⟨h.1, h.2.imp_left fun hknown e he => hknown e (hperm.mem_iff.mp he)⟩

theorem ConfigStable.perm (h : ConfigStable elements) (hnodup : (elements.map Prod.fst).Nodup)
    (hperm : elements'.Perm elements) : ConfigStable elements' := by
  unfold ConfigStable
  rw [entry_perm hperm hnodup, entry_perm hperm hnodup, portEntry_perm hperm hnodup]
  exact ⟨h.1, h.2.imp_left fun hknown e he => hknown e (hperm.mem_iff.mp he)⟩

/-- The data of a server do not depend on the order of its tables, and are their entries, exactly if both
tables are stable: an unknown key cuts the enumeration short, an empty name for the config file is replaced,
and the port is stored as the host. -/
theorem configured_in_any_order_iff {info config : Elements} (hinfo : WellTyped serverInfoFields info)
    (hconfig : WellTyped configFields config) :
    ConfiguredInAnyOrder info config ↔ InfoStable info ∧ ConfigStable config := by
  rw [configuredInAnyOrder_iff_dataOf]
  constructor
  · intro h
    exact ⟨infoStable_of_dataOf hinfo fun info' hperm => h info' config hperm (.refl config),
      configStable_of_dataOf hconfig fun config' hperm => h info config' (.refl info) hperm⟩
  · rintro ⟨hinfo', hconfig'⟩ info' config' hperm hperm'
    have hfirst := (hinfo'.perm hinfo.nodup hperm).serverInfoOf_eq (hinfo.perm hperm)
    have hport : portEntry config = none := hconfig'.1
    rw [dataOf, hfirst, Option.bind_some,
      (hconfig'.perm hconfig.nodup hperm').gather_eq (hconfig.perm hperm') rfl rfl,
      entry_perm hperm hinfo.nodup, entry_perm hperm' hconfig.nodup, entry_perm hperm' hconfig.nodup,
      serverData, hport]
    rfl

/-- The tables of the login server, and its config. -/
def loginInfo : Elements := [(.string "ConfigFile", .string "Config.lua")]

def loginConfig : Elements :=
  [(.string "ServerName", .string "H1Zerver: Login"), (.string "Host", .string "localhost"),
    (.string "Port", .number 1115)]

theorem configured_in_any_order_example : ConfiguredInAnyOrder loginInfo (loginConfig.take 2) := by
  have hinfo : WellTyped serverInfoFields loginInfo := ⟨by decide, by decide⟩
  have hconfig : WellTyped configFields (loginConfig.take 2) := ⟨by decide, by decide⟩
  have hstable : InfoStable loginInfo := ⟨by decide, .inr (by decide)⟩
  have hknown : AllKnown configFields (loginConfig.take 2) := by
    rintro e he
    simp only [loginConfig, List.take_succ_cons, List.take_zero, List.mem_cons, List.not_mem_nil,
      or_false] at he
    rcases he with rfl | rfl <;> simp [fieldOf, configFields, stringField]
  exact (configured_in_any_order_iff hinfo hconfig).mpr ⟨hstable, by decide, .inl hknown⟩

/-- The login server is appended without its port. -/
theorem login_port_lost : ¬ConfiguredInAnyOrder loginInfo loginConfig := by
  rw [configuredInAnyOrder_iff_dataOf]
  intro h
  have hport := (dataOf_gathered (h loginInfo loginConfig (.refl _) (.refl _))).1
  exact absurd hport (by decide)

end H1Z1Server
