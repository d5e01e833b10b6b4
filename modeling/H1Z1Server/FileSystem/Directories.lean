import Mathlib.Tactic

/-! `directory_exists` and `get_directories`, over what Windows tells about a disk. -/
namespace H1Z1Server

/-- The fields of `WIN32_FIND_DATA` that are read. -/
structure FindData where
  dwFileAttributes : UInt32
  cFileName : String
  deriving DecidableEq, Repr

/-- What `GetFileAttributes` returns for a path, and what `FindFirstFile` and `FindNextFile` enumerate
for `dir\*`. Both tell the same of an entry, and a directory has no two entries of one name. -/
structure Disk where
  getFileAttributes : String → UInt32
  listing : String → List FindData
  agree : ∀ dir, ∀ fd ∈ listing dir, getFileAttributes (dir ++ "\\" ++ fd.cFileName) = fd.dwFileAttributes
  distinct : ∀ dir, ((listing dir).map FindData.cFileName).Nodup

namespace FileSystem

def FILE_ATTRIBUTE_DIRECTORY : UInt32 := 0x10

def INVALID_FILE_ATTRIBUTES : UInt32 := 0xFFFFFFFF

/-- The test of `directory_exists` on what `GetFileAttributes` returns. -/
def isDirectory (fat : UInt32) : Bool :=
  if fat = INVALID_FILE_ATTRIBUTES then false
  else if fat &&& FILE_ATTRIBUTE_DIRECTORY ≠ 0 then true
  else false

def directoryExists (disk : Disk) (dir : String) : Bool := isDirectory (disk.getFileAttributes dir)

/-- The names of a directory itself and of the one that it is in. -/
def IsDots (name : String) : Prop := (name = "." ∨ name = "..") ∧ name.utf8ByteSize ≤ 2

instance (name : String) : Decidable (IsDots name) := inferInstanceAs (Decidable (_ ∧ _))

/-- The body of the loop of `get_directories`. Its `continue` goes on to `FindNextFile` as well. -/
def addDirectory (dir : String) (folderNameOnly : Bool) (res : List String) (fd : FindData) : List String :=
  if fd.dwFileAttributes = FILE_ATTRIBUTE_DIRECTORY then
    if IsDots fd.cFileName then res
    else if folderNameOnly then res ++ [fd.cFileName]
    else res ++ [dir ++ "\\" ++ fd.cFileName]
  else res

/-- The loop, from one entry on. -/
def findLoop (dir : String) (folderNameOnly : Bool) (res : List String) (fd : FindData) :
    List FindData → List String
  | [] => addDirectory dir folderNameOnly res fd
  | next :: rest => findLoop dir folderNameOnly (addDirectory dir folderNameOnly res fd) next rest

/-- `get_directories`. Nothing checks that `FindFirstFile` has found an entry: without one, the loop runs
once over whatever the memory of `fd` held. -/
def getDirectories (disk : Disk) (memory : FindData) (dir : String) (folderNameOnly : Bool) : List String :=
  if directoryExists disk dir then
    match disk.listing dir with
    | [] => findLoop dir folderNameOnly [] memory []
    | fd :: rest => findLoop dir folderNameOnly [] fd rest
  else []

/-- The entries of a directory that are directories, as `directory_exists` tells. -/
def directoriesOf (disk : Disk) (dir : String) : List String :=
  ((disk.listing dir).map FindData.cFileName).filter fun name =>
    ¬IsDots name ∧ directoryExists disk (dir ++ "\\" ++ name)

/-- What is found are the directories, in the order of the listing and without repetition. -/
def FindsDirectories (disk : Disk) (memory : FindData) (dir : String) : Prop :=
  getDirectories disk memory dir true = directoriesOf disk dir ∧
    (getDirectories disk memory dir true).Nodup

end FileSystem

open FileSystem
variable {disk : Disk} {dir : String}

/-- The entries that the loop adds, by their names. -/
theorem findLoop_eq (dir : String) (res : List String) (fd : FindData) (rest : List FindData) :
    findLoop dir true res fd rest = res ++ ((fd :: rest).filter fun fd =>
      fd.dwFileAttributes = FILE_ATTRIBUTE_DIRECTORY ∧ ¬IsDots fd.cFileName).map FindData.cFileName := by
  have hadd : ∀ res fd, addDirectory dir true res fd = res ++ ([fd].filter fun fd =>
      fd.dwFileAttributes = FILE_ATTRIBUTE_DIRECTORY ∧ ¬IsDots fd.cFileName).map FindData.cFileName := by
    intro res fd
    unfold addDirectory
    by_cases hattr : fd.dwFileAttributes = FILE_ATTRIBUTE_DIRECTORY
    · by_cases hdots : IsDots fd.cFileName
      · simp [hattr, hdots]
      · simp [hattr, hdots]
    · simp [hattr]
  induction rest generalizing res fd with
  | nil => exact hadd res fd
  | cons next rest ih =>
    rw [findLoop, ih, hadd, List.append_assoc, ← List.map_append, ← List.filter_append, List.singleton_append]

/-- The loop compares the whole mask. -/
theorem getDirectories_eq (hdir : directoryExists disk dir = true) (hlisting : disk.listing dir ≠ [])
    (memory : FindData) :
    getDirectories disk memory dir true = ((disk.listing dir).filter fun fd =>
      fd.dwFileAttributes = FILE_ATTRIBUTE_DIRECTORY ∧ ¬IsDots fd.cFileName).map FindData.cFileName := by
  rw [getDirectories, if_pos hdir]
  cases hentries : disk.listing dir with
  | nil => exact absurd hentries hlisting
  | cons fd rest => exact findLoop_eq dir [] fd rest

/-- `directory_exists` tests a bit of it. -/
theorem directoriesOf_eq (disk : Disk) (dir : String) :
    directoriesOf disk dir = ((disk.listing dir).filter fun fd =>
      ¬IsDots fd.cFileName ∧ isDirectory fd.dwFileAttributes).map FindData.cFileName := by
  rw [directoriesOf, List.filter_map]
  congr 1
  apply List.filter_congr
  intro fd hfd
  rw [Function.comp_apply, directoryExists, disk.agree dir fd hfd]

/-- Without an entry, the name that the memory holds may be found. -/
theorem not_findsDirectories_of_nil (hdir : directoryExists disk dir = true) (hlisting : disk.listing dir = []) :
    ¬FindsDirectories disk ⟨FILE_ATTRIBUTE_DIRECTORY, "?"⟩ dir := by
  rintro ⟨hsame, -⟩
  have hnone : directoriesOf disk dir = [] := by rw [directoriesOf, hlisting, List.map_nil, List.filter_nil]
  have hfound : getDirectories disk ⟨FILE_ATTRIBUTE_DIRECTORY, "?"⟩ dir true = ["?"] := by
    rw [getDirectories, if_pos hdir, hlisting]
    show findLoop dir true [] ⟨FILE_ATTRIBUTE_DIRECTORY, "?"⟩ [] = ["?"]
    rw [findLoop_eq]
    decide
  rw [hnone, hfound] at hsame
  cases hsame

/-- All directories of a listing are found exactly when there is an entry, and the mask of every directory
in it, but for the two dots, has no other bit. -/
theorem findsDirectories_iff (hdir : directoryExists disk dir = true) :
    (∀ memory, FindsDirectories disk memory dir) ↔
      disk.listing dir ≠ [] ∧ ∀ fd ∈ disk.listing dir, ¬IsDots fd.cFileName →
        isDirectory fd.dwFileAttributes = true → fd.dwFileAttributes = FILE_ATTRIBUTE_DIRECTORY := by
  constructor
  · intro h
    have hlisting : disk.listing dir ≠ [] := fun hnil => not_findsDirectories_of_nil hdir hnil (h _)
    refine ⟨hlisting, ?_⟩
    intro fd hfd hdots hattr
    have hwanted : fd.cFileName ∈ directoriesOf disk dir := by
      rw [directoriesOf_eq]
      exact List.mem_map_of_mem (List.mem_filter.mpr ⟨hfd, decide_eq_true ⟨hdots, hattr⟩⟩)
    rw [← (h fd).1, getDirectories_eq hdir hlisting, List.mem_map] at hwanted
    obtain ⟨found, hfound, hname⟩ := hwanted
    obtain ⟨hmem, hexact⟩ := List.mem_filter.mp hfound
    have hsame := disk.agree dir found hmem
    rw [hname, disk.agree dir fd hfd] at hsame
    rw [hsame]
    exact (of_decide_eq_true hexact).1
  · rintro ⟨hlisting, hexact⟩ memory
    unfold FindsDirectories
    rw [getDirectories_eq hdir hlisting, directoriesOf_eq]
    constructor
    · congr 1
      apply List.filter_congr
      intro fd hfd
      rw [decide_eq_decide]
      constructor
      · rintro ⟨hattr, hdots⟩
        exact ⟨hdots, by rw [hattr]; decide⟩
      · rintro ⟨hdots, hattr⟩
        exact ⟨hexact fd hfd hdots hattr, hdots⟩
    · exact (disk.distinct dir).sublist (List.filter_sublist.map _)

/-- A disk with one directory, which has these entries. -/
def oneDirectory (dir : String) (entries : List FindData)
    (hdistinct : (entries.map FindData.cFileName).Nodup) : Disk where
  getFileAttributes path :=
    match entries.find? fun fd => dir ++ "\\" ++ fd.cFileName = path with
    | some fd => fd.dwFileAttributes
    | none => FILE_ATTRIBUTE_DIRECTORY
  listing d := if d = dir then entries else []
  agree := by
    intro d fd hfd
    by_cases hd : d = dir
    · subst hd
      rw [if_pos rfl] at hfd
      cases hfind : entries.find? fun e => d ++ "\\" ++ e.cFileName = d ++ "\\" ++ fd.cFileName with
      | some e =>
        have hname := List.find?_some hfind
        rw [decide_eq_true_eq, String.append_right_inj] at hname
        rw [List.inj_on_of_nodup_map hdistinct (List.mem_of_find?_eq_some hfind) hfd hname]
      | none => exact absurd (decide_eq_true rfl) (List.find?_eq_none.mp hfind fd hfd)
    · rw [if_neg hd] at hfd
      cases hfd
  distinct := by
    intro d
    split
    · exact hdistinct
    · exact List.nodup_nil

theorem findsDirectories_iff_example :
    FindsDirectories
      (oneDirectory "Servers" [⟨0x10, "."⟩, ⟨0x10, ".."⟩, ⟨0x10, "Login"⟩, ⟨0x20, "a.txt"⟩] (by decide)) ⟨0, ""⟩
        "Servers" :=
  (findsDirectories_iff (by decide)).mpr (by decide) ⟨0, ""⟩

/-- A directory that is to be archived is not found. -/
theorem archived_directory_missed :
    ¬∀ memory, FindsDirectories
      (oneDirectory "Servers" [⟨0x10, "."⟩, ⟨0x10, ".."⟩, ⟨0x30, "Login"⟩] (by decide)) memory "Servers" := by
  intro h
  exact absurd (h ⟨0, ""⟩).1 (by decide)

end H1Z1Server
