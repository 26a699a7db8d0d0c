import Uv.Library.UnixPath

namespace Uv.Library

/-!
# A file system without symbolic links

The entries of a file system are found at locations, which are lists of names below
the root.  A path is followed part by part, and every directory on the way has to
exist.  Without symbolic links an absolute path then leads where its text says
(`locate`), so the place that an operation acts on can be read off the path.
-/

namespace FileSystem

open UnixPath

abbrev Location := List Name

/-- Where one part of a path leads to.  The parent of the root is the root. -/
def followPart (location : Location) (part : List UInt8) : Location :=
  if part = [dot, dot] then location.dropLast
  else if valid : IsName part then location ++ [⟨part, valid⟩]
  else location

/-- Where an absolute path leads to, by its text. -/
def locate (path : UnixPath) : Location := (parts path).foldl followPart []

inductive Kind where
  | file
  | directory
  deriving DecidableEq, Repr

inductive OsError where
  | notFound
  | notADirectory
  | isADirectory
  | directoryNotEmpty
  | invalidInput
  | resourceBusy
  deriving DecidableEq, Repr

end FileSystem

open FileSystem UnixPath in
structure FileSystem where
  entries : List (Location × Kind)
  workingDirectory : Location

namespace FileSystem

open UnixPath

/-- What an operation leaves behind: also one that fails may have deleted something. -/
structure Outcome where
  fs : FileSystem
  deleted : Option Location
  result : Except OsError Unit

variable (fs : FileSystem) (location : Location)

def kindAt : Option Kind :=
  if location = [] then some .directory
  else (fs.entries.find? fun entry => entry.1 = location).map Prod.snd

/-- Follow a part in an existing directory to an existing entry. -/
def walkPart (part : List UInt8) : Except OsError Location :=
  match fs.kindAt location with
  | none => .error .notFound
  | some .file => .error .notADirectory
  | some .directory =>
    if (fs.kindAt (followPart location part)).isNone then .error .notFound
    else .ok (followPart location part)

variable (path : UnixPath)

def resolve : Except OsError Location :=
  if path.isEmpty then .error .notFound
  else (parts path).foldlM fs.walkPart (if isAbsolute path then [] else fs.workingDirectory)

def children : List (Location × Kind) :=
  fs.entries.filter fun entry => !entry.1.isEmpty && entry.1.dropLast == location

/-- The file system without the entries at some locations. -/
def without (gone : Location -> Bool) : FileSystem :=
  { fs with entries := fs.entries.filter fun entry => !gone entry.1 }

def readDir : Except OsError (List (Location × Kind)) :=
  match fs.resolve path with
  | .error error => .error error
  | .ok location =>
    match fs.kindAt location with
    | some .directory => .ok (fs.children location)
    | _ => .error .notADirectory

def removeFile : Outcome :=
  match fs.resolve path with
  | .error error => ⟨fs, none, .error error⟩
  | .ok location =>
    match fs.kindAt location with
    | some .file => ⟨fs.without (· == location), some location, .ok ()⟩
    | _ => ⟨fs, none, .error .isADirectory⟩

/-- Remove an empty directory.  The path has to name it. -/
def removeDir : Outcome :=
  match fs.resolve path with
  | .error error => ⟨fs, none, .error error⟩
  | .ok location =>
    match ((parts path).filter (!·.isEmpty)).getLast? with
    | none => ⟨fs, none, .error .resourceBusy⟩
    | some last =>
      if last = [dot] then ⟨fs, none, .error .invalidInput⟩
      else if last = [dot, dot] || !(fs.children location).isEmpty then
        ⟨fs, none, .error .directoryNotEmpty⟩
      else if fs.kindAt location = some .directory then
        ⟨fs.without (· == location), some location, .ok ()⟩
      else ⟨fs, none, .error .notADirectory⟩

/-- Remove what is below a directory, and then the directory. -/
def removeDirAll : Outcome :=
  match fs.resolve path with
  | .error error => ⟨fs, none, .error error⟩
  | .ok location =>
    match fs.kindAt location with
    | some .directory =>
      let emptied := fs.without fun other => location.isPrefixOf other && other != location
      let outcome := emptied.removeDir path
      ⟨outcome.fs, some location, outcome.result⟩
    | _ => ⟨fs, none, .error .notADirectory⟩

/-! ## Where operations act -/

variable {fs} {location : Location}

lemma foldlM_walkPart {list : List (List UInt8)} {start : Location}
    (walked : list.foldlM fs.walkPart start = .ok location) :
    list.foldl followPart start = location := by
  induction list generalizing start with
  | nil => exact Except.ok.inj walked
  | cons part rest ih =>
    rw [List.foldlM_cons] at walked
    cases step : fs.walkPart start part with
    | error error =>
      rw [step] at walked
      cases walked
    | ok next =>
      rw [step] at walked
      have reached : next = followPart start part := by
        unfold walkPart at step
        split at step
        · cases step
        · cases step
        · split at step
          · cases step
          · exact (Except.ok.inj step).symm
      rw [List.foldl_cons, <- reached]
      exact ih walked

variable {path : UnixPath}

section

variable (absolute : isAbsolute path)

include absolute

/-- An absolute path leads where its text says. -/
lemma resolve_eq (resolved : fs.resolve path = .ok location) : location = locate path := by
  unfold resolve at resolved
  split at resolved
  · cases resolved
  · exact (foldlM_walkPart resolved).symm

lemma removeFile_deleted
    (deleted : (fs.removeFile path).deleted = some location) : location = locate path := by
  unfold removeFile at deleted
  split at deleted
  · cases deleted
  next resolved =>
    split at deleted
    · exact Option.some.inj deleted ▸ resolve_eq absolute resolved
    · cases deleted

lemma removeDir_deleted
    (deleted : (fs.removeDir path).deleted = some location) : location = locate path := by
  unfold removeDir at deleted
  split at deleted
  · cases deleted
  next resolved =>
    split at deleted
    · cases deleted
    · split at deleted
      · cases deleted
      · split at deleted
        · cases deleted
        · split at deleted
          · exact Option.some.inj deleted ▸ resolve_eq absolute resolved
          · cases deleted

lemma removeDirAll_deleted
    (deleted : (fs.removeDirAll path).deleted = some location) : location = locate path := by
  unfold removeDirAll at deleted
  split at deleted
  · cases deleted
  next resolved =>
    split at deleted
    · exact Option.some.inj deleted ▸ resolve_eq absolute resolved
    · cases deleted

end

/-! ## Paths of locations -/

/-- The path that names a location. -/
def place (location : Location) : UnixPath := render true (location.map .normal)

lemma isStep_of_mem_normal {component : Component}
    (mem : component ∈ location.map Component.normal) : component.IsStep := by
  rcases List.mem_map.mp mem with ⟨name, _, rfl⟩
  trivial

lemma components_place (location : Location) :
    components (place location) = .rootDir :: location.map .normal :=
  components_render (fun _ => isStep_of_mem_normal) true

lemma push_place (location : Location) (name : Name) :
    push (place location) name.1 = place (location ++ [name]) := by
  rw [place, place, List.map_append]
  exact @push_render (.normal name) _ (fun _ => isStep_of_mem_normal) true trivial

lemma parent_place (location : Location) (name : Name) :
    parent (place (location ++ [name])) = some (place location) := by
  rw [place, List.map_append]
  exact @parent_render (.normal name) _ (fun _ => isStep_of_mem_normal) true trivial

lemma parent_place_nil : parent (place []) = none := rfl

lemma startsWith_place (location base : Location) :
    startsWith (place location) (place base) <-> base <+: location := by
  have injective : Function.Injective Component.normal := fun _ _ equal => Component.normal.inj equal
  rw [startsWith, components_place, components_place, List.isPrefixOf_iff_prefix,
    List.prefix_cons_inj, List.prefix_map_iff_of_injective injective]

lemma foldl_followPart (location rest : Location) :
    (rest.map Subtype.val).foldl followPart location = location ++ rest := by
  induction rest generalizing location with
  | nil => rw [List.append_nil]; rfl
  | cons name rest ih =>
    have step : followPart location name.1 = location ++ [name] :=
      (if_neg name.2.2.2.2).trans (dif_pos name.2)
    rw [List.map_cons, List.foldl_cons, step, ih, List.append_assoc, List.singleton_append]

lemma locate_place (location : Location) : locate (place location) = location := by
  cases location with
  | nil => rfl
  | cons name rest =>
    have split := @parts_render ((name :: rest).map .normal) (fun _ => isStep_of_mem_normal) true
      (List.cons_ne_nil _ _)
    rw [List.map_map] at split
    rw [locate, place, split]
    exact foldl_followPart [] (name :: rest)

end FileSystem

end Uv.Library
