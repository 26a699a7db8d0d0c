import Uv.Library.FileSystem

namespace Uv.InstallWheel

open Library UnixPath FileSystem List

/-!
# Uninstalling a wheel

The entries of `RECORD` are removed one after the other, as files or else as directory
trees, if they lie in a directory of the install scheme.  Then the directories that
contained removed files are removed as far as they are empty, up to `site-packages`.
Every deletion is recorded with its reason, also when a later step fails.
-/

structure Scheme where
  purelib : UnixPath
  platlib : UnixPath
  scripts : UnixPath
  data : UnixPath
  include' : UnixPath

def Scheme.directories (scheme : Scheme) : List UnixPath :=
  [scheme.data, scheme.purelib, scheme.platlib, scheme.scripts, scheme.include']

inductive UninstallError where
  | brokenVenv
  | io (error : OsError)
  deriving DecidableEq, Repr

/-- What was deleted, and why. -/
inductive Deletion where
  | file (location : Location)
  | tree (location : Location)
  | pycache (location : Location)
  | emptied (location : Location)
  deriving DecidableEq

structure Uninstall where
  fs : FileSystem
  deletions : List Deletion
  visited : List UnixPath
  fileCount : Nat
  dirCount : Nat

/-- The loop that normalises a path. -/
def normalizeLoop : UnixPath -> List Component -> UnixPath
  | ret, [] => ret
  | ret, .rootDir :: rest => normalizeLoop (push ret Component.rootDir.bytes) rest
  | ret, .curDir :: rest => normalizeLoop ret rest
  | ret, .parentDir :: rest => normalizeLoop (pop ret).1 rest
  | ret, .normal name :: rest => normalizeLoop (push ret name.1) rest

def normalizePath (path : UnixPath) : UnixPath := normalizeLoop [] (components path)

/-- The entry lies in a directory that files of a wheel can be installed into. -/
def isPathInScheme (path sitePackages : UnixPath) (scheme : Scheme) : Bool :=
  let normalized := normalizePath (push sitePackages path)
  scheme.directories.any fun directory => startsWith normalized directory

/-- Some packages have absolute paths. -/
def readRecord (record : List UnixPath) : List UnixPath :=
  record.map fun path => path.dropWhile (· == sep)

/-- Paths are ordered by their components. -/
def pathKey (path : UnixPath) : List (Nat ×ₗ List Nat) :=
  (components path).map Component.key

variable (visited : List UnixPath)

/-- The directories to look at, the deepest ones first. -/
def visitOrder : List UnixPath :=
  visited.insertionSort fun path path' => pathKey path' <= pathKey path

def visit (path : UnixPath) : List UnixPath :=
  if visited.any fun other => components other == components path then visited else path :: visited

section

variable (sitePackages : UnixPath) (scheme : Scheme)

def Uninstall.delete (run : Uninstall) (outcome : Outcome) (deletion : Location -> Deletion) : Uninstall :=
  { run with
    fs := outcome.fs
    deletions := run.deletions ++ (outcome.deleted.map deletion).toList }

/-- Remove what an entry of `RECORD` names. -/
def removeEntry (run : Uninstall) (entry : UnixPath) : Uninstall × Except OsError Unit :=
  let path := push sitePackages entry
  if !isPathInScheme entry sitePackages scheme then (run, .ok ())
  else
    let removal := run.fs.removeFile path
    match removal.result with
    | .ok () =>
      let run := run.delete removal .file
      ({ run with
        fileCount := run.fileCount + 1
        visited := match parent path with
          | some parent => visit run.visited (normalizePath parent)
          | none => run.visited }, .ok ())
    | .error .notFound => (run, .ok ())
    | .error error =>
      let removal := run.fs.removeDirAll path
      let run := run.delete removal .tree
      match removal.result with
      | .ok () => ({ run with dirCount := run.dirCount + 1 }, .ok ())
      | .error .notFound => (run, .ok ())
      | .error _ => (run, .error error)

def removeEntries : Uninstall -> List UnixPath -> Uninstall × Except OsError Unit
  | run, [] => (run, .ok ())
  | run, entry :: rest =>
    match removeEntry sitePackages scheme run entry with
    | (run, .ok ()) => removeEntries run rest
    | (run, .error error) => (run, .error error)

def pycacheName : Name := ⟨[95, 95, 112, 121, 99, 97, 99, 104, 101, 95, 95], by decide⟩

/-- Remove a directory if it is empty, and go on with its parent. -/
def removeIfEmpty (next : Uninstall -> UnixPath -> Uninstall × Except OsError Unit)
    (run : Uninstall) (path : UnixPath) : Uninstall × Except OsError Unit :=
  match run.fs.readDir path with
  | .error .notFound => (run, .ok ())
  | .error error => (run, .error error)
  | .ok (_ :: _) => (run, .ok ())
  | .ok [] =>
    let removal := run.fs.removeDir path
    let run := run.delete removal .emptied
    match removal.result with
    | .error error => (run, .error error)
    | .ok () =>
      match parent path with
      | some parent => next { run with dirCount := run.dirCount + 1 } parent
      | none => ({ run with dirCount := run.dirCount + 1 }, .ok ())

/-- Remove a directory and its parents as long as they are empty. -/
def removeEmptied : Nat -> Uninstall -> UnixPath -> Uninstall × Except OsError Unit
  | 0, run, _ => (run, .ok ())
  | fuel + 1, run, path =>
    if components path = components sitePackages then (run, .ok ())
    else
      let removal := run.fs.removeDirAll (push path pycacheName.1)
      let run := run.delete removal .pycache
      match removal.result with
      | .ok () => removeIfEmpty (removeEmptied fuel) { run with dirCount := run.dirCount + 1 } path
      | .error .notFound => removeIfEmpty (removeEmptied fuel) run path
      | .error error => (run, .error error)

/-- Look at the visited directories that lie in `site-packages`. -/
def removeAllEmptied : Uninstall -> List UnixPath -> Uninstall × Except OsError Unit
  | run, [] => (run, .ok ())
  | run, path :: rest =>
    if !startsWith path sitePackages then removeAllEmptied run rest
    else
      match removeEmptied sitePackages (components path).length run path with
      | (run, .ok ()) => removeAllEmptied run rest
      | (run, .error error) => (run, .error error)

end

/-- Uninstall the wheel of a `.dist-info` directory, given the paths of its `RECORD`. -/
def uninstallWheel (fs : FileSystem) (scheme : Scheme) (distInfo : UnixPath) (record : List UnixPath) :
    Uninstall × Except UninstallError Unit :=
  let run : Uninstall := ⟨fs, [], [], 0, 0⟩
  match parent distInfo with
  | none => (run, .error .brokenVenv)
  | some sitePackages =>
    match removeEntries sitePackages scheme run (readRecord record) with
    | (run, .error error) => (run, .error (.io error))
    | (run, .ok ()) =>
      match removeAllEmptied sitePackages run (visitOrder run.visited) with
      | (run, .error error) => (run, .error (.io error))
      | (run, .ok ()) => (run, .ok ())

/-! ## Normalised paths -/

lemma normalizeLoop_render (absolute : Bool) (list : List (List UInt8)) (location : Location) :
    normalizeLoop (render absolute (location.map .normal)) (list.filterMap parsePart) =
      render absolute ((list.foldl followPart location).map .normal) := by
  induction list generalizing location with
  | nil => rfl
  | cons part rest ih =>
    rw [foldl_cons]
    by_cases up : part = [dot, dot]
    · rw [filterMap_cons_some (parsePart_of_eq up), normalizeLoop, followPart, if_pos up]
      rcases eq_nil_or_concat' location with rfl | ⟨before, last, rfl⟩
      · rw [map_nil, pop_render_nil]
        exact ih []
      · rw [map_append, map_singleton,
          @pop_render (.normal last) _ (fun _ => isStep_of_mem_normal) absolute trivial, ih,
          dropLast_concat]
    · by_cases valid : IsName part
      · have pushed := @push_render (.normal ⟨part, valid⟩) _ (fun _ => @isStep_of_mem_normal location _) absolute
          trivial
        rw [<- map_singleton, <- map_append] at pushed
        rw [filterMap_cons_some (parsePart_of_isName valid), normalizeLoop, followPart,
          if_neg up, dif_pos valid, <- ih]
        exact congrArg (normalizeLoop · _) pushed
      · rw [filterMap_cons_none (parsePart_of_not up valid), followPart, if_neg up,
          dif_neg valid, ih]

/-- A normalised path names the location that the path leads to. -/
lemma normalizePath_eq (path : UnixPath) :
    normalizePath path = render (isAbsolute path) ((locate path).map .normal) := by
  rw [normalizePath, components, leading]
  cases absolute : isAbsolute path with
  | true => exact normalizeLoop_render true (parts path) []
  | false =>
    have loop := normalizeLoop_render false (parts path) []
    split
    next impossible => cases impossible
    · split
      · exact loop
      · exact loop

/-- Only an absolute path starts with the path of a location. -/
lemma startsWith_place_iff (absolute : Bool) (location base : Location) :
    startsWith (render absolute (location.map .normal)) (place base) <->
      absolute /\ base <+: location := by
  cases absolute with
  | true => exact (startsWith_place location base).trans ⟨fun starts => ⟨rfl, starts⟩, And.right⟩
  | false =>
    rw [startsWith, components_place, components_render fun _ => isStep_of_mem_normal,
      isPrefixOf_iff_prefix]
    constructor
    · intro starts
      cases location with
      | nil => exact absurd starts (by simp)
      | cons name rest =>
        rcases starts with ⟨others, equal⟩
        cases (cons.inj equal).1
    · rintro ⟨impossible, _⟩
      cases impossible

/-! ## What is deleted -/

variable (directory : UnixPath) (location : Location)

/-- The location lies in the directory, or is the directory. -/
def Within : Prop :=
  startsWith (place location) directory = true

/-- The location lies in the directory and is not the directory. -/
def StrictlyWithin : Prop :=
  Within directory location /\ components (place location) ≠ components directory

/-- The location is a directory of the scheme or one above it. -/
def Scheme.Covers (scheme : Scheme) : Prop :=
  ∃ directory ∈ scheme.directories, startsWith directory (place location) = true

/-- No entry of `RECORD` names a directory of the scheme or one above it. -/
def Harmless (scheme : Scheme) (sitePackages : UnixPath) (record : List UnixPath) : Prop :=
  ∀ entry ∈ readRecord record, ¬scheme.Covers (locate (push sitePackages entry))

/-- Entries are deleted in the directories of the scheme, caches and emptied directories
in `site-packages`.  What is deleted contains no directory of the scheme, unless `RECORD`
names such a directory, one lies in a cache, or one lies below `site-packages`. -/
def Allowed (scheme : Scheme) (sitePackages : UnixPath) (record : List UnixPath) : Deletion -> Prop
  | .file location | .tree location =>
    (∃ directory ∈ scheme.directories, Within directory location) /\
      (Harmless scheme sitePackages record -> ¬scheme.Covers location)
  | .pycache location => StrictlyWithin sitePackages location /\
      ((∀ directory ∈ scheme.directories, .normal pycacheName ∉ components directory) ->
        ¬scheme.Covers location)
  | .emptied location => StrictlyWithin sitePackages location /\
      ((∀ directory ∈ scheme.directories, startsWith directory sitePackages = true ->
        components directory = components sitePackages) -> ¬scheme.Covers location)

/-- All deletions so far were allowed, and the visited paths are normalised. -/
structure Uninstall.Safe (scheme : Scheme) (sitePackages : UnixPath) (record : List UnixPath)
    (run : Uninstall) : Prop where
  deletions : ∀ deletion ∈ run.deletions, Allowed scheme sitePackages record deletion
  visited : ∀ path ∈ run.visited, ∃ absolute, ∃ location : Location,
    path = render absolute (location.map .normal)

section

variable {scheme : Scheme} {sitePackages : UnixPath} {record : List UnixPath} {run : Uninstall}

lemma Uninstall.Safe.delete (safe : run.Safe scheme sitePackages record)
    {outcome : Outcome} {deletion : Location -> Deletion}
    (allowed : ∀ location, outcome.deleted = some location ->
      Allowed scheme sitePackages record (deletion location)) :
    (run.delete outcome deletion).Safe scheme sitePackages record := by
  refine ⟨fun other mem => ?_, safe.visited⟩
  rcases mem_append.mp mem with mem | mem
  · exact safe.deletions other mem
  · rw [Option.mem_toList, Option.map_eq_some_iff] at mem
    rcases mem with ⟨location, deleted, rfl⟩
    exact allowed location deleted

/-- An entry in the scheme has an absolute path, and leads into a directory of the scheme. -/
lemma isPathInScheme_spec (places : ∀ directory ∈ scheme.directories,
      ∃ location, directory = place location) {entry : UnixPath}
    (inScheme : isPathInScheme entry sitePackages scheme) :
    isAbsolute (push sitePackages entry) /\
      ∃ directory ∈ scheme.directories, Within directory (locate (push sitePackages entry)) := by
  rcases any_eq_true.mp inScheme with ⟨directory, mem, starts⟩
  rcases places directory mem with ⟨base, rfl⟩
  rw [normalizePath_eq, startsWith_place_iff] at starts
  exact ⟨starts.1, _, mem, (startsWith_place _ _).mpr starts.2⟩

lemma visit_normalised {visited : List UnixPath} {path : UnixPath}
    (all : ∀ other ∈ visited, ∃ absolute, ∃ location : Location,
      other = render absolute (location.map .normal)) :
    ∀ other ∈ visit visited (normalizePath path), ∃ absolute, ∃ location : Location,
        other = render absolute (location.map .normal) := by
  intro other mem
  unfold visit at mem
  split at mem
  · exact all other mem
  · rcases mem_cons.mp mem with rfl | mem
    · exact ⟨_, _, normalizePath_eq path⟩
    · exact all other mem

section

variable (places : ∀ directory ∈ scheme.directories, ∃ location, directory = place location)

include places

lemma removeEntry_safe (safe : run.Safe scheme sitePackages record) {entry : UnixPath}
    (listed : entry ∈ readRecord record) :
    (removeEntry sitePackages scheme run entry).1.Safe scheme sitePackages record := by
  unfold removeEntry
  dsimp only
  split
  · exact safe
  next inScheme =>
    rw [Bool.not_eq_true', Bool.not_eq_false] at inScheme
    rcases isPathInScheme_spec places inScheme with ⟨absolute, within⟩
    have file : (run.delete (run.fs.removeFile (push sitePackages entry)) .file).Safe scheme
        sitePackages record := safe.delete fun location deleted =>
      removeFile_deleted absolute deleted ▸ ⟨within, fun harmless => harmless entry listed⟩
    have tree : (run.delete (run.fs.removeDirAll (push sitePackages entry)) .tree).Safe scheme
        sitePackages record := safe.delete fun location deleted =>
      removeDirAll_deleted absolute deleted ▸ ⟨within, fun harmless => harmless entry listed⟩
    split
    · refine ⟨file.deletions, ?_⟩
      dsimp only
      split
      · exact visit_normalised file.visited
      · exact file.visited
    · exact safe
    · split
      · exact ⟨tree.deletions, tree.visited⟩
      · exact tree
      · exact tree

lemma removeEntries_safe (entries : List UnixPath) (listed : entries ⊆ readRecord record)
    (safe : run.Safe scheme sitePackages record) :
    (removeEntries sitePackages scheme run entries).1.Safe scheme sitePackages record := by
  induction entries generalizing run with
  | nil => exact safe
  | cons entry rest ih =>
    have step := removeEntry_safe places safe (listed mem_cons_self)
    rw [removeEntries]
    split
    next next removed =>
      rw [removed] at step
      exact ih (subset_of_cons_subset listed) step
    next next error removed =>
      rw [removed] at step
      exact step

end

variable {site : Location} {location : Location}

lemma strictlyWithin_place (below : site <+: location) (apart : location ≠ site) :
    StrictlyWithin (place site) location := by
  refine ⟨(startsWith_place _ _).mpr below, fun equal => apart ?_⟩
  rw [components_place, components_place, cons.injEq] at equal
  exact map_injective_iff.mpr (fun _ _ same => Component.normal.inj same) equal.2

/-- A location below `site-packages` has a parent that is not above it. -/
lemma prefix_dropLast (below : site <+: location) (apart : location ≠ site) :
    ∃ name, location = location.dropLast ++ [name] /\ site <+: location.dropLast := by
  rcases eq_nil_or_concat' location with rfl | ⟨before, last, rfl⟩
  · exact absurd (prefix_nil.mp below).symm apart
  · rw [dropLast_concat]
    refine ⟨last, rfl, ?_⟩
    rcases prefix_concat_iff.mp below with equal | below
    · exact absurd equal.symm apart
    · exact below

section

variable (places : ∀ directory ∈ scheme.directories, ∃ location, directory = place location)

include places

/-- A directory of the scheme that a location covers lies below it. -/
lemma Scheme.Covers.exists_prefix (covers : scheme.Covers location) :
    ∃ base, place base ∈ scheme.directories /\ location <+: base := by
  rcases covers with ⟨directory, mem, starts⟩
  rcases places directory mem with ⟨base, rfl⟩
  exact ⟨base, mem, (startsWith_place _ _).mp starts⟩

lemma allowed_emptied (below : site <+: location) (apart : location ≠ site) :
    Allowed scheme (place site) record (.emptied location) := by
  refine ⟨strictlyWithin_place below apart, fun outside covers => ?_⟩
  rcases covers.exists_prefix places with ⟨base, mem, above⟩
  have lower : site <+: base := below.trans above
  have same := outside _ mem ((startsWith_place _ _).mpr lower)
  rw [components_place, components_place, cons.injEq] at same
  have equal := map_injective_iff.mpr (fun _ _ same => Component.normal.inj same) same.2
  rw [equal] at above
  exact apart (above.eq_of_length_le below.length_le)

lemma allowed_pycache (below : site <+: location) :
    Allowed scheme (place site) record (.pycache (location ++ [pycacheName])) := by
  refine ⟨strictlyWithin_place (below.trans (prefix_append _ _)) fun equal => ?_,
    fun outside covers => ?_⟩
  · have shorter := below.length_le
    rw [<- equal, length_append, length_singleton] at shorter
    omega
  · rcases covers.exists_prefix places with ⟨base, mem, above⟩
    refine outside _ mem ?_
    rw [components_place]
    exact mem_cons_of_mem _ (mem_map_of_mem (above.subset (by simp)))

lemma removeIfEmpty_safe {next : Uninstall -> UnixPath -> Uninstall × Except OsError Unit}
    (safe : run.Safe scheme (place site) record) (below : site <+: location) (apart : location ≠ site)
    (continues : ∀ run : Uninstall, run.Safe scheme (place site) record ->
      (next run (place location.dropLast)).1.Safe scheme (place site) record) :
    (removeIfEmpty next run (place location)).1.Safe scheme (place site) record := by
  have emptied : (run.delete (run.fs.removeDir (place location)) .emptied).Safe scheme (place site)
      record := by
    refine safe.delete fun deleted isDeleted => ?_
    rw [removeDir_deleted rfl isDeleted, locate_place]
    exact allowed_emptied places below apart
  rcases prefix_dropLast below apart with ⟨name, shape, _⟩
  have above : parent (place location) = some (place location.dropLast) := by
    rw [shape, parent_place, dropLast_concat]
  unfold removeIfEmpty
  split
  · exact safe
  · exact safe
  · exact safe
  · dsimp only
    split
    · exact emptied
    · rw [above]
      exact continues _ ⟨emptied.deletions, emptied.visited⟩

lemma removeEmptied_safe (fuel : Nat) (safe : run.Safe scheme (place site) record)
    (below : site <+: location) :
    (removeEmptied (place site) fuel run (place location)).1.Safe scheme (place site) record := by
  induction fuel generalizing run location with
  | zero => exact safe
  | succ fuel ih =>
    rw [removeEmptied]
    split
    · exact safe
    next different =>
      have apart : location ≠ site := fun equal => different (by rw [equal])
      have pycache : (run.delete (run.fs.removeDirAll (push (place location) pycacheName.1))
          .pycache).Safe scheme (place site) record := by
        rw [push_place]
        refine safe.delete fun deleted isDeleted => ?_
        rw [removeDirAll_deleted rfl isDeleted, locate_place]
        exact allowed_pycache places below
      rcases prefix_dropLast below apart with ⟨name, shape, stays⟩
      dsimp only
      split
      · refine removeIfEmpty_safe places ?_ below apart fun run safe => ih safe stays
        exact ⟨pycache.deletions, pycache.visited⟩
      · exact removeIfEmpty_safe places pycache below apart fun run safe => ih safe stays
      · exact pycache

lemma removeAllEmptied_safe (paths : List UnixPath) (safe : run.Safe scheme (place site) record)
    (normalised : ∀ path ∈ paths, ∃ absolute, ∃ location : Location,
      path = render absolute (location.map .normal)) :
    (removeAllEmptied (place site) run paths).1.Safe scheme (place site) record := by
  induction paths generalizing run with
  | nil => exact safe
  | cons path rest ih =>
    have rest' := (forall_mem_cons.mp normalised).2
    rw [removeAllEmptied]
    split
    · exact ih safe rest'
    next starts =>
      rcases normalised path mem_cons_self with ⟨absolute, location, rfl⟩
      rw [Bool.not_eq_true', Bool.not_eq_false, startsWith_place_iff] at starts
      rcases starts with ⟨rfl, below⟩
      have step : (removeEmptied (place site) (components (render true (location.map .normal))).length
          run (render true (location.map .normal))).1.Safe scheme (place site) record :=
        removeEmptied_safe places _ safe below
      split
      next next removed =>
        rw [removed] at step
        exact ih step rest'
      next next error removed =>
        rw [removed] at step
        exact step

end

/-- The number of components bounds how often the loop goes up. -/
lemma removeEmptied_enough (fuel : Nat) (run : Uninstall) (enough : location.length < fuel) :
    removeEmptied sitePackages (fuel + 1) run (place location) =
      removeEmptied sitePackages fuel run (place location) := by
  induction fuel generalizing run location with
  | zero => cases enough
  | succ fuel ih =>
    have same : ∀ run, removeIfEmpty (removeEmptied sitePackages (fuel + 1)) run (place location) =
        removeIfEmpty (removeEmptied sitePackages fuel) run (place location) := by
      intro run
      unfold removeIfEmpty
      rcases eq_nil_or_concat' location with rfl | ⟨before, last, rfl⟩
      · rw [parent_place_nil]
      · rw [length_append, length_singleton] at enough
        have shorter : before.length < fuel := Nat.lt_of_succ_lt_succ enough
        rw [parent_place]
        simp only [fun run => ih run shorter]
    rw [removeEmptied, removeEmptied]
    simp only [same]

end

/-- Whatever `RECORD` says, its entries are deleted only in the directories of the scheme,
and emptied directories and `__pycache__` only strictly below `site-packages`.  A directory
of the scheme is lost only if `RECORD` names it or one above it, or if it lies in a cache or
as an empty directory below `site-packages`. -/
theorem uninstallWheel_allowed (fs : FileSystem) {scheme : Scheme} {distInfo sitePackages : UnixPath}
    (record : List UnixPath) (places : ∀ directory ∈ scheme.directories,
      ∃ location, directory = place location)
    (inside : parent distInfo = some sitePackages)
    (isLibrary : sitePackages = scheme.purelib \/ sitePackages = scheme.platlib) :
    ∀ deletion ∈ (uninstallWheel fs scheme distInfo record).1.deletions,
      Allowed scheme sitePackages record deletion := by
  have site : ∃ location, sitePackages = place location := by
    rcases isLibrary with rfl | rfl
    · exact places _ (by simp [Scheme.directories])
    · exact places _ (by simp [Scheme.directories])
  rcases site with ⟨site, rfl⟩
  have start : (⟨fs, [], [], 0, 0⟩ : Uninstall).Safe scheme (place site) record :=
    ⟨nofun, nofun⟩
  have entries := removeEntries_safe places (readRecord record) (Subset.refl _) start
  unfold uninstallWheel
  rw [inside]
  dsimp only
  split
  next run error removed =>
    rw [removed] at entries
    exact entries.deletions
  next run removed =>
    rw [removed] at entries
    have emptied := removeAllEmptied_safe places (visitOrder run.visited) entries fun path mem =>
      entries.visited path ((mem_insertionSort _).mp mem)
    split
    next run' error removed' =>
      rw [removed'] at emptied
      exact emptied.deletions
    next run' removed' =>
      rw [removed'] at emptied
      exact emptied.deletions

/-! ## A target directory -/

/-- The location `/t` of a target directory. -/
def target : Location := [⟨[116], by decide⟩]

/-- The location `/t/bin` of its scripts. -/
def targetBin : Location := target ++ [⟨[98, 105, 110], by decide⟩]

/-- The layout of an installation into `/t`: its scripts and headers lie below its
packages. -/
def targetScheme : Scheme where
  purelib := place target
  platlib := place target
  scripts := place targetBin
  data := place target
  include' := place (target ++ [⟨[105], by decide⟩])

/-- A package with a single script `/t/bin/f`. -/
def targetFiles : FileSystem where
  entries := [(target, .directory), (targetBin, .directory),
    (targetBin ++ [⟨[102], by decide⟩], .file)]
  workingDirectory := []

/-- The run removes the script and then the directory for scripts, both of which are
allowed. -/
theorem uninstallWheel_allowed_target :
    (uninstallWheel targetFiles targetScheme (place (target ++ [⟨[100], by decide⟩]))
      [[98, 105, 110, 47, 102]]).1.deletions ≠ [] /\
    ∀ deletion, deletion ∈ (uninstallWheel targetFiles targetScheme
        (place (target ++ [⟨[100], by decide⟩])) [[98, 105, 110, 47, 102]]).1.deletions ->
      Allowed targetScheme (place target) [[98, 105, 110, 47, 102]] deletion := by
  refine ⟨by decide, uninstallWheel_allowed targetFiles _ ?_ (parent_place target _) (.inl rfl)⟩
  simp only [Scheme.directories, targetScheme, forall_mem_cons, not_mem_nil]
  exact ⟨⟨_, rfl⟩, ⟨_, rfl⟩, ⟨_, rfl⟩, ⟨_, rfl⟩, ⟨_, rfl⟩, nofun⟩

/-- In a target directory the emptied directory for scripts is removed, which is a directory
of the scheme. -/
theorem uninstallWheel_removes_scripts :
    .emptied targetBin ∈ (uninstallWheel targetFiles targetScheme
      (place (target ++ [⟨[100], by decide⟩])) [[98, 105, 110, 47, 102]]).1.deletions /\
    place targetBin = targetScheme.scripts := by
  refine ⟨by decide, rfl⟩

end Uv.InstallWheel
