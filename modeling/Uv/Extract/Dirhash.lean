import Uv.Library.ByteText
import Uv.Library.SortedMap
import Uv.Library.UnixPath

namespace Uv.Extract

open Library Option Library.SortedMap
open Library.ByteText
open Library.UnixPath

/-!
# Hashes of directory trees

A `DirhashTree` collects the files and empty directories of an archive in whatever order
they come.  Each path is normalised, the directories above it are created, and the hash
of a directory is a BLAKE3 hash of its entries in the order of their names.

What an insertion does to a tree is stated a second time as what it does to the entry at
the root (`place`), where success and failure are decided by the entries on the way alone.
The BLAKE3 functions are parameters.
-/

inductive DirhashError where
  | invalidPath (path : List UInt8)
  | fileDirectoryConflict (path : List UInt8)
  | missingPath (path : List UInt8)
  | duplicatePath (path : List UInt8)
  deriving DecidableEq

inductive DirhashEntry (Hash : Type) where
  | file (hash : Hash)
  | directory (children : List (List UInt8 × DirhashEntry Hash))

/-- The children of a directory in the order of their names. -/
abbrev DirhashTree (Hash : Type) := List (List UInt8 × DirhashEntry Hash)

variable {Hash : Type}

/-! ## Insertion -/

/-- `insertion_entry` together with what its callers do with the entry it returns: `fill`
gives the new content of the entry, or the error.  The tree is changed in place, so
directories that were created stay whatever comes of the rest. -/
def insertionEntry (originalPath : List UInt8) (createDirs : Bool)
    (fill : Option (DirhashEntry Hash) -> Except DirhashError (DirhashEntry Hash))
    (component : List UInt8) :
    List (List UInt8) -> DirhashTree Hash -> DirhashTree Hash × Except DirhashError Unit
  | [], tree =>
    match fill (SortedMap.find component tree) with
    | .ok entry => (SortedMap.insert component entry tree, .ok ())
    | .error error => (tree, .error error)
  | next :: rest, tree =>
    match SortedMap.find component tree with
    | some (.directory child) =>
      let (child, result) := insertionEntry originalPath createDirs fill next rest child
      (SortedMap.insert component (.directory child) tree, result)
    | some (.file _) => (tree, .error (.fileDirectoryConflict originalPath))
    | none =>
      if createDirs then
        let (child, result) := insertionEntry originalPath createDirs fill next rest []
        (SortedMap.insert component (.directory child) tree, result)
      else (tree, .error (.missingPath originalPath))

def componentNeedsNormalization (component : List UInt8) : Bool :=
  component = [] || component = [dot] || component = [dot, dot]

/-- `trim_start_matches("./")` -/
def trimDotSlash : List UInt8 -> List UInt8
  | first :: second :: rest =>
    if first = dot /\ second = sep then trimDotSlash rest else first :: second :: rest
  | path => path

/-- One component of the loop that resolves a path. -/
def resolveComponent (components : List (List UInt8)) (component : List UInt8) :
    Option (List (List UInt8)) :=
  if component = [] \/ component = [dot] then some components
  else if component = [dot, dot] then
    if components = [] then none else some components.dropLast
  else some (components ++ [component])

def normalizeDirhashPath (path : List UInt8) : Except DirhashError (List UInt8) :=
  if path.head? = some sep then .error (.invalidPath path)
  else
    let path := (trimDotSlash path).rdropWhile fun byte => byte = sep
    if !(path.splitOn sep).any componentNeedsNormalization then .ok path
    else
      match (path.splitOn sep).foldlM resolveComponent [] with
      | none => .error (.invalidPath path)
      | some components =>
        if components = [] then .error (.invalidPath path)
        else .ok ([sep].intercalate components)

/-- The insertion of an entry at a path that still has to be normalised. -/
def insertAt (path : List UInt8) (createDirs : Bool)
    (fill : Option (DirhashEntry Hash) -> Except DirhashError (DirhashEntry Hash))
    (tree : DirhashTree Hash) : DirhashTree Hash × Except DirhashError Unit :=
  match normalizeDirhashPath path with
  | .error error => (tree, .error error)
  | .ok normalized =>
    let components := normalized.splitOn sep
    insertionEntry path createDirs fill (components.headD []) components.tail tree

def addFile (path : List UInt8) (hash : Hash) (tree : DirhashTree Hash) :
    DirhashTree Hash × Except DirhashError Unit :=
  insertAt path true
    (fun entry =>
      match entry with
      | none => .ok (.file hash)
      | some _ => .error (.duplicatePath path)) tree

def addEmptyDir (path : List UInt8) (tree : DirhashTree Hash) :
    DirhashTree Hash × Except DirhashError Unit :=
  insertAt path true
    (fun entry =>
      match entry with
      | none => .ok (.directory [])
      | some (.directory children) => .ok (.directory children)
      | some (.file _) => .error (.fileDirectoryConflict path)) tree

/-! ## Failures -/

variable {originalPath component : List UInt8}
variable {fill : Option (DirhashEntry Hash) -> Except DirhashError (DirhashEntry Hash)}

/-- In an empty directory everything can be created. -/
lemma insertionEntry_empty
    {entry : DirhashEntry Hash} (vacant : fill none = .ok entry) (rest : List (List UInt8)) :
    (insertionEntry originalPath true fill component rest []).2 = .ok () := by
  induction rest generalizing component with
  | nil => simp [insertionEntry, SortedMap.find, vacant]
  | cons next rest ih =>
    simpa [insertionEntry, SortedMap.find] using ih

variable {rest : List (List UInt8)} {tree : DirhashTree Hash} {error : DirhashError}

/-- Directories are created only where nothing can fail any more. -/
lemma insertionEntry_error {createDirs : Bool}
    (vacant : createDirs -> ∃ entry, fill none = .ok entry)
    (failed : (insertionEntry originalPath createDirs fill component rest tree).2 =
      .error error) :
    (insertionEntry originalPath createDirs fill component rest tree).1 = tree := by
  induction rest generalizing component tree with
  | nil =>
    cases filled : fill (find component tree) with
    | ok entry => simp [insertionEntry, filled] at failed
    | error error => simp [insertionEntry, filled]
  | cons next rest ih =>
    cases found : find component tree with
    | none =>
      cases createDirs with
      | false => simp [insertionEntry, found]
      | true =>
        rcases vacant rfl with ⟨entry, vacant⟩
        have succeeded := @insertionEntry_empty Hash originalPath next fill entry vacant rest
        simp [insertionEntry, found, succeeded] at failed
    | some entry =>
      cases entry with
      | file hash => simp [insertionEntry, found]
      | directory child =>
        simp only [insertionEntry, found] at failed ⊢
        rw [ih failed]
        exact insert_of_find found

lemma insertAt_error {path : List UInt8} {createDirs : Bool}
    (vacant : createDirs -> ∃ entry, fill none = .ok entry)
    (failed : (insertAt path createDirs fill tree).2 = .error error) :
    (insertAt path createDirs fill tree).1 = tree := by
  unfold insertAt at failed ⊢
  split at failed
  · rfl
  · exact insertionEntry_error vacant failed

/-! ## Insertion as a change of entries -/

/-- What is inserted: a file with its hash, or an empty directory. -/
abbrev Kind (Hash : Type) := Option Hash

/-- The new content of an entry that something is inserted at. -/
def occupy (kind : Kind Hash) (entry : Option (DirhashEntry Hash)) :
    Option (DirhashEntry Hash) :=
  match kind, entry with
  | some hash, none => some (.file hash)
  | some _, some _ => none
  | none, none => some (.directory [])
  | none, some (.directory children) => some (.directory children)
  | none, some (.file _) => none

/-- The children of an entry that is a directory or is made one. -/
def childrenOf : Option (DirhashEntry Hash) -> Option (DirhashTree Hash)
  | none => some []
  | some (.directory children) => some children
  | some (.file _) => none

/-- The insertion below an entry. -/
def place (kind : Kind Hash) :
    List (List UInt8) -> Option (DirhashEntry Hash) -> Option (DirhashEntry Hash)
  | [], entry => occupy kind entry
  | name :: rest, entry =>
    match childrenOf entry with
    | none => none
    | some children =>
      (place kind rest (SortedMap.find name children)).map fun changed =>
        .directory (SortedMap.insert name changed children)

variable {entry : Option (DirhashEntry Hash)} {result : DirhashEntry Hash}

lemma place_cons_eq_some {kind : Kind Hash} {name : List UInt8} :
    place kind (name :: rest) entry = some result <->
      ∃ children changed, childrenOf entry = some children /\
        place kind rest (SortedMap.find name children) = some changed /\
        result = .directory (SortedMap.insert name changed children) := by
  rw [place]
  cases childrenOf entry with
  | none => simp
  | some children =>
    simp only [map_eq_some_iff, some.injEq]
    constructor
    · rintro ⟨changed, placed, rfl⟩
      exact ⟨children, changed, rfl, placed, rfl⟩
    · rintro ⟨_, changed, rfl, placed, rfl⟩
      exact ⟨changed, placed, rfl⟩

/-- A directory can be inserted exactly where children can, and does not change them. -/
lemma occupy_none_eq_some :
    occupy none entry = some result <->
      ∃ children, childrenOf entry = some children /\ result = .directory children := by
  rcases entry with _ | entry
  · simp [occupy, childrenOf, eq_comm]
  · cases entry <;> simp [occupy, childrenOf, eq_comm]

lemma childrenOf_of_occupy {kind : Kind Hash} {children : DirhashTree Hash}
    (occupied : occupy kind entry = some result)
    (below : childrenOf (some result) = some children) :
    kind = none /\ childrenOf entry = some children := by
  cases kind with
  | none =>
    rcases occupy_none_eq_some.mp occupied with ⟨_, same, rfl⟩
    exact ⟨rfl, same.trans below⟩
  | some hash =>
    cases entry with
    | none =>
      cases occupied
      cases below
    | some entry => cases occupied

/-- Insertions commute: what succeeds in one order succeeds in the other. -/
lemma place_comm {first second : Kind Hash} {one other : List (List UInt8)}
    {middle : DirhashEntry Hash} (placed : place first one entry = some middle)
    (placedOther : place second other (some middle) = some result) :
    ∃ swapped, place second other entry = some swapped /\
      place first one (some swapped) = some result := by
  induction one generalizing other entry middle result with
  | nil =>
    cases other with
    | nil =>
      cases first with
      | none =>
        cases second with
        | none => exact ⟨middle, placed, placedOther⟩
        | some hash => cases placedOther
      | some hash =>
        cases second with
        | none =>
          rcases occupy_none_eq_some.mp placedOther with ⟨children, below, _⟩
          exact absurd (childrenOf_of_occupy placed below).1 nofun
        | some hash => cases placedOther
    | cons name rest =>
      -- The first insertion can only be that of a directory.
      rcases place_cons_eq_some.mp placedOther with ⟨children, changed, below, inside, rfl⟩
      rcases childrenOf_of_occupy placed below with ⟨rfl, same⟩
      exact ⟨_, place_cons_eq_some.mpr ⟨children, changed, same, inside, rfl⟩, rfl⟩
  | cons name rest ih =>
    rcases place_cons_eq_some.mp placed with ⟨children, changed, below, inside, rfl⟩
    cases other with
    | nil =>
      cases second with
      | some hash => cases placedOther
      | none =>
        cases placedOther
        refine ⟨.directory children, occupy_none_eq_some.mpr ⟨children, below, rfl⟩, ?_⟩
        exact place_cons_eq_some.mpr ⟨children, changed, rfl, inside, rfl⟩
    | cons otherName otherRest =>
      rcases place_cons_eq_some.mp placedOther with ⟨_, otherChanged, ⟨⟩, otherInside, rfl⟩
      by_cases same : otherName = name
      · subst same
        rw [find_insert_self] at otherInside
        rcases ih inside otherInside with ⟨swapped, before, after⟩
        refine ⟨_, place_cons_eq_some.mpr ⟨children, swapped, below, before, rfl⟩,
          place_cons_eq_some.mpr ⟨_, otherChanged, rfl, ?_, ?_⟩⟩
        · rwa [find_insert_self]
        · rw [insert_insert_self, insert_insert_self]
      · rw [find_insert_of_ne same] at otherInside
        refine ⟨_, place_cons_eq_some.mpr ⟨children, otherChanged, below, otherInside, rfl⟩,
          place_cons_eq_some.mpr ⟨_, changed, rfl, ?_, ?_⟩⟩
        · rwa [find_insert_of_ne (Ne.symm same)]
        · rw [insert_comm same]

/-- The tree after an insertion that succeeded. -/
def succeeded (outcome : DirhashTree Hash × Except DirhashError Unit) :
    Option (DirhashTree Hash) :=
  match outcome.2 with
  | .ok _ => some outcome.1
  | .error _ => none

/-- Insertion into a tree is insertion below a directory. -/
lemma insertionEntry_place {kind : Kind Hash}
    (fills : ∀ entry, (fill entry).toOption = occupy kind entry)
    (rest : List (List UInt8)) (tree : DirhashTree Hash) :
    place kind (component :: rest) (some (.directory tree)) =
      (succeeded (insertionEntry originalPath true fill component rest tree)).map
        .directory := by
  induction rest generalizing component tree with
  | nil =>
    simp only [place, childrenOf, <- fills, insertionEntry]
    cases fill (find component tree) <;> rfl
  | cons next rest ih =>
    have inside : ∀ child : DirhashTree Hash,
        ((succeeded (insertionEntry originalPath true fill next rest child)).map
          DirhashEntry.directory).map
            (fun changed => DirhashEntry.directory (insert component changed tree)) =
          (succeeded (insert component (.directory
            (insertionEntry originalPath true fill next rest child).1) tree,
              (insertionEntry originalPath true fill next rest child).2)).map
            DirhashEntry.directory := by
      intro child
      unfold succeeded
      cases (insertionEntry originalPath true fill next rest child).2 <;> rfl
    rw [place, childrenOf, insertionEntry]
    dsimp only
    cases found : find component tree with
    | none =>
      exact (congrArg (Option.map _) (ih [])).trans (inside [])
    | some entry =>
      cases entry with
      | file hash => rfl
      | directory child =>
        exact (congrArg (Option.map _) (ih child)).trans (inside child)

/-! ## Runs of insertions -/

inductive Insertion (Hash : Type) where
  | file (path : List UInt8) (hash : Hash)
  | emptyDir (path : List UInt8)

variable {insertion : Insertion Hash}

namespace Insertion

def path : Insertion Hash -> List UInt8
  | file path _ => path
  | emptyDir path => path

def kind : Insertion Hash -> Kind Hash
  | file _ hash => some hash
  | emptyDir _ => none

def apply : Insertion Hash -> DirhashTree Hash -> DirhashTree Hash × Except DirhashError Unit
  | file path hash, tree => addFile path hash tree
  | emptyDir path, tree => addEmptyDir path tree

lemma apply_error (failed : (insertion.apply tree).2 = .error error) :
    (insertion.apply tree).1 = tree := by
  cases insertion with
  | file path hash => exact insertAt_error (fun _ => ⟨.file hash, rfl⟩) failed
  | emptyDir path => exact insertAt_error (fun _ => ⟨.directory [], rfl⟩) failed

end Insertion

/-- The components of a path once it is normalised. -/
def componentsOf (path : List UInt8) : Option (List (List UInt8)) :=
  (normalizeDirhashPath path).toOption.map fun normalized => normalized.splitOn sep

lemma insertAt_place {kind : Kind Hash} {path : List UInt8}
    (fills : ∀ entry, (fill entry).toOption = occupy kind entry) (tree : DirhashTree Hash) :
    (succeeded (insertAt path true fill tree)).map .directory =
      (componentsOf path).bind fun components =>
        place kind components (some (.directory tree)) := by
  unfold insertAt componentsOf
  cases normalizeDirhashPath path with
  | error error => rfl
  | ok normalized =>
    have nonempty := List.splitOn_ne_nil sep normalized
    simp only [Except.toOption, map_some, bind_some]
    cases parts : normalized.splitOn sep with
    | nil => exact absurd parts nonempty
    | cons component rest => exact (insertionEntry_place fills rest tree).symm

lemma Insertion.apply_place (insertion : Insertion Hash) (tree : DirhashTree Hash) :
    (succeeded (insertion.apply tree)).map .directory =
      (componentsOf insertion.path).bind fun components =>
        place insertion.kind components (some (.directory tree)) := by
  cases insertion with
  | file path hash =>
    refine insertAt_place (fun entry => ?_) tree
    cases entry <;> rfl
  | emptyDir path =>
    refine insertAt_place (fun entry => ?_) tree
    rcases entry with _ | (_ | _) <;> rfl

lemma Insertion.apply_eq_some {result : DirhashTree Hash} :
    succeeded (insertion.apply tree) = some result <->
      ∃ components, componentsOf insertion.path = some components /\
        place insertion.kind components (some (.directory tree)) = some (.directory result) := by
  have injective : Function.Injective (@DirhashEntry.directory Hash) :=
    fun _ _ same => DirhashEntry.directory.inj same
  rw [<- bind_eq_some_iff, <- insertion.apply_place, map_eq_some_iff]
  constructor
  · exact fun found => ⟨result, found, rfl⟩
  · rintro ⟨other, found, same⟩
    rwa [<- injective same]

/-- Insertions one after the other, all of which succeed. -/
def insertAll (insertions : List (Insertion Hash)) (tree : DirhashTree Hash) :
    Option (DirhashTree Hash) :=
  insertions.foldlM (fun tree insertion => succeeded (insertion.apply tree)) tree

lemma exists_directory_of_place {kind : Kind Hash} {components : List (List UInt8)}
    (placed : place kind components (some (.directory tree)) = some result) :
    ∃ children, result = .directory children := by
  cases components with
  | nil =>
    cases kind with
    | none => exact ⟨tree, (some.inj placed).symm⟩
    | some hash => cases placed
  | cons name rest =>
    rcases place_cons_eq_some.mp placed with ⟨_, _, _, _, same⟩
    exact ⟨_, same⟩

lemma Insertion.apply_comm {first second : Insertion Hash}
    {middle result : DirhashTree Hash} (one : succeeded (first.apply tree) = some middle)
    (two : succeeded (second.apply middle) = some result) :
    ∃ swapped, succeeded (second.apply tree) = some swapped /\
      succeeded (first.apply swapped) = some result := by
  rcases apply_eq_some.mp one with ⟨path, parts, placed⟩
  rcases apply_eq_some.mp two with ⟨otherPath, otherParts, placedOther⟩
  rcases place_comm placed placedOther with ⟨swapped, before, after⟩
  rcases exists_directory_of_place before with ⟨children, rfl⟩
  exact ⟨children, apply_eq_some.mpr ⟨otherPath, otherParts, before⟩,
    apply_eq_some.mpr ⟨path, parts, after⟩⟩

/-- The order of insertions does not matter. -/
lemma insertAll_perm {first second : List (Insertion Hash)} (same : first.Perm second)
    {result : DirhashTree Hash} (inserted : insertAll first tree = some result) :
    insertAll second tree = some result := by
  induction same generalizing tree with
  | nil => exact inserted
  | cons insertion _ ih =>
    rw [insertAll, List.foldlM_cons] at inserted ⊢
    rcases bind_eq_some_iff.mp inserted with ⟨middle, once, rest⟩
    exact bind_eq_some_iff.mpr ⟨middle, once, ih rest⟩
  | swap one other insertions =>
    rw [insertAll, List.foldlM_cons] at inserted ⊢
    rcases bind_eq_some_iff.mp inserted with ⟨middle, once, rest⟩
    rw [List.foldlM_cons] at rest
    rcases bind_eq_some_iff.mp rest with ⟨last, twice, rest⟩
    rcases Insertion.apply_comm once twice with ⟨swapped, before, after⟩
    refine bind_eq_some_iff.mpr ⟨swapped, before, ?_⟩
    rw [List.foldlM_cons]
    exact bind_eq_some_iff.mpr ⟨last, after, rest⟩
  | trans _ _ firstHypothesis secondHypothesis =>
    exact secondHypothesis (firstHypothesis inserted)

end Uv.Extract
