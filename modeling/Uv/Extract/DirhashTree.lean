import Uv.Extract.Dirhash

namespace Uv.Extract

open Library List
open Library.ByteText
open Library.UnixPath

/-!
# What a directory hash determines

The components of a normalised path are what its parts resolve to, however the path was
spelled.  An insertion puts its kind at exactly that path and makes directories of the
paths above it.  The hash of a tree determines all of this: names are UTF-8, so the byte
between a name and a hash is not in the name, and hashes have a fixed length.

BLAKE3 maps all byte strings to 32 bytes and cannot be injective.  What is assumed is
that no two of the inputs that are hashed for the trees at hand collide, and that no file
among them has the hash of a directory.
-/

variable {Hash : Type}

/-! ## Normalised paths -/

variable (path : List UInt8)

/-- The components that the parts of a path resolve to. -/
def resolve : Option (List (List UInt8)) :=
  (path.splitOn sep).foldlM resolveComponent []

lemma resolve_trimDotSlash : resolve (trimDotSlash path) = resolve path := by
  induction path using trimDotSlash.induct with
  | case1 first second rest leading ih =>
    rcases leading with ⟨rfl, rfl⟩
    have parts : (dot :: sep :: rest).splitOn sep = [dot] :: rest.splitOn sep :=
      @splitOn_append_cons_self_of_not_mem _ [dot] _ _ sep (by decide) rest
    rw [trimDotSlash, if_pos ⟨rfl, rfl⟩, ih, resolve, resolve, parts]
    rfl
  | case2 first second rest other => rw [trimDotSlash, if_neg other]
  | case3 path short =>
    rcases path with _ | ⟨first, _ | ⟨second, rest⟩⟩
    · rfl
    · rfl
    · exact absurd rfl (short first second rest)

lemma resolve_rdropWhile :
    resolve (path.rdropWhile fun byte => byte = sep) = resolve path := by
  induction path using reverseRecOn with
  | nil => rfl
  | append_singleton path last ih =>
    rw [rdropWhile_concat]
    split
    next trailing =>
      rw [of_decide_eq_true trailing, ih, resolve, resolve,
        splitOn_append_cons_self, foldlM_append]
      simp [resolveComponent]
    next => rfl

lemma foldlM_resolveComponent {pieces : List (List UInt8)}
    (plain : pieces.any componentNeedsNormalization = false) (components : List (List UInt8)) :
    pieces.foldlM resolveComponent components = some (components ++ pieces) := by
  induction pieces generalizing components with
  | nil => simp
  | cons piece pieces ih =>
    rw [any_cons, Bool.or_eq_false_iff] at plain
    have name : resolveComponent components piece = some (components ++ [piece]) := by
      have kinds := plain.1
      simp only [componentNeedsNormalization, Bool.or_eq_false_iff, decide_eq_false_iff_not]
        at kinds
      simp [resolveComponent, kinds.1.1, kinds.1.2, kinds.2]
    rw [foldlM_cons, name]
    simpa using ih plain.2 (components ++ [piece])

variable {components : List (List UInt8)}

lemma mem_of_foldlM_resolveComponent {pieces result : List (List UInt8)}
    (resolved : pieces.foldlM resolveComponent components = some result) {name : List UInt8}
    (mem : name ∈ result) : name ∈ components \/ name ∈ pieces := by
  induction pieces generalizing components with
  | nil =>
    cases resolved
    exact .inl mem
  | cons piece pieces ih =>
    rw [foldlM_cons] at resolved
    rcases Option.bind_eq_some_iff.mp resolved with ⟨next, step, rest⟩
    rcases ih rest with earlier | later
    · have kept : name ∈ components \/ name = piece := by
        unfold resolveComponent at step
        split at step
        · cases step
          exact .inl earlier
        · split at step
          · split at step
            · cases step
            · cases step
              exact .inl (mem_of_mem_dropLast earlier)
          · cases step
            simpa using earlier
      rcases kept with old | rfl
      · exact .inl old
      · exact .inr mem_cons_self
    · exact .inr (mem_cons_of_mem _ later)

/-- However a path is spelled, its components are those that its parts resolve to. -/
lemma componentsOf_eq :
    componentsOf path =
      if path.head? = some sep then none
      else (resolve path).filter fun components => components ≠ [] := by
  unfold componentsOf normalizeDirhashPath
  split
  next => rfl
  next =>
    have trimmed := (resolve_rdropWhile (trimDotSlash path)).trans (resolve_trimDotSlash path)
    revert trimmed
    generalize ((trimDotSlash path).rdropWhile fun byte => byte = sep) = text
    intro trimmed
    rw [<- trimmed]
    dsimp only
    split
    next plain =>
      rw [Bool.not_eq_true'] at plain
      rw [resolve, foldlM_resolveComponent plain]
      simp [Except.toOption, Option.filter, splitOn_ne_nil]
    next =>
      cases resolved : resolve text with
      | none =>
        rw [resolve] at resolved
        rw [resolved]
        rfl
      | some components =>
        have unseparated : ∀ name ∈ components, sep ∉ name := by
          intro name member
          rcases mem_of_foldlM_resolveComponent resolved member with mem | mem
          · cases mem
          · exact sep_not_mem_parts mem
        rw [resolve] at resolved
        rw [resolved]
        by_cases empty : components = []
        · simp [empty, Except.toOption, Option.filter]
        · simp [empty, Except.toOption, Option.filter,
            splitOn_intercalate sep unseparated empty]

/-! ## What a tree contains -/

/-- What is at a path below an entry: a file with its hash, or a directory. -/
def kindAt : List (List UInt8) -> Option (DirhashEntry Hash) -> Option (Kind Hash)
  | _, none => none
  | [], some (.file hash) => some (some hash)
  | [], some (.directory _) => some none
  | _ :: _, some (.file _) => none
  | name :: rest, some (.directory children) => kindAt rest (SortedMap.find name children)

def contents (tree : DirhashTree Hash) (path : List (List UInt8)) : Option (Kind Hash) :=
  kindAt path (some (.directory tree))

/-! ## Hashes -/

structure Blake3Hash where
  bytes : List UInt8
  length_bytes : bytes.length = 32
  deriving DecidableEq

/-- The context string `directory`. -/
def directoryContext : List UInt8 := [100, 105, 114, 101, 99, 116, 111, 114, 121]

/-- What the hasher of a directory is given. -/
def encodeEntries (entries : List (List UInt8 × Blake3Hash)) : List UInt8 :=
  entries.flatMap fun entry => entry.1 ++ 0xff :: entry.2.bytes

/-- What is in front of a separator is determined by the whole. -/
lemma append_cons_inj {first second rest tail : List UInt8} {separator : UInt8}
    (firstFree : separator ∉ first) (secondFree : separator ∉ second)
    (same : first ++ separator :: rest = second ++ separator :: tail) :
    first = second /\ rest = tail := by
  have pieces := congrArg (splitOn separator) same
  rw [splitOn_append_cons_self_of_not_mem firstFree,
    splitOn_append_cons_self_of_not_mem secondFree] at pieces
  rw [(cons.inj pieces).1] at same
  exact ⟨(cons.inj pieces).1, (cons.inj (append_cancel_left same)).2⟩

/-- The encoding is read back name by name. -/
lemma encodeEntries_injective {first second : List (List UInt8 × Blake3Hash)}
    (firstNames : ∀ entry ∈ first, 0xff ∉ entry.1)
    (secondNames : ∀ entry ∈ second, 0xff ∉ entry.1)
    (same : encodeEntries first = encodeEntries second) : first = second := by
  induction first generalizing second with
  | nil =>
    cases second with
    | nil => rfl
    | cons entry second => exact absurd same (by simp [encodeEntries])
  | cons entry first ih =>
    cases second with
    | nil => exact absurd same (by simp [encodeEntries])
    | cons other second =>
      rcases forall_mem_cons.mp firstNames with ⟨name, firstNames⟩
      rcases forall_mem_cons.mp secondNames with ⟨otherName, secondNames⟩
      simp only [encodeEntries, flatMap_cons, append_assoc, cons_append]
        at same
      rcases append_cons_inj name otherName same with ⟨names, tails⟩
      have lengths := entry.2.length_bytes.trans other.2.length_bytes.symm
      rcases append_inj tails lengths with ⟨bytes, rest⟩
      rw [ih firstNames secondNames rest]
      congr 1
      rcases entry with ⟨_, ⟨_, _⟩⟩
      rcases other with ⟨_, ⟨_, _⟩⟩
      cases names
      cases bytes
      rfl

section

variable (deriveKey : List UInt8 -> List UInt8 -> Blake3Hash)

def hashDirEntries (entries : List (List UInt8 × Blake3Hash)) : Blake3Hash :=
  deriveKey directoryContext (encodeEntries entries)

mutual

def DirhashEntry.hash : DirhashEntry Blake3Hash -> Blake3Hash
  | .file hash => hash
  | .directory children => hashDirEntries deriveKey (entryHashes children)

def entryHashes : List (List UInt8 × DirhashEntry Blake3Hash) -> List (List UInt8 × Blake3Hash)
  | [] => []
  | (name, entry) :: children => (name, entry.hash) :: entryHashes children

end

/-- `DirhashTree::hash` -/
def DirhashTree.hash (tree : DirhashTree Blake3Hash) : Blake3Hash :=
  hashDirEntries deriveKey (entryHashes deriveKey tree)

end

mutual

/-- The entry and everything below it. -/
def DirhashEntry.within : DirhashEntry Hash -> List (DirhashEntry Hash)
  | .file hash => [.file hash]
  | .directory children => .directory children :: entriesWithin children

def entriesWithin : List (List UInt8 × DirhashEntry Hash) -> List (DirhashEntry Hash)
  | [] => []
  | (_, entry) :: children => entry.within ++ entriesWithin children

end

lemma mem_entriesWithin {children : List (List UInt8 × DirhashEntry Hash)}
    {entry : DirhashEntry Hash} :
    entry ∈ entriesWithin children <->
      ∃ child ∈ children, entry ∈ child.2.within := by
  induction children with
  | nil => simp [entriesWithin]
  | cons child children ih =>
    simp [entriesWithin, ih]

/-- The names below an entry have a property. -/
def NamedBy (property : List UInt8 -> Prop) (entry : DirhashEntry Hash) : Prop :=
  ∀ children, .directory children ∈ entry.within ->
    ∀ child ∈ children, property child.1

variable {property : List UInt8 -> Prop} {children : DirhashTree Hash}

lemma namedBy_directory :
    NamedBy property (.directory children) <->
      ∀ child ∈ children, property child.1 /\ NamedBy property child.2 := by
  constructor
  · intro named child mem
    refine ⟨named children (by simp [DirhashEntry.within]) child mem, fun others inside => ?_⟩
    refine named others ?_
    rw [DirhashEntry.within]
    exact mem_cons_of_mem _ (mem_entriesWithin.mpr ⟨child, mem, inside⟩)
  · intro named others inside
    rw [DirhashEntry.within] at inside
    rcases mem_cons.mp inside with same | inside
    · cases same
      exact fun child mem => (named child mem).1
    · rcases mem_entriesWithin.mp inside with ⟨child, mem, inside⟩
      exact (named child mem).2 others inside

lemma namedBy_file (property : List UInt8 -> Prop) (hash : Hash) :
    NamedBy property (.file hash) := by
  intro children inside
  simp [DirhashEntry.within] at inside

variable {entry : Option (DirhashEntry Hash)}

theorem namedBy_of_childrenOf
    (named : ∀ existing, entry = some existing -> NamedBy property existing)
    (below : childrenOf entry = some children) : NamedBy property (.directory children) := by
  rcases entry with _ | (_ | _)
  · cases below
    exact namedBy_directory.mpr fun _ mem => absurd mem not_mem_nil
  · cases below
  · cases below
    exact named _ rfl

/-- An insertion adds no names but those on its path. -/
lemma namedBy_place {kind : Kind Hash}
    {result : DirhashEntry Hash} (names : ∀ name ∈ components, property name)
    (named : ∀ existing, entry = some existing -> NamedBy property existing)
    (placed : place kind components entry = some result) : NamedBy property result := by
  induction components generalizing entry result with
  | nil =>
    cases kind with
    | none =>
      rcases occupy_none_eq_some.mp placed with ⟨tree, below, rfl⟩
      exact namedBy_of_childrenOf named below
    | some hash =>
      cases entry <;> cases placed
      exact namedBy_file property hash
  | cons name components ih =>
    rcases place_cons_eq_some.mp placed with ⟨tree, changed, below, inside, rfl⟩
    rcases forall_mem_cons.mp names with ⟨nameHas, names⟩
    have before := namedBy_directory.mp (namedBy_of_childrenOf named below)
    have inserted : NamedBy property changed := by
      refine ih names (fun existing found => ?_) inside
      exact (before _ (SortedMap.mem_of_find found)).2
    refine namedBy_directory.mpr fun child mem => ?_
    rcases SortedMap.mem_insert mem with rfl | mem
    · exact ⟨nameHas, inserted⟩
    · exact before child mem

/-- Trees that are built by insertions at paths that are texts. -/
inductive Built : DirhashTree Hash -> Prop where
  | new : Built []
  | insertion {tree : DirhashTree Hash} (built : Built tree) (insertion : Insertion Hash)
      (valid : isUtf8 insertion.path = true) : Built (insertion.apply tree).1

lemma isUtf8_of_componentsOf {path : List UInt8}
    (valid : isUtf8 path) (parts : componentsOf path = some components) :
    ∀ name ∈ components, isUtf8 name := by
  intro name member
  rw [componentsOf_eq] at parts
  split at parts
  · cases parts
  · rcases mem_of_foldlM_resolveComponent (Option.filter_eq_some_iff.mp parts).1 member with
      mem | mem
    · cases mem
    · exact isUtf8_splitOn (by decide) valid mem

theorem Built.named {tree : DirhashTree Hash} (built : Built tree) :
    NamedBy (fun name => isUtf8 name = true) (.directory tree) := by
  induction built with
  | new => exact namedBy_directory.mpr fun _ mem => absurd mem not_mem_nil
  | @insertion tree _ insertion valid ih =>
    cases outcome : (insertion.apply tree).2 with
    | error error =>
      rwa [Insertion.apply_error outcome]
    | ok done =>
      have success : succeeded (insertion.apply tree) = some (insertion.apply tree).1 := by
        rw [succeeded, outcome]
      rcases Insertion.apply_eq_some.mp success with ⟨components, parts, placed⟩
      refine namedBy_place (isUtf8_of_componentsOf valid parts) (fun existing same => ?_) placed
      cases same
      exact ih

/-! ## Equal hashes -/

/-- No two directories among the entries collide, and no file has the hash of a directory. -/
structure CollisionFree (deriveKey : List UInt8 -> List UInt8 -> Blake3Hash)
    (entries : List (DirhashEntry Blake3Hash)) : Prop where
  injective : ∀ first second, .directory first ∈ entries -> .directory second ∈ entries ->
    deriveKey directoryContext (encodeEntries (entryHashes deriveKey first)) =
      deriveKey directoryContext (encodeEntries (entryHashes deriveKey second)) ->
    encodeEntries (entryHashes deriveKey first) = encodeEntries (entryHashes deriveKey second)
  disjoint : ∀ hash children, .file hash ∈ entries -> .directory children ∈ entries ->
    hash ≠ deriveKey directoryContext (encodeEntries (entryHashes deriveKey children))

section

variable {deriveKey : List UInt8 -> List UInt8 -> Blake3Hash}
  {entries : List (DirhashEntry Blake3Hash)}

variable {children : DirhashTree Blake3Hash}

lemma mem_entryHashes {entry : List UInt8 × Blake3Hash}
    (member : entry ∈ entryHashes deriveKey children) :
    ∃ child ∈ children, child.1 = entry.1 := by
  induction children with
  | nil => cases member
  | cons child children ih =>
    rw [entryHashes] at member
    rcases mem_cons.mp member with rfl | member
    · exact ⟨child, mem_cons_self, rfl⟩
    · rcases ih member with ⟨other, mem, same⟩
      exact ⟨other, mem_cons_of_mem _ mem, same⟩

lemma directory_mem (inside : (DirhashEntry.directory children).within ⊆ entries) :
    .directory children ∈ entries :=
  inside (by simp [DirhashEntry.within])

lemma file_mem {hash : Blake3Hash} (inside : (DirhashEntry.file hash).within ⊆ entries) :
    .file hash ∈ entries :=
  inside (by simp [DirhashEntry.within])

lemma entriesWithin_subset (inside : (DirhashEntry.directory children).within ⊆ entries) :
    entriesWithin children ⊆ entries := by
  intro entry mem
  refine inside ?_
  rw [DirhashEntry.within]
  exact mem_cons_of_mem _ mem

/-- No name below a directory among the entries has the separator in it. -/
def Separable (entries : List (DirhashEntry Blake3Hash)) : Prop :=
  ∀ children, .directory children ∈ entries ->
    ∀ child ∈ children, (0xff : UInt8) ∉ child.1

lemma entryHashes_inj (free : CollisionFree deriveKey entries)
    (separable : Separable entries) {first second : DirhashTree Blake3Hash}
    (firstIn : .directory first ∈ entries) (secondIn : .directory second ∈ entries)
    (same : (DirhashEntry.directory first).hash deriveKey =
      (DirhashEntry.directory second).hash deriveKey) :
    entryHashes deriveKey first = entryHashes deriveKey second := by
  have names : ∀ children : DirhashTree Blake3Hash, .directory children ∈ entries ->
      ∀ entry ∈ entryHashes deriveKey children, (0xff : UInt8) ∉ entry.1 := by
    intro children inside entry member
    rcases mem_entryHashes member with ⟨child, mem, name⟩
    rw [<- name]
    exact separable children inside child mem
  rw [DirhashEntry.hash, DirhashEntry.hash] at same
  exact encodeEntries_injective (names first firstIn) (names second secondIn)
    (free.injective first second firstIn secondIn same)

mutual

/-- Entries with the same hash are the same. -/
lemma DirhashEntry.eq_of_hash (free : CollisionFree deriveKey entries)
    (separable : Separable entries) :
    (first second : DirhashEntry Blake3Hash) -> first.within ⊆ entries ->
      second.within ⊆ entries -> first.hash deriveKey = second.hash deriveKey -> first = second
  | .file _, .file _, _, _, same => congrArg DirhashEntry.file same
  | .file hash, .directory children, firstIn, secondIn, same =>
    absurd same (free.disjoint hash children (file_mem firstIn) (directory_mem secondIn))
  | .directory children, .file hash, firstIn, secondIn, same =>
    absurd same.symm (free.disjoint hash children (file_mem secondIn) (directory_mem firstIn))
  | .directory first, .directory second, firstIn, secondIn, same =>
    congrArg DirhashEntry.directory
      (entries_eq_of_hash free separable first second (entriesWithin_subset firstIn)
        (entriesWithin_subset secondIn)
        (entryHashes_inj free separable (directory_mem firstIn) (directory_mem secondIn) same))

lemma entries_eq_of_hash (free : CollisionFree deriveKey entries) (separable : Separable entries) :
    (first second : DirhashTree Blake3Hash) -> entriesWithin first ⊆ entries ->
      entriesWithin second ⊆ entries ->
      entryHashes deriveKey first = entryHashes deriveKey second -> first = second
  | [], [], _, _, _ => rfl
  | [], _ :: _, _, _, same => by cases same
  | _ :: _, [], _, _, same => by cases same
  | (name, entry) :: first, (otherName, other) :: second, firstIn, secondIn, same => by
    rw [entryHashes, entryHashes] at same
    rw [entriesWithin, List.append_subset] at firstIn secondIn
    rcases List.cons.inj same with ⟨heads, tails⟩
    rw [(Prod.mk.inj heads).1,
      DirhashEntry.eq_of_hash free separable entry other firstIn.1 secondIn.1 (Prod.mk.inj heads).2,
      entries_eq_of_hash free separable first second firstIn.2 secondIn.2 tails]

end

end

/-- All entries of two trees. -/
def entriesOf (first second : DirhashTree Hash) : List (DirhashEntry Hash) :=
  (DirhashEntry.directory first).within ++ (DirhashEntry.directory second).within

lemma Built.eq_of_hash {deriveKey : List UInt8 -> List UInt8 -> Blake3Hash}
    {first second : DirhashTree Blake3Hash} (firstBuilt : Built first)
    (secondBuilt : Built second) (free : CollisionFree deriveKey (entriesOf first second))
    (same : first.hash deriveKey = second.hash deriveKey) : first = second := by
  have separable : Separable (entriesOf first second) := by
    intro children member child mem
    rcases mem_append.mp member with member | member
    · exact not_mem_of_isUtf8 (firstBuilt.named children member child mem)
    · exact not_mem_of_isUtf8 (secondBuilt.named children member child mem)
  have entries := DirhashEntry.eq_of_hash free separable (.directory first) (.directory second)
    (subset_append_left _ _) (subset_append_right _ _)
    (by rwa [DirhashEntry.hash, DirhashEntry.hash])
  exact DirhashEntry.directory.inj entries

/-- The order in which files and empty directories are inserted does not matter, an
insertion that fails changes nothing, and the hash of a tree determines what is at each
normalised path. -/
theorem dirhashTree_hash (deriveKey : List UInt8 -> List UInt8 -> Blake3Hash) :
    (∀ (first second : List (Insertion Blake3Hash)) (tree result : DirhashTree Blake3Hash),
      first.Perm second -> insertAll first tree = some result ->
        ∃ other, insertAll second tree = some other /\
          other.hash deriveKey = result.hash deriveKey) /\
    (∀ (insertion : Insertion Blake3Hash) (tree : DirhashTree Blake3Hash)
      (error : DirhashError), (insertion.apply tree).2 = .error error ->
        (insertion.apply tree).1 = tree) /\
    (∀ first second : DirhashTree Blake3Hash, Built first -> Built second ->
      CollisionFree deriveKey (entriesOf first second) ->
      first.hash deriveKey = second.hash deriveKey ->
        ∀ path, contents first path = contents second path) := by
  refine ⟨fun first second tree result same inserted => ?_, fun insertion tree error => ?_,
    fun first second firstBuilt secondBuilt free same path => ?_⟩
  · exact ⟨result, insertAll_perm same inserted, rfl⟩
  · exact Insertion.apply_error
  · rw [firstBuilt.eq_of_hash secondBuilt free same]

/-- A digest that only counts, and a hash of a file that it never gives. -/
def countingKey (_context input : List UInt8) : Blake3Hash :=
  ⟨UInt8.ofNat input.length :: List.replicate 31 0, rfl⟩

def sevens : Blake3Hash := ⟨List.replicate 32 7, rfl⟩

/-- The paths `a` and `./b/../a`. -/
def plainInsertion : Insertion Blake3Hash := .file [97] sevens

def spelledInsertion : Insertion Blake3Hash := .file [46, 47, 98, 47, 46, 46, 47, 97] sevens

theorem dirhashTree_hash_spelled :
    contents (plainInsertion.apply []).1 [[97]] = contents (spelledInsertion.apply []).1 [[97]] := by
  have plain : (plainInsertion.apply []).1 = [([97], .file sevens)] := by rfl
  have spelled : (spelledInsertion.apply []).1 = [([97], .file sevens)] := by rfl
  refine (dirhashTree_hash countingKey).2.2 _ _ (.insertion .new plainInsertion (by decide))
    (.insertion .new spelledInsertion (by decide)) ?_ (by rw [plain, spelled]) [[97]]
  rw [plain, spelled]
  have mem : ∀ entry,
      entry ∈ entriesOf [([97], DirhashEntry.file sevens)] [([97], DirhashEntry.file sevens)] ->
        entry = .directory [([97], .file sevens)] \/ entry = .file sevens := by
    intro entry member
    simp only [entriesOf, DirhashEntry.within, entriesWithin, append_nil, cons_append,
      nil_append, mem_cons, not_mem_nil, or_false] at member
    tauto
  refine ⟨fun first second firstIn secondIn _ => ?_, fun hash children hashIn childrenIn => ?_⟩
  · rcases mem _ firstIn with same | same <;> cases same
    rcases mem _ secondIn with same | same <;> cases same
    rfl
  · rcases mem _ hashIn with same | same <;> cases same
    rcases mem _ childrenIn with same | same <;> cases same
    decide

end Uv.Extract
