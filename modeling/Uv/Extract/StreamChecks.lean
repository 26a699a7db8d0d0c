import Uv.Extract.Stream
import Uv.Library.Result

namespace Uv.Extract

open Library UnixPath List

/-!
# What an accepted archive was checked for

Each step of the extraction is taken apart once: what it keeps of a local entry, and what
an entry of the central directory agrees with.  Over the whole archive, what is kept pairs
the local entries with those of the central directory by their offsets.

The compressed size that is kept is the one of the local header.  It is what was read only
for files without a data descriptor, and it is not compared at all if a descriptor was
announced.
-/

variable {Disk Digest : Type}

/-- Whether the entry is reported as a directory. -/
def ZipEntry.isDir (entry : ZipEntry) : Bool :=
  match entry.dir with
  | .ok isDir => isDir
  | .error _ => false

/-- The path of the entry, if its name is safe. -/
def ZipEntry.safePath (entry : ZipEntry) (isOther : Char -> Bool) : Option UnixPath :=
  match entry.filename with
  | .error _ => none
  | .ok name =>
    match fromArchiveMember isOther name with
    | .ok relpath => relpath
    | .error _ => none

namespace LocalEntry

/-! Nothing is read of a directory. -/

variable (entry : LocalEntry)

def readCrc32 : Nat :=
  if entry.header.isDir then 0 else entry.computeHash

def readSize : Nat :=
  if entry.header.isDir then 0
  else
    match entry.contents with
    | .ok contents => contents.length
    | .error _ => 0

def readCompressedSize : Nat :=
  if entry.header.isDir then 0 else entry.bytesRead

end LocalEntry

namespace Unzip

variable {unzip : Unzip Disk Digest} {done : Unit} {entry : ZipEntry}

section

variable (validated : unzip.skipValidation = false)

include validated

lemma require_ok {holds : Bool} {error : UnzipError}
    (passed : unzip.require holds error = .ok done) : holds := by
  unfold require at passed
  rw [validated, Bool.or_false] at passed
  split at passed
  next holds => exact holds
  next => cases passed

lemma sanitize_ok {notUtf8 : UnzipError} {relpath : Option UnixPath}
    (sanitized : unzip.sanitize entry.filename notUtf8 = .ok relpath) :
    relpath = entry.safePath unzip.isOther := by
  unfold sanitize at sanitized
  unfold ZipEntry.safePath
  split at sanitized
  next => cases sanitized
  next => cases sanitized
  next name named =>
    cases found : fromArchiveMember unzip.isOther name with
    | ok safe =>
      simp only [found] at sanitized
      simp only [named, found]
      exact (Except.ok.inj sanitized).symm
    | error error =>
      simp only [found, validated] at sanitized
      cases sanitized

end

lemma ofZip_ok {Result : Type} {result : Except ZipError Result} {value : Result}
    (done : ofZip result = .ok value) : result = .ok value := by
  cases result with
  | error error => cases done
  | ok value => exact congrArg _ (Except.ok.inj done)

lemma isDir_of_ofZip {isDir : Bool} (done : ofZip entry.dir = .ok isDir) :
    entry.isDir = isDir := by
  rw [ZipEntry.isDir, ofZip_ok done]

/-! ## Local entries -/

variable {state result : LocalState Disk Digest}

lemma ensureDir_ok {path : UnixPath} (done : unzip.ensureDir path state = .ok result) :
    result.localHeaders = state.localHeaders := by
  unfold ensureDir at done
  split at done
  · cases done
    rfl
  · rcases of_bind_ok done with ⟨disk, _, done⟩
    cases done
    rfl

lemma ensureParent_ok {path : UnixPath} (done : unzip.ensureParent path state = .ok result) :
    result.localHeaders = state.localHeaders := by
  unfold ensureParent at done
  split at done
  · exact ensureDir_ok done
  · cases done
    rfl

variable {relpath : UnixPath}

lemma claimPath_ok (done : unzip.claimPath relpath state = .ok result) :
    result.localHeaders = state.localHeaders := by
  unfold claimPath at done
  split at done
  · split at done
    · cases done
    · cases done
      rfl
  · cases done
    rfl

variable {computed : ComputedEntry Digest}

lemma extractDir_ok {header : ZipEntry}
    (done : unzip.extractDir relpath header state = .ok (computed, result)) :
    result.localHeaders = state.localHeaders /\ computed = ⟨0, 0, 0, none⟩ := by
  rcases of_bind_ok done with ⟨created, ensured, done⟩
  rcases of_bind_ok done with ⟨_, _, done⟩
  rcases of_bind_ok done with ⟨_, _, done⟩
  cases done
  exact ⟨ensureDir_ok ensured, rfl⟩

lemma writeContents_ok {entry : LocalEntry} {contents : List UInt8}
    (done : unzip.writeContents relpath entry state = .ok (contents, result)) :
    result.localHeaders = state.localHeaders /\ entry.contents = .ok contents := by
  unfold writeContents at done
  dsimp only at done
  split at done
  · rcases of_bind_ok done with ⟨_, read, done⟩
    rcases of_bind_ok done with ⟨_, _, done⟩
    cases done
    exact ⟨rfl, read⟩
  · rcases of_bind_ok done with ⟨_, _, done⟩
    rcases of_bind_ok done with ⟨_, read, done⟩
    rcases of_bind_ok done with ⟨_, _, done⟩
    cases done
    exact ⟨rfl, read⟩
  · cases done

section

variable (validated : unzip.skipValidation = false)

include validated

lemma extractFile_ok {entry : LocalEntry}
    (done : unzip.extractFile relpath entry state = .ok (computed, result)) :
    result.localHeaders = state.localHeaders /\ computed.crc32 = entry.computeHash /\
      (∃ contents, entry.contents = .ok contents /\ computed.uncompressedSize = contents.length) /\
      (entry.header.dataDescriptor = false -> entry.header.compressedSize = entry.bytesRead) := by
  rcases of_bind_ok done with ⟨created, ensured, done⟩
  rcases of_bind_ok done with ⟨⟨contents, written⟩, wrote, done⟩
  rcases of_bind_ok done with ⟨_, _, done⟩
  rcases of_bind_ok done with ⟨_, size, done⟩
  rcases of_bind_ok done with ⟨_, _, done⟩
  cases done
  refine ⟨(writeContents_ok wrote).1.trans (ensureParent_ok ensured), rfl,
    ⟨contents, (writeContents_ok wrote).2, rfl⟩, fun plain => ?_⟩
  have sizes := require_ok validated size
  rw [plain, Bool.and_false, Bool.or_false] at sizes
  exact (of_decide_eq_true sizes).symm

lemma extractEntry_ok {entry : LocalEntry}
    (done : unzip.extractEntry relpath entry.header.isDir entry state = .ok (computed, result)) :
    result.localHeaders = state.localHeaders /\ computed.crc32 = entry.readCrc32 /\
      computed.uncompressedSize = entry.readSize /\
      (entry.header.isDir = false -> entry.header.dataDescriptor = false ->
        entry.header.compressedSize = entry.readCompressedSize) := by
  unfold extractEntry at done
  unfold LocalEntry.readCrc32 LocalEntry.readSize LocalEntry.readCompressedSize
  cases isDir : entry.header.isDir with
  | true =>
    rw [isDir] at done
    rcases extractDir_ok done with ⟨kept, rfl⟩
    exact ⟨kept, rfl, rfl, nofun⟩
  | false =>
    rw [isDir] at done
    rcases extractFile_ok validated done with ⟨kept, crc32, ⟨contents, read, size⟩, plain⟩
    refine ⟨kept, crc32, ?_, fun _ => plain⟩
    rw [read, size]
    rfl

lemma recordEntry_ok {isDir : Bool} {header : ZipEntry}
    (done : unzip.recordEntry relpath isDir header computed state = .ok result) :
    state.localHeaders.lookup header.fileOffset = none /\
      result.localHeaders = state.localHeaders ++ [(header.fileOffset,
        ⟨relpath, isDir, computed.crc32, header.compressedSize, computed.uncompressedSize,
          header.dataDescriptor, computed.digest⟩)] := by
  unfold recordEntry at done
  split at done
  next vacant =>
    cases done
    exact ⟨vacant, rfl⟩
  next =>
    rcases of_bind_ok done with ⟨_, refused, _⟩
    exact absurd (require_ok validated refused) Bool.false_ne_true

end

/-- What is kept of a local entry. -/
structure Recorded (isOther : Char -> Bool) (entry : LocalEntry)
    (kept : Nat × LocalHeaderEntry Digest) : Prop where
  offset : kept.1 = entry.header.fileOffset
  path : entry.header.safePath isOther = some kept.2.relpath
  isDir : kept.2.isDir = entry.header.isDir
  crc32 : kept.2.crc32 = entry.readCrc32
  size : kept.2.uncompressedSize = entry.readSize
  compressedSize : kept.2.compressedSize = entry.header.compressedSize
  dataDescriptor : kept.2.dataDescriptor = entry.header.dataDescriptor
  /-- The compressed size of a plain file is that of the data. -/
  plain : entry.header.isDir = false -> entry.header.dataDescriptor = false ->
    entry.header.compressedSize = entry.readCompressedSize

/-- A local entry whose name is not safe is passed over.  What is kept of another one is
new. -/
lemma localStep_ok (validated : unzip.skipValidation = false) {entry : LocalEntry}
    (done : unzip.localStep state entry = .ok result) :
    (entry.header.safePath unzip.isOther = none /\ result.localHeaders = state.localHeaders) \/
      ∃ kept, Recorded unzip.isOther entry kept /\ state.localHeaders.lookup kept.1 = none /\
        result.localHeaders = state.localHeaders ++ [kept] := by
  rcases of_bind_ok done with ⟨relpath, sanitized, done⟩
  have safe := sanitize_ok validated sanitized
  cases relpath with
  | none =>
    rcases of_bind_ok done with ⟨_, _, done⟩
    cases done
    exact .inl ⟨safe.symm, rfl⟩
  | some relpath =>
    rcases of_bind_ok done with ⟨claimed, claimedPath, done⟩
    rcases of_bind_ok done with ⟨isDir, dir, done⟩
    rcases of_bind_ok done with ⟨⟨computed, extracted⟩, extraction, done⟩
    rcases of_bind_ok done with ⟨descriptor, _, done⟩
    rcases of_bind_ok done with ⟨_, _, done⟩
    rcases of_bind_ok done with ⟨recorded, record, done⟩
    cases done
    have dirs := isDir_of_ofZip dir
    rw [<- dirs] at extraction record
    rcases extractEntry_ok validated extraction with ⟨sameHeaders, crc32, size, plain⟩
    rcases recordEntry_ok validated record with ⟨vacant, kept⟩
    rw [sameHeaders, claimPath_ok claimedPath] at vacant kept
    exact .inr ⟨_, ⟨rfl, safe.symm, rfl, crc32, size, rfl, rfl, plain⟩, vacant, kept⟩

/-- The local entries with safe names. -/
def safeLocals (unzip : Unzip Disk Digest) (stream : ZipStream) : List LocalEntry :=
  stream.locals.filter fun entry => (entry.header.safePath unzip.isOther).isSome

/-- What is kept after the local entries: one record for each that is safe, by different
offsets. -/
lemma foldlM_localStep (validated : unzip.skipValidation = false) {entries : List LocalEntry}
    (distinct : (state.localHeaders.map Prod.fst).Nodup)
    (done : entries.foldlM unzip.localStep state = .ok result) :
    (result.localHeaders.map Prod.fst).Nodup /\ ∃ kept,
      result.localHeaders = state.localHeaders ++ kept /\
      List.Forall₂ (Recorded unzip.isOther)
        (entries.filter fun entry => (entry.header.safePath unzip.isOther).isSome) kept := by
  induction entries generalizing state with
  | nil =>
    cases done
    exact ⟨distinct, [], (append_nil _).symm, .nil⟩
  | cons entry entries ih =>
    rw [foldlM_cons] at done
    rcases of_bind_ok done with ⟨middle, step, done⟩
    rcases localStep_ok validated step with ⟨skipped, same⟩ | ⟨record, recorded, vacant, added⟩
    · rw [<- same] at distinct
      rcases ih distinct done with ⟨nodup, kept, parts, each⟩
      refine ⟨nodup, kept, by rw [parts, same], ?_⟩
      rwa [filter_cons_of_neg (by simp [skipped])]
    · have fresh : record.1 ∉ state.localHeaders.map Prod.fst := by
        intro member
        rcases mem_map.mp member with ⟨other, mem, same⟩
        have different := lookup_eq_none_iff.mp vacant other mem
        simp [same] at different
      have distinct' : (middle.localHeaders.map Prod.fst).Nodup := by
        rw [added, map_append, nodup_append]
        refine ⟨distinct, nodup_singleton _, fun key mem other single same => ?_⟩
        rw [mem_singleton.mp single] at same
        exact fresh (same ▸ mem)
      rcases ih distinct' done with ⟨nodup, kept, parts, each⟩
      refine ⟨nodup, record :: kept, ?_, ?_⟩
      · rw [parts, added, append_assoc]
        rfl
      · rw [filter_cons_of_pos (by simp [recorded.path])]
        exact .cons recorded each

/-! ## The central directory -/

/-- An entry of the central directory agrees with what was kept. -/
structure Agrees (isOther : Char -> Bool) (entry : ZipEntry)
    (kept : Nat × LocalHeaderEntry Digest) : Prop where
  offset : kept.1 = entry.fileOffset
  path : entry.safePath isOther = some kept.2.relpath
  isDir : kept.2.isDir = entry.isDir
  crc32 : kept.2.crc32 = entry.crc32
  size : kept.2.uncompressedSize = entry.uncompressedSize
  compressedSize : kept.2.dataDescriptor = false -> kept.2.compressedSize = entry.compressedSize

lemma checkEntry_ok (validated : unzip.skipValidation = false) {header : LocalHeaderEntry Digest}
    (safe : entry.safePath unzip.isOther = some relpath)
    (checked : unzip.checkEntry relpath entry.isDir entry header = .ok done) :
    Agrees unzip.isOther entry (entry.fileOffset, header) := by
  rcases of_bind_ok checked with ⟨_, path, checked⟩
  rcases of_bind_ok checked with ⟨_, isDir, checked⟩
  rcases of_bind_ok checked with ⟨_, crc32, checked⟩
  rcases of_bind_ok checked with ⟨_, size, checked⟩
  have samePath := of_decide_eq_true (require_ok validated path)
  have compressed := require_ok validated checked
  refine ⟨rfl, by rw [safe, samePath], of_decide_eq_true (require_ok validated isDir),
    of_decide_eq_true (require_ok validated crc32),
    of_decide_eq_true (require_ok validated size), fun plain => ?_⟩
  rw [plain, Bool.or_false] at compressed
  exact of_decide_eq_true compressed

variable {state result : CentralState Disk Digest}

lemma matchEntry_ok (validated : unzip.skipValidation = false)
    (safe : entry.safePath unzip.isOther = some relpath)
    (done : unzip.matchEntry relpath entry.isDir entry state = .ok result) :
    ∃ kept ∈ state.localHeaders, Agrees unzip.isOther entry kept /\ result.localHeaders =
        state.localHeaders.filter fun other => other.1 ≠ entry.fileOffset := by
  unfold matchEntry at done
  split at done
  next header found =>
    rcases of_bind_ok done with ⟨_, checked, done⟩
    have mem : (entry.fileOffset, header) ∈ state.localHeaders := by
      rcases lookup_eq_some_iff.mp found with ⟨before, after, parts, _⟩
      rw [parts]
      exact mem_append_right _ mem_cons_self
    refine ⟨_, mem, checkEntry_ok validated safe checked, ?_⟩
    split at done
    · split at done
      · cases done
        rfl
      · cases done
        rfl
    · cases done
      rfl
  next =>
    rcases of_bind_ok done with ⟨_, refused, _⟩
    exact absurd (require_ok validated refused) Bool.false_ne_true

lemma setMode_ok {mode : Nat} (done : unzip.setMode relpath mode state = .ok result) :
    result.localHeaders = state.localHeaders := by
  rcases of_bind_ok done with ⟨recorded, record, done⟩
  have kept : recorded.localHeaders = state.localHeaders := by
    unfold recordMode at record
    split at record
    · cases record
      rfl
    · rcases of_bind_ok record with ⟨_, _, record⟩
      cases record
      rfl
  split at done
  · rcases of_bind_ok done with ⟨_, _, done⟩
    cases done
    exact kept
  · cases done
    exact kept

/-- An entry of the central directory whose name is not safe is passed over.  Another one
agrees with a local header, which is taken out. -/
lemma centralStep_ok (validated : unzip.skipValidation = false)
    (done : unzip.centralStep state entry = .ok result) :
    (entry.safePath unzip.isOther = none /\ result.localHeaders = state.localHeaders) \/
      ∃ kept ∈ state.localHeaders, Agrees unzip.isOther entry kept /\ result.localHeaders =
          state.localHeaders.filter fun other => other.1 ≠ entry.fileOffset := by
  rcases of_bind_ok done with ⟨relpath, sanitized, done⟩
  have safe := sanitize_ok validated sanitized
  cases relpath with
  | none =>
    cases done
    exact .inl ⟨safe.symm, rfl⟩
  | some relpath =>
    rcases of_bind_ok done with ⟨isDir, dir, done⟩
    rcases of_bind_ok done with ⟨matched, matching, done⟩
    rw [<- isDir_of_ofZip dir] at matching
    rcases matchEntry_ok validated safe.symm matching with ⟨kept, mem, agrees, rest⟩
    have same : result.localHeaders = matched.localHeaders := by
      split at done
      · cases done
        rfl
      · split at done
        · cases done
          rfl
        · exact setMode_ok done
    exact .inr ⟨kept, mem, agrees, same.trans rest⟩

variable {headers : List (Nat × LocalHeaderEntry Digest)}

lemma perm_cons_filter
    {kept : Nat × LocalHeaderEntry Digest} (distinct : (headers.map Prod.fst).Nodup)
    (mem : kept ∈ headers) :
    headers.Perm (kept :: headers.filter fun other => other.1 ≠ kept.1) := by
  rcases append_of_mem mem with ⟨before, after, rfl⟩
  rw [map_append, map_cons, nodup_middle, nodup_cons, mem_append]
    at distinct
  have others : ∀ other ∈ before ++ after, other.1 ≠ kept.1 := by
    intro other member same
    refine distinct.1 ?_
    rw [<- same]
    exact (mem_append.mp member).imp (mem_map_of_mem) (mem_map_of_mem)
  have rest : (before ++ kept :: after).filter (fun other => other.1 ≠ kept.1) =
      before ++ after := by
    rw [filter_append, filter_cons_of_neg (by simp), <- filter_append]
    exact filter_eq_self.mpr fun other member => by simpa using others other member
  rw [rest]
  exact perm_middle

/-- The entries of the central directory with safe names. -/
def safeCentral (unzip : Unzip Disk Digest) (stream : ZipStream) : List ZipEntry :=
  stream.central.filter fun entry => (entry.safePath unzip.isOther).isSome

/-- The entries of the central directory take out different local headers. -/
lemma foldlM_centralStep (validated : unzip.skipValidation = false) {entries : List ZipEntry}
    (distinct : (state.localHeaders.map Prod.fst).Nodup)
    (done : entries.foldlM unzip.centralStep state = .ok result) :
    ∃ matched, state.localHeaders.Perm (matched ++ result.localHeaders) /\
      List.Forall₂ (Agrees unzip.isOther)
        (entries.filter fun entry => (entry.safePath unzip.isOther).isSome) matched := by
  induction entries generalizing state with
  | nil =>
    cases done
    exact ⟨[], .refl _, .nil⟩
  | cons entry entries ih =>
    rw [foldlM_cons] at done
    rcases of_bind_ok done with ⟨middle, step, done⟩
    rcases centralStep_ok validated step with ⟨skipped, same⟩ | ⟨kept, mem, agrees, rest⟩
    · rw [<- same] at distinct
      rcases ih distinct done with ⟨matched, perm, each⟩
      refine ⟨matched, same ▸ perm, ?_⟩
      rwa [filter_cons_of_neg (by simp [skipped])]
    · have taken := perm_cons_filter distinct mem
      rw [agrees.offset, <- rest] at taken
      have distinct' : (middle.localHeaders.map Prod.fst).Nodup := by
        have nodup := (taken.map Prod.fst).nodup_iff.mp distinct
        exact (nodup_cons.mp nodup).2
      rcases ih distinct' done with ⟨matched, perm, each⟩
      refine ⟨kept :: matched, taken.trans (perm.cons kept), ?_⟩
      rw [filter_cons_of_pos (by simp [agrees.path])]
      exact .cons agrees each

/-! ## Accepted archives -/

lemma checkComplete_ok (validated : unzip.skipValidation = false)
    (complete : unzip.checkComplete headers = .ok done) : headers = [] := by
  cases headers with
  | nil => rfl
  | cons header headers =>
    exact absurd (require_ok validated complete) Bool.false_ne_true

/-- What is kept of an accepted archive, in the order of the local entries and in that of
the central directory. -/
lemma exists_kept_of_unzipInner (validated : unzip.skipValidation = false)
    {stream : ZipStream} {disk : Disk} (accepted : unzip.unzipInner stream disk = .ok result) :
    ∃ kept : List (Nat × LocalHeaderEntry Digest), ∃ matched,
      (kept.map Prod.fst).Nodup /\ kept.Perm matched /\
      List.Forall₂ (Recorded unzip.isOther) (unzip.safeLocals stream) kept /\
      List.Forall₂ (Agrees unzip.isOther) (unzip.safeCentral stream) matched := by
  rcases of_bind_ok accepted with ⟨extracted, locals, accepted⟩
  rcases of_bind_ok accepted with ⟨_, _, accepted⟩
  rcases of_bind_ok accepted with ⟨state, central, accepted⟩
  rcases of_bind_ok accepted with ⟨_, _, accepted⟩
  rcases of_bind_ok accepted with ⟨_, complete, _⟩
  have empty : ((⟨disk, [], [], [], 0⟩ : LocalState Disk Digest).localHeaders.map Prod.fst).Nodup :=
    nodup_nil
  rcases foldlM_localStep validated empty locals with ⟨nodup, kept, parts, recorded⟩
  rw [nil_append] at parts
  rcases foldlM_centralStep validated nodup central with ⟨matched, perm, agreed⟩
  rw [checkComplete_ok validated complete, append_nil, parts] at perm
  exact ⟨kept, matched, parts ▸ nodup, perm, recorded, agreed⟩

/-- The extracted entries are those of the central directory: they pair by their offsets,
and each pair agrees on the path, on being a directory, and on what was read. -/
structure Described (unzip : Unzip Disk Digest) (stream : ZipStream) : Prop where
  distinct : ((unzip.safeLocals stream).map fun entry => entry.header.fileOffset).Nodup
  paired : ((unzip.safeCentral stream).map ZipEntry.fileOffset).Perm
    ((unzip.safeLocals stream).map fun entry => entry.header.fileOffset)
  agree : ∀ extracted ∈ unzip.safeLocals stream, ∀ entry ∈ unzip.safeCentral stream,
      extracted.header.fileOffset = entry.fileOffset ->
        extracted.header.safePath unzip.isOther = entry.safePath unzip.isOther /\
        extracted.header.isDir = entry.isDir /\ extracted.readCrc32 = entry.crc32 /\
        extracted.readSize = entry.uncompressedSize /\
        extracted.readCompressedSize = entry.compressedSize

/-- The central directory gives the compressed size that was read of the entries with a
data descriptor, and none for directories. -/
def SizesGiven (unzip : Unzip Disk Digest) (stream : ZipStream) : Prop :=
  ∀ extracted ∈ unzip.safeLocals stream, ∀ entry ∈ unzip.safeCentral stream,
      extracted.header.fileOffset = entry.fileOffset ->
      extracted.header.dataDescriptor = true \/ extracted.header.isDir = true ->
        extracted.readCompressedSize = entry.compressedSize

lemma map_eq_of_forall₂ {First Second Key : Type} {related : First -> Second -> Prop}
    {first : List First} {second : List Second} {key : First -> Key} {otherKey : Second -> Key}
    (each : List.Forall₂ related first second)
    (same : ∀ one other, related one other -> otherKey other = key one) :
    second.map otherKey = first.map key := by
  induction each with
  | nil => rfl
  | cons holds _ ih =>
    rw [map_cons, map_cons, same _ _ holds, ih]

lemma exists_related {First Second : Type} {related : First -> Second -> Prop}
    {first : List First} {second : List Second} (each : List.Forall₂ related first second)
    {one : First} (member : one ∈ first) :
    ∃ other ∈ second, related one other := by
  induction each with
  | nil => cases member
  | cons holds _ ih =>
    rcases mem_cons.mp member with rfl | member
    · exact ⟨_, mem_cons_self, holds⟩
    · rcases ih member with ⟨other, mem, related⟩
      exact ⟨other, mem_cons_of_mem _ mem, related⟩

/-- The archive that was extracted is the one that its central directory describes, exactly
if the compressed sizes that are not compared are right. -/
theorem unzipInner_described_iff (validated : unzip.skipValidation = false)
    {stream : ZipStream} {disk : Disk} {result : CentralState Disk Digest}
    (accepted : unzip.unzipInner stream disk = .ok result) :
    unzip.Described stream <-> unzip.SizesGiven stream := by
  constructor
  · intro described extracted mem entry central same _
    exact (described.agree extracted mem entry central same).2.2.2.2
  intro given
  rcases exists_kept_of_unzipInner validated accepted with
    ⟨kept, matched, nodup, perm, recorded, agreed⟩
  have keptOffsets : kept.map Prod.fst =
      (unzip.safeLocals stream).map fun entry => entry.header.fileOffset :=
    map_eq_of_forall₂ recorded fun _ _ holds => holds.offset
  have matchedOffsets := map_eq_of_forall₂ agreed fun _ _ holds => holds.offset
  refine ⟨keptOffsets ▸ nodup, ?_, fun extracted mem entry central same => ?_⟩
  · rw [<- matchedOffsets, <- keptOffsets]
    exact (perm.map Prod.fst).symm
  · rcases exists_related recorded mem with ⟨header, headerKept, record⟩
    rcases exists_related agreed central with ⟨other, otherMatched, agrees⟩
    -- Both records have the same offset, so they are one.
    have one : header = other := by
      refine inj_on_of_nodup_map nodup headerKept (perm.mem_iff.mpr otherMatched) ?_
      rw [record.offset, agrees.offset, same]
    subst one
    refine ⟨by rw [record.path, agrees.path], record.isDir.symm.trans agrees.isDir,
      record.crc32.symm.trans agrees.crc32, record.size.symm.trans agrees.size, ?_⟩
    by_cases special : extracted.header.dataDescriptor = true \/ extracted.header.isDir = true
    · exact given extracted mem entry central same special
    · rw [not_or, Bool.not_eq_true, Bool.not_eq_true] at special
      have plain := record.plain special.2 special.1
      have compared := agrees.compressedSize (record.dataDescriptor.trans special.1)
      rw [<- plain, <- record.compressedSize, compared]

/-! ## A file with a data descriptor -/

/-- A disk that accepts everything. -/
def acceptingDisk : DiskOps Unit where
  createDirAll := fun _ _ => .ok ()
  createNew := fun _ _ => .ok ()
  write := fun _ _ _ => .ok ()
  read := fun _ _ => .ok []
  makeExecutable := fun _ _ => .ok ()

def validating : Unzip Unit Unit :=
  ⟨false, false, [47, 116], fun _ => false, acceptingDisk, fun _ => ()⟩

/-- A file `a` of two bytes, three when compressed, whose sizes follow in a data
descriptor. -/
def describedFile : LocalEntry where
  header := ⟨.ok "a", 0, 0, 0, 0, true, .ok false, none⟩
  contents := .ok [1, 2]
  bytesRead := 3
  computeHash := 7
  skip := .ok (some ⟨7, 3, 2⟩)
  nextOffset := 40

variable (compressedSize : Nat)

/-- Its entry in the central directory, with some compressed size. -/
def centralFile : ZipEntry :=
  ⟨.ok "a", 0, 7, compressedSize, 2, true, .ok false, none⟩

/-- The archive with that file. -/
def descriptorStream : ZipStream where
  locals := [describedFile]
  localsEnd := .ok ()
  central := [centralFile compressedSize]
  centralEnd := .ok ⟨1, [], false⟩
  trailing := .ok []

/-- What is left after the extraction. -/
def descriptorResult : CentralState Unit Unit :=
  ⟨(), [], 1, [⟨[97], 2, none, false⟩], [], []⟩

lemma safeLocals_descriptorStream :
    validating.safeLocals (descriptorStream compressedSize) = [describedFile] := by
  rfl

lemma safeCentral_descriptorStream :
    validating.safeCentral (descriptorStream compressedSize) = [centralFile compressedSize] := by
  rfl

theorem unzipInner_wrong_size :
    validating.unzipInner (descriptorStream 99) () = .ok descriptorResult /\
      ¬validating.Described (descriptorStream 99) := by
  refine ⟨by rfl, fun described => ?_⟩
  have sizes := (described.agree describedFile (by simp [safeLocals_descriptorStream])
    (centralFile 99) (by simp [safeCentral_descriptorStream]) rfl).2.2.2.2
  cases sizes

theorem unzipInner_right_size : validating.Described (descriptorStream 3) := by
  have accepted : validating.unzipInner (descriptorStream 3) () = .ok descriptorResult := by rfl
  refine (unzipInner_described_iff rfl accepted).mpr fun extracted mem entry central _ _ => ?_
  rw [safeLocals_descriptorStream, mem_singleton] at mem
  rw [safeCentral_descriptorStream] at central
  rw [mem, mem_singleton.mp central]
  rfl

end Unzip

end Uv.Extract
