import Uv.Extract.ArchivePath

namespace Uv.Extract

open Library UnixPath

/-!
# Extracting a ZIP archive from a stream

The local entries of the archive are extracted as they come, and what was read is kept by
the offset of each entry.  The central directory is read after them.  Its entries are
compared one by one with what was kept, and nothing may be left over.

What the archive reader reports is given: the fields of the headers, the contents, the
number of compressed bytes, the checksum and the data descriptor that follow.  The disk is
an arbitrary state with operations that may fail.
-/

inductive ZipError where
  | stringNotUtf8
  | trailingContents
  | other
  deriving DecidableEq

/-- The fields of a local header or of an entry of the central directory. -/
structure ZipEntry where
  filename : Except ZipError String
  fileOffset : Nat
  crc32 : Nat
  compressedSize : Nat
  uncompressedSize : Nat
  dataDescriptor : Bool
  dir : Except ZipError Bool
  unixPermissions : Option Nat

structure DataDescriptor where
  crc : Nat
  compressedSize : Nat
  uncompressedSize : Nat

inductive UnzipError where
  | zip (error : ZipError)
  | io
  | name (error : NameError)
  | localHeaderNotUtf8 (offset : Nat)
  | centralDirectoryEntryNotUtf8 (index : Nat)
  | duplicateOutputPath (path : UnixPath)
  | badCrc32 (path : UnixPath) (computed expected : Nat)
  | badUncompressedSize (path : UnixPath) (computed expected : Nat)
  | badCompressedSize (path : UnixPath) (computed expected : Nat)
  | duplicateLocalFileHeader (path : UnixPath)
  | missingDataDescriptor (path : UnixPath)
  | unexpectedDataDescriptor (path : UnixPath)
  | conflictingPaths (offset : Nat) (localPath centralDirectoryPath : UnixPath)
  | conflictingEntryTypes (path : UnixPath) (offset : Nat)
  | conflictingChecksums (path : UnixPath) (offset : Nat) (localCrc32 centralCrc32 : Nat)
  | conflictingUncompressedSizes (path : UnixPath) (offset : Nat) (localSize centralSize : Nat)
  | conflictingCompressedSizes (path : UnixPath) (offset : Nat) (localSize centralSize : Nat)
  | missingLocalFileHeader (path : UnixPath) (offset : Nat)
  | duplicateExecutableFileHeader (path : UnixPath)
  | extensibleData
  | zipInZip
  | conflictingNumberOfEntries (expected actual : Nat)
  | missingCentralDirectoryEntry (path : UnixPath) (offset : Nat)
  | trailingContents
  deriving DecidableEq

/-- A local entry: its header, what reading it gives, and what closing it gives. -/
structure LocalEntry where
  header : ZipEntry
  contents : Except UnzipError (List UInt8)
  bytesRead : Nat
  computeHash : Nat
  skip : Except ZipError (Option DataDescriptor)
  nextOffset : Nat

structure EndOfCentralDirectory where
  numEntries : Nat
  comment : List UInt8
  extensible : Bool

/-- The archive, as its readers report it. -/
structure ZipStream where
  locals : List LocalEntry
  /-- How the local entries end. -/
  localsEnd : Except ZipError Unit
  central : List ZipEntry
  centralEnd : Except ZipError EndOfCentralDirectory
  trailing : Except UnzipError (List UInt8)

/-- The operations on the disk.  An existing path is told apart from other failures. -/
structure DiskOps (Disk : Type) where
  createDirAll : UnixPath -> Disk -> Except UnzipError Disk
  createNew : UnixPath -> Disk -> Except (Option UnzipError) Disk
  write : UnixPath -> List UInt8 -> Disk -> Except UnzipError Disk
  read : UnixPath -> Disk -> Except UnzipError (List UInt8)
  makeExecutable : UnixPath -> Disk -> Except UnzipError Disk

structure ComputedEntry (Digest : Type) where
  crc32 : Nat
  uncompressedSize : Nat
  compressedSize : Nat
  digest : Option Digest

structure LocalHeaderEntry (Digest : Type) where
  relpath : UnixPath
  isDir : Bool
  crc32 : Nat
  compressedSize : Nat
  uncompressedSize : Nat
  dataDescriptor : Bool
  digest : Option Digest

/-- The environment of an extraction. -/
structure Unzip (Disk Digest : Type) where
  skipValidation : Bool
  hashContents : Bool
  target : UnixPath
  isOther : Char -> Bool
  disk : DiskOps Disk
  blake3 : List UInt8 -> Digest

structure LocalState (Disk Digest : Type) where
  disk : Disk
  directories : List UnixPath
  outputPaths : List UnixPath
  localHeaders : List (Nat × LocalHeaderEntry Digest)
  offset : Nat

variable {Disk Digest : Type}

namespace Unzip

variable (unzip : Unzip Disk Digest)

/-- A check that is made only if the archive is validated. -/
def require (holds : Bool) (error : UnzipError) :
    Except UnzipError Unit :=
  if holds || unzip.skipValidation then .ok () else .error error

/-- The path of an entry, if its name is safe. -/
def sanitize (filename : Except ZipError String)
    (notUtf8 : UnzipError) : Except UnzipError (Option UnixPath) :=
  match filename with
  | .error .stringNotUtf8 => .error notUtf8
  | .error error => .error (.zip error)
  | .ok name =>
    match fromArchiveMember unzip.isOther name with
    | .ok relpath => .ok relpath
    | .error error => if unzip.skipValidation then .ok none else .error (.name error)

/-- Create a directory that was not created before. -/
def ensureDir (path : UnixPath) (state : LocalState Disk Digest) :
    Except UnzipError (LocalState Disk Digest) :=
  if path ∈ state.directories then .ok state
  else do
    let disk <- unzip.disk.createDirAll path state.disk
    .ok { state with disk, directories := path :: state.directories }

/-- Create the directory that a path is in. -/
def ensureParent (path : UnixPath) (state : LocalState Disk Digest) :
    Except UnzipError (LocalState Disk Digest) :=
  match parent path with
  | some directory => unzip.ensureDir directory state
  | none => .ok state

/-- A result of the archive reader. -/
def ofZip {Result : Type} (result : Except ZipError Result) : Except UnzipError Result :=
  result.mapError .zip

/-! ## Local entries -/

variable (relpath : UnixPath)

def extractDir (header : ZipEntry) (state : LocalState Disk Digest) :
    Except UnzipError (ComputedEntry Digest × LocalState Disk Digest) := do
  let state <- unzip.ensureDir (push unzip.target relpath) state
  unzip.require (header.crc32 = 0) (.badCrc32 relpath 0 header.crc32)
  unzip.require (header.uncompressedSize = 0)
    (.badUncompressedSize relpath 0 header.uncompressedSize)
  .ok (⟨0, 0, 0, none⟩, state)

/-- Write the contents of an entry.  A file that is there already must have the same
contents. -/
def writeContents (entry : LocalEntry) (state : LocalState Disk Digest) :
    Except UnzipError (List UInt8 × LocalState Disk Digest) :=
  let path := push unzip.target relpath
  match unzip.disk.createNew path state.disk with
  | .ok disk => do
      let contents <- entry.contents
      let disk <- unzip.disk.write path contents disk
      .ok (contents, { state with disk })
  | .error none => do
      let existing <- unzip.disk.read path state.disk
      let contents <- entry.contents
      unzip.require (existing = contents) (.duplicateLocalFileHeader relpath)
      .ok (contents, state)
  | .error (some error) => .error error

def extractFile (entry : LocalEntry) (state : LocalState Disk Digest) :
    Except UnzipError (ComputedEntry Digest × LocalState Disk Digest) := do
  let header := entry.header
  let state <- unzip.ensureParent (push unzip.target relpath) state
  let (contents, state) <- unzip.writeContents relpath entry state
  unzip.require (contents.length = header.uncompressedSize ||
      (header.compressedSize = 0 && header.dataDescriptor))
    (.badUncompressedSize relpath contents.length header.uncompressedSize)
  unzip.require (entry.bytesRead = header.compressedSize ||
      (header.compressedSize = 0 && header.dataDescriptor))
    (.badCompressedSize relpath entry.bytesRead header.compressedSize)
  unzip.require (entry.computeHash = header.crc32 || (header.crc32 = 0 && header.dataDescriptor))
    (.badCrc32 relpath entry.computeHash header.crc32)
  let digest := if unzip.hashContents then some (unzip.blake3 contents) else none
  .ok (⟨entry.computeHash, contents.length, entry.bytesRead, digest⟩, state)

def extractEntry (isDir : Bool) (entry : LocalEntry) (state : LocalState Disk Digest) :
    Except UnzipError (ComputedEntry Digest × LocalState Disk Digest) :=
  if isDir then unzip.extractDir relpath entry.header state
  else unzip.extractFile relpath entry state

/-- A data descriptor is there if it was announced, and it says what was read. -/
def checkDescriptor (announced : Bool)
    (computed : ComputedEntry Digest) (descriptor : Option DataDescriptor) :
    Except UnzipError Unit := do
  unzip.require (!announced || descriptor.isSome) (.missingDataDescriptor relpath)
  unzip.require (announced || descriptor.isNone) (.unexpectedDataDescriptor relpath)
  match descriptor with
  | none => .ok ()
  | some descriptor => do
      unzip.require (descriptor.crc = computed.crc32)
        (.badCrc32 relpath computed.crc32 descriptor.crc)
      unzip.require (descriptor.uncompressedSize = computed.uncompressedSize)
        (.badUncompressedSize relpath computed.uncompressedSize descriptor.uncompressedSize)
      unzip.require (descriptor.compressedSize = computed.compressedSize)
        (.badCompressedSize relpath computed.compressedSize descriptor.compressedSize)

variable (state : LocalState Disk Digest)

/-- No two entries have the same path if the contents are hashed. -/
def claimPath : Except UnzipError (LocalState Disk Digest) :=
  if unzip.hashContents then
    if relpath ∈ state.outputPaths then .error (.duplicateOutputPath relpath)
    else .ok { state with outputPaths := relpath :: state.outputPaths }
  else .ok state

/-- Keep what was read of an entry, by its offset. -/
def recordEntry (isDir : Bool)
    (header : ZipEntry) (computed : ComputedEntry Digest) (state : LocalState Disk Digest) :
    Except UnzipError (LocalState Disk Digest) :=
  match state.localHeaders.lookup header.fileOffset with
  | none =>
    let recorded : LocalHeaderEntry Digest :=
      { relpath, isDir, crc32 := computed.crc32, compressedSize := header.compressedSize,
        uncompressedSize := computed.uncompressedSize, dataDescriptor := header.dataDescriptor,
        digest := computed.digest }
    .ok { state with localHeaders := state.localHeaders ++ [(header.fileOffset, recorded)] }
  | some _ => do
      unzip.require false (.duplicateLocalFileHeader relpath)
      .ok state

/-- One round of the loop over the local entries. -/
def localStep (entry : LocalEntry) :
    Except UnzipError (LocalState Disk Digest) := do
  let relpath <- unzip.sanitize entry.header.filename (.localHeaderNotUtf8 state.offset)
  match relpath with
  | none => do
      let _ <- ofZip entry.skip
      .ok { state with offset := entry.nextOffset }
  | some relpath => do
      let state <- unzip.claimPath relpath state
      let isDir <- ofZip entry.header.dir
      let (computed, state) <- unzip.extractEntry relpath isDir entry state
      let descriptor <- ofZip entry.skip
      unzip.checkDescriptor relpath entry.header.dataDescriptor computed descriptor
      let state <- unzip.recordEntry relpath isDir entry.header computed state
      .ok { state with offset := entry.nextOffset }

end Unzip

/-! ## The central directory -/

structure ExtractedFile (Digest : Type) where
  relpath : UnixPath
  size : Nat
  digest : Option Digest
  executable : Bool

structure CentralState (Disk Digest : Type) where
  disk : Disk
  localHeaders : List (Nat × LocalHeaderEntry Digest)
  numEntries : Nat
  files : List (ExtractedFile Digest)
  digestDirectories : List UnixPath
  modes : List (UnixPath × Nat)

namespace Unzip

variable (unzip : Unzip Disk Digest) (relpath : UnixPath)

/-- The fields of an entry agree with what was kept of its local header. -/
def checkEntry (isDir : Bool)
    (entry : ZipEntry) (header : LocalHeaderEntry Digest) : Except UnzipError Unit := do
  unzip.require (header.relpath = relpath)
    (.conflictingPaths entry.fileOffset header.relpath relpath)
  unzip.require (header.isDir = isDir) (.conflictingEntryTypes relpath entry.fileOffset)
  unzip.require (header.crc32 = entry.crc32)
    (.conflictingChecksums relpath entry.fileOffset header.crc32 entry.crc32)
  unzip.require (header.uncompressedSize = entry.uncompressedSize)
    (.conflictingUncompressedSizes relpath entry.fileOffset header.uncompressedSize
      entry.uncompressedSize)
  unzip.require (header.compressedSize = entry.compressedSize || header.dataDescriptor)
    (.conflictingCompressedSizes relpath entry.fileOffset header.compressedSize
      entry.compressedSize)

variable (mode : Nat)

/-- Any of the three executable bits. -/
def isExecutable : Bool := mode &&& 0o111 ≠ 0

/-- Compare an entry with its local header and take that out. -/
def matchEntry (isDir : Bool) (entry : ZipEntry) (state : CentralState Disk Digest) :
    Except UnzipError (CentralState Disk Digest) :=
  match state.localHeaders.lookup entry.fileOffset with
  | some header => do
      unzip.checkEntry relpath isDir entry header
      let state := { state with
        localHeaders := state.localHeaders.filter fun other => other.1 ≠ entry.fileOffset }
      if isDir then
        if unzip.hashContents then
          .ok { state with digestDirectories := state.digestDirectories ++ [relpath] }
        else .ok state
      else
        let file := ⟨relpath, header.uncompressedSize, header.digest,
          entry.unixPermissions.any isExecutable⟩
        .ok { state with files := state.files ++ [file] }
  | none => do
      unzip.require false (.missingLocalFileHeader relpath entry.fileOffset)
      .ok state

variable (state : CentralState Disk Digest)

/-- The permissions are the same for all entries of one path. -/
def recordMode : Except UnzipError (CentralState Disk Digest) :=
  match state.modes.lookup relpath with
  | none => .ok { state with modes := (relpath, mode) :: state.modes }
  | some previous => do
      unzip.require (mode = previous) (.duplicateExecutableFileHeader relpath)
      .ok state

/-- Set the permissions of a file. -/
def setMode : Except UnzipError (CentralState Disk Digest) := do
  let state <- unzip.recordMode relpath mode state
  if isExecutable mode then do
    let disk <- unzip.disk.makeExecutable (push unzip.target relpath) state.disk
    .ok { state with disk }
  else .ok state

/-- One entry of the central directory. -/
def centralStep (entry : ZipEntry) : Except UnzipError (CentralState Disk Digest) := do
  let state := { state with numEntries := state.numEntries + 1 }
  let relpath <- unzip.sanitize entry.filename
    (.centralDirectoryEntryNotUtf8 (state.numEntries - 1))
  match relpath with
  | none => .ok state
  | some relpath => do
      let isDir <- ofZip entry.dir
      let state <- unzip.matchEntry relpath isDir entry state
      if isDir then .ok state
      else
        match entry.unixPermissions with
        | none => .ok state
        | some mode => unzip.setMode relpath mode state

/-- What follows the entries of the central directory. -/
def checkEnd (numEntries : Nat)
    (centralEnd : Except ZipError EndOfCentralDirectory) : Except UnzipError Unit :=
  match centralEnd with
  | .error error =>
    if error = .trailingContents /\ unzip.skipValidation = true then .ok ()
    else .error (.zip error)
  | .ok record => do
      unzip.require (!record.extensible) .extensibleData
      unzip.require (!record.comment.any fun byte => 1 <= byte && byte <= 8) .zipInZip
      unzip.require (record.numEntries = numEntries)
        (.conflictingNumberOfEntries numEntries record.numEntries)

/-- No local header is left without an entry. -/
def checkComplete (localHeaders : List (Nat × LocalHeaderEntry Digest)) : Except UnzipError Unit :=
  match localHeaders with
  | [] => .ok ()
  | (offset, header) :: _ =>
    unzip.require false (.missingCentralDirectoryEntry header.relpath offset)

/-- Nothing but null bytes follows the archive. -/
def checkTrailing (trailing : Except UnzipError (List UInt8)) : Except UnzipError Unit :=
  if unzip.skipValidation then .ok ()
  else do
    let bytes <- trailing
    if bytes.all (fun byte => byte = 0) then .ok () else .error .trailingContents

def unzipInner (stream : ZipStream) (disk : Disk) :
    Except UnzipError (CentralState Disk Digest) := do
  let extracted <- stream.locals.foldlM unzip.localStep ⟨disk, [], [], [], 0⟩
  ofZip stream.localsEnd
  let state <- stream.central.foldlM unzip.centralStep
    ⟨extracted.disk, extracted.localHeaders, 0, [], [], []⟩
  unzip.checkEnd state.numEntries stream.centralEnd
  unzip.checkComplete state.localHeaders
  unzip.checkTrailing stream.trailing
  .ok state

end Unzip

end Uv.Extract
