import Fcfn.Lib.Files
import Fcfn.Store.Pointer
import Mathlib.Data.List.Sort

/-!
# The store over its files

The store as it reads and writes its directory. Every operation is a program whose steps are the
changes it makes to the files, in order, so a crash between any two of them, or within one, is a
crash of that list. The directory exists, and a file is read as it is; which steps the file system
fails, and after how many bytes, is an input. -/

namespace Fcfn

open Words Files

abbrev StoreDir := Dir Bytes UInt8
abbrev FileStep := Step Bytes UInt8
abbrev FileOp (α : Type) := Program Bytes UInt8 Status α

/-! ## Snapshot files -/

def kSnapshotFileMagic : Bytes := bytesOf "FCFNSNAP"
def kSnapshotFormatVersion : UInt16 := 1

/-- The bytes of a snapshot file. -/
def encodeSnapshotFile (payload : Bytes) : Bytes :=
  kSnapshotFileMagic ++ (le16 kSnapshotFormatVersion ++ (le32 (UInt32.ofNat payload.length) ++
    (le32 (crc32c payload) ++ payload)))

/-- Decode a snapshot file. -/
def decodeSnapshotFile (bytes : Bytes) : Result Bytes := do
  require (18 ≤ bytes.length) .corrupt "snapshot file is too short"
  require (bytes.take 8 == kSnapshotFileMagic) .corrupt "snapshot file magic mismatch"
  require (getU16 bytes 8 == kSnapshotFormatVersion) .versionUnsupported
    "snapshot format version is not supported"
  let length := (getU32 bytes 10).toNat
  require (length ≤ kMaxSnapshotPayloadBytes) .limitExceeded
    "snapshot payload length exceeds the bound"
  require (18 + length ≤ bytes.length) .corrupt "snapshot file is shorter than its header declares"
  require (bytes.length ≤ 18 + length) .trailingGarbage
    "snapshot file has bytes after its payload"
  let payload := (bytes.drop 18).take length
  require (crc32c payload == getU32 bytes 14) .corrupt "snapshot payload integrity check failed"
  return payload

/-! ## File primitives -/

/-- A process, the other processes that are reported alive, and the steps its file system fails. -/
structure FileEnv where
  process_id : UInt64
  alive : List UInt64 := []
  faults : Faults Bytes UInt8 := []
  deriving DecidableEq

/-- Read a file within a bound. -/
def readFile (name : Bytes) (max_bytes : ℕ) (dir : StoreDir) : Result Bytes :=
  match dir.read name with
  | none => fail .ioError "cannot stat durable file"
  | some bytes =>
    if bytes.length > max_bytes then
      fail .limitExceeded "durable file exceeds the configured bound"
    else .ok bytes

/-- Whether a file is there. -/
def fileExists (name : Bytes) : FileOp Bool := .look fun dir => .ok (dir.read name).isSome

/-- Write a file under a temporary name and put it in the place of another. -/
def writeFileAtomic (env : FileEnv) (target bytes : Bytes) : FileOp Unit := do
  if ← .attempt env.faults (.create (temporaryFor target) bytes) then
    if ← .attempt env.faults (.rename (temporaryFor target) target) then
      return
    else
      let _ ← .attempt env.faults (.remove (temporaryFor target))
      .throw ⟨.ioError, "atomic replace failed"⟩
  else
    let _ ← .attempt env.faults (.remove (temporaryFor target))
    .throw ⟨.ioError, "short write to temporary file"⟩

/-- Append to a file. -/
def appendFileDurable (env : FileEnv) (path bytes : Bytes) : FileOp Unit := do
  if ← .attempt env.faults (.append path bytes) then
    return
  else
    .throw ⟨.ioError, "short append"⟩

/-- Remove a file, if it is there. -/
def removeFileIfPresent (env : FileEnv) (path : Bytes) : FileOp Unit := do
  if ← .attempt env.faults (.remove path) then
    return
  else
    .throw ⟨.ioError, "cannot remove file"⟩

/-- Remove files until one cannot be removed. -/
def removeFiles (env : FileEnv) : List Bytes → FileOp Unit
  | [] => return
  | path :: paths => do
    removeFileIfPresent env path
    removeFiles env paths

/-! ## The lock -/

/-- Whether a process is taken to be alive. -/
def processIsAlive (env : FileEnv) (pid : UInt64) : Bool :=
  pid == env.process_id || (pid != 0 && env.alive.contains pid)

/-- The process that a lock names. -/
def lockOwner (existing : Bytes) : Option UInt64 := parseU64 (existing.takeWhile (· != 0))

/-- A lock that names a live process is respected. -/
def checkLock (env : FileEnv) (dir : StoreDir) : Result Unit :=
  require (!(readFile lockPath 64 dir).toOption.any fun existing =>
    (lockOwner existing).any (processIsAlive env)) .alreadyExists
    "store is already open by a live process"

/-- Take the lock. -/
def acquireLock (env : FileEnv) : FileOp Unit := do
  .look (checkLock env)
  if ← fileExists lockPath then
    removeFileIfPresent env lockPath
    writeFileAtomic env lockPath (toDecimal env.process_id)
  else
    writeFileAtomic env lockPath (toDecimal env.process_id)

/-- Give the lock back when what is done under it fails. -/
def releasingLock {α : Type} (env : FileEnv) (op : FileOp α) : FileOp α := do
  match ← op.outcome with
  | .ok a => return a
  | .error status =>
    let _ ← .attempt env.faults (.remove lockPath)
    .throw status

/-! ## The store -/

def kMaxRetainedSnapshots : ℕ := 4

/-- How a store is opened. -/
structure StoreOptions where
  retained_snapshots : ℕ := kMaxRetainedSnapshots
  allow_torn_tail_recovery : Bool := true
  deriving DecidableEq

/-- An open store. -/
structure FileStore where
  options : StoreOptions
  last_sequence : Sequence
  wal_segment : SnapshotSequence
  snapshot_sequence : SnapshotSequence
  deriving DecidableEq

/-- What opening a store found. -/
structure FileRecovery where
  fresh : Bool := false
  torn_tail_bytes : ℕ := 0
  snapshot_payload : Bytes := []
  replayed : List Frame := []

namespace FileStore

/-- The number in a file name: what follows its first word, less the five bytes of an ending when
the name is that long. -/
def fileNumber (word name : Bytes) : Option UInt64 :=
  if word.isPrefixOf name && word.length < name.length then
    let digits := name.drop word.length
    parseU64 (if word.length + 5 ≤ name.length then digits.take (name.length - word.length - 5)
      else digits)
  else none

/-- The numbers of the files whose names start with a word, in order. -/
def fileNumbers (word : Bytes) (dir : StoreDir) : List UInt64 :=
  (dir.filterMap fun file => fileNumber word file.1).insertionSort (· ≤ ·)

/-- Remove the oldest snapshots past the bound, and the log segments before the active one. The
active snapshot is passed over. -/
def cleanupOldFiles (env : FileEnv) (store : FileStore) : FileOp Unit := do
  let snapshots ← .look fun dir => .ok (fileNumbers (bytesOf "snapshot-") dir)
  let logs ← .look fun dir => .ok (fileNumbers (bytesOf "wal-") dir)
  let victims := (snapshots.take (snapshots.length - store.options.retained_snapshots)).filter
    (· != store.snapshot_sequence)
  removeFiles env (victims.map snapshotPathFor)
  removeFiles env ((logs.filter (· < store.wal_segment)).map walPathFor)

/-- Append, flush and publish one record. -/
def commit (env : FileEnv) (store : FileStore) (type : RecordType) (payload : Bytes) :
    FileOp FileStore :=
  if payload.length > kMaxRecordPayloadBytes then
    .throw ⟨.limitExceeded, "record payload exceeds the bound"⟩
  else
    let next := store.last_sequence + 1
    if next ≤ store.last_sequence then .throw ⟨.exhausted, "record sequence exhausted"⟩
    else do
      appendFileDurable env (walPathFor store.wal_segment) (encodeRecord type next payload)
      return { store with last_sequence := next }

/-- Write a snapshot and a new log segment, and let the pointer name them. -/
def publishSnapshot (env : FileEnv) (store : FileStore) (payload : Bytes) : FileOp FileStore :=
  if payload.length > kMaxSnapshotPayloadBytes then
    .throw ⟨.limitExceeded, "snapshot payload exceeds the bound"⟩
  else do
    let record := encodeRecord .snapshotPayload store.last_sequence payload
    let next_snapshot := store.snapshot_sequence + 1
    let next_wal := store.wal_segment + 1
    writeFileAtomic env (snapshotPathFor next_snapshot) (encodeSnapshotFile record)
    writeFileAtomic env (walPathFor next_wal) []
    writeFileAtomic env currentPath (encodeCurrent ⟨next_snapshot, next_wal⟩)
    return { store with snapshot_sequence := next_snapshot, wal_segment := next_wal }

/-- Write a snapshot and rotate the log segment. The store goes on with what was published also
when the old files cannot be removed. -/
def writeSnapshot (env : FileEnv) (store : FileStore) (payload : Bytes) :
    FileOp (Result Unit × FileStore) := do
  match ← (publishSnapshot env store payload).outcome with
  | .error status => return (.error status, store)
  | .ok store' =>
    let cleaned ← (cleanupOldFiles env store').outcome
    return (cleaned, store')

/-! ### Opening -/

/-- Write the files of an empty store. -/
def initializeFresh (env : FileEnv) (options : StoreOptions) : FileOp FileStore := do
  writeFileAtomic env (walPathFor 1) []
  writeFileAtomic env currentPath (encodeCurrent ⟨0, 1⟩)
  return { options := options, last_sequence := 0, wal_segment := 1, snapshot_sequence := 0 }

/-- Load the snapshot that the pointer names: its sequence and its payload. -/
def loadSnapshot (pointer : CurrentPointer) (dir : StoreDir) : Result (Sequence × Bytes) :=
  if pointer.snapshot = 0 then .ok (0, [])
  else do
    let path := snapshotPathFor pointer.snapshot
    require (dir.read path).isSome .notFound "CURRENT points at a missing snapshot"
    let raw ← readFile path (kMaxSnapshotPayloadBytes + 64) dir
    let payload ← decodeSnapshotFile raw
    match decodeRecord payload with
    | .ok ⟨.snapshotPayload, sequence, snapshot_payload⟩ _ => return (sequence, snapshot_payload)
    | _ => fail .corrupt "snapshot payload is not a valid snapshot record"

/-- Scan a log: take its records one after the other, until nothing or part of a record is left.
Every record takes a byte at least, so one more than the bytes of the log is enough fuel. -/
def scanLog : ℕ → Bytes → DurableStore.Scan → Result (Bytes × DurableStore.Scan)
  | 0, remaining, scan => .ok (remaining, scan)
  | fuel + 1, remaining, scan =>
    match decodeRecord remaining with
    | .noMoreData => .ok ([], scan)
    | .tornTail _ => .ok (remaining, scan)
    | .refused status detail =>
      fail (if status = .unsupportedVersion then .versionUnsupported else .corrupt) detail
    | .ok frame consumed => do
      let scan ← DurableStore.scanFrame scan frame
      scanLog fuel (remaining.drop consumed) scan

/-- Replay the active log segment, and cut off part of a record at its end. -/
def replayLog (env : FileEnv) (options : StoreOptions) (path : Bytes) (sequence : Sequence) :
    FileOp (DurableStore.Scan × ℕ) := do
  if ← fileExists path then
    let raw ← .look (readFile path kMaxWalFileBytes)
    let (remaining, scan) ← .look fun _ =>
      scanLog (raw.length + 1) raw { last_sequence := sequence }
    if remaining = [] then
      return (scan, 0)
    else
      .look fun _ => require options.allow_torn_tail_recovery .corrupt
        "log ends with a partial record and recovery is disabled"
      writeFileAtomic env path (raw.take (raw.length - remaining.length))
      return (scan, remaining.length)
  else
    writeFileAtomic env path []
    return ({ last_sequence := sequence }, 0)

/-- Whether a name is one of a snapshot or of a log segment. -/
def isStoreFile (name : Bytes) : Bool :=
  (bytesOf "snapshot-").isPrefixOf name || (bytesOf "wal-").isPrefixOf name

/-- What is done under the lock: an empty directory is initialized, otherwise what the pointer names
is recovered. -/
def openLocked (env : FileEnv) (options : StoreOptions) : FileOp (FileStore × FileRecovery) := do
  if ← fileExists currentPath then
    let pointer ← .look fun dir => readFile currentPath 4096 dir >>= decodeCurrent
    let (sequence, snapshot_payload) ← .look (loadSnapshot pointer)
    let (scan, torn_tail_bytes) ← replayLog env options (walPathFor pointer.wal) sequence
    let store : FileStore :=
      { options := options
        last_sequence := scan.last_sequence
        wal_segment := pointer.wal
        snapshot_sequence := pointer.snapshot }
    cleanupOldFiles env store
    return (store, ⟨false, torn_tail_bytes, snapshot_payload, scan.replayed⟩)
  else
    .look fun dir => require (!dir.any fun file => isStoreFile file.1) .corrupt
      "store files exist without a CURRENT pointer"
    let store ← initializeFresh env options
    return (store, { fresh := true })

/-- Open a store. -/
def open_ (env : FileEnv) (options : StoreOptions) : FileOp (FileStore × FileRecovery) := do
  .look fun _ => require
    (1 ≤ options.retained_snapshots && options.retained_snapshots ≤ kMaxRetainedSnapshots)
    .invalidArgument "retained snapshot bound out of range"
  acquireLock env
  releasingLock env (openLocked env options)

end FileStore

end Fcfn
