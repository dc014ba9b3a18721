/-
# `BlockFiles` — what the node keeps on disk, and when it writes it

The block files and the undo files, the database of the block index with the sizes of the
files, and the best block of the coin database.  Blocks and undo data are written where they
come up; the rest waits in `setDirtyFileInfo` and `setDirtyBlockIndex` for `FlushStateToDisk`,
which writes the coins last.

A function of the source gives the node it leaves and the writes it makes, in their order.
The hash of a block stands for its data, and for its undo data.
-/
import Divitae.BlockStatus
import Divitae.Lib.Crash
import Divitae.Lib.FileLog

namespace Divitae.BlockStore

open FileLog (readAt)

def MAX_BLOCK_SIZE_CURRENT : ℕ := 2000000
def MAX_BLOCKFILE_SIZE : ℕ := 0x8000000
def BLOCKFILE_CHUNK_SIZE : ℕ := 0x1000000
def UNDOFILE_CHUNK_SIZE : ℕ := 0x100000

/-- An `unsigned int`. -/
def u32 (n : ℕ) : ℕ := n % 2 ^ 32

abbrev FileWrite := FileLog.Write uint256

structure CBlockFileInfo where
  nSize : ℕ := 0
  nUndoSize : ℕ := 0
deriving DecidableEq

/-- `CBlockIndex` as the database has it: `hashPrev` is the hash of `pprev`. -/
structure CDiskBlockIndex where
  hashPrev : Option uint256
  nStatus : BlockStatus
  nFile : ℕ := 0
  nDataPos : ℕ := 0
  nUndoPos : ℕ := 0
deriving DecidableEq

/-- `CBlockIndex()`. -/
def CDiskBlockIndex.null : CDiskBlockIndex := { hashPrev := none, nStatus := {} }

/-! ## The disk -/

structure ChainDisk where
  /-- the `blk` files -/
  blk : List FileWrite := []
  /-- the `rev` files -/
  rev : List FileWrite := []
  blockFileInfo : List (ℕ × CBlockFileInfo) := []
  lastBlockFile : Option ℕ := none
  blockIndex : List (uint256 × CDiskBlockIndex) := []
  hashBestChain : Option uint256 := none

inductive DiskWrite where
  | blk (w : FileWrite)
  | rev (w : FileWrite)
  | WriteBlockFileInfo (nFile : ℕ) (info : CBlockFileInfo)
  | WriteLastBlockFile (nFile : ℕ)
  | WriteBlockIndex (hash : uint256) (entry : CDiskBlockIndex)
  /-- `CCoinsViewDB::BatchWrite`, one batch -/
  | BatchWrite (hashBlock : Option uint256)

namespace ChainDisk

variable (D : ChainDisk)

def write : DiskWrite → ChainDisk
  | .blk w => { D with blk := w :: D.blk }
  | .rev w => { D with rev := w :: D.rev }
  | .WriteBlockFileInfo nFile info => { D with blockFileInfo := (nFile, info) :: D.blockFileInfo }
  | .WriteLastBlockFile nFile => { D with lastBlockFile := some nFile }
  | .WriteBlockIndex hash entry => { D with blockIndex := (hash, entry) :: D.blockIndex }
  | .BatchWrite none => D
  | .BatchWrite (some hash) => { D with hashBestChain := some hash }

def entry (hash : uint256) : Option CDiskBlockIndex := D.blockIndex.lookup hash

def info (nFile : ℕ) : CBlockFileInfo := (D.blockFileInfo.lookup nFile).getD {}

/-- `nLastBlockFile` is zero until it has been read. -/
def last : ℕ := D.lastBlockFile.getD 0

/-- A block in the database has `hash` as the one before it. -/
def hasChild (hash : uint256) : Bool :=
  D.blockIndex.any fun child =>
    D.entry child.1 = some child.2 && child.2.hashPrev = some hash

end ChainDisk

/-! ## The node -/

structure ChainNode where
  mapBlockIndex : uint256 → Option CDiskBlockIndex
  vinfoBlockFile : List CBlockFileInfo
  nLastBlockFile : ℕ
  setDirtyFileInfo : List ℕ
  setDirtyBlockIndex : List uint256
  /-- `pcoinsTip->GetBestBlock()` -/
  bestBlock : Option uint256
  /-- the tip first -/
  chainActive : List uint256

namespace ChainNode

variable (N : ChainNode)

def info (nFile : ℕ) : CBlockFileInfo := N.vinfoBlockFile.getD nFile {}

/-- The entry is changed, and put in `setDirtyBlockIndex`. -/
def setDirty (hash : uint256) (entry : CDiskBlockIndex) : ChainNode :=
  { N with
    mapBlockIndex := Function.update N.mapBlockIndex hash (some entry)
    setDirtyBlockIndex := N.setDirtyBlockIndex.insert hash }

def setInfo (nFile : ℕ) (info : CBlockFileInfo) : ChainNode :=
  { N with
    vinfoBlockFile := N.vinfoBlockFile.set nFile info
    setDirtyFileInfo := N.setDirtyFileInfo.insert nFile }

end ChainNode

/-- What a function leaves, after the writes it has made. -/
abbrev Wrote := ChainNode × List DiskWrite

/-- One function after another. -/
def Wrote.andThen (r : Wrote) (f : ChainNode → Wrote) : Wrote := ((f r.1).1, r.2 ++ (f r.1).2)

/-- `AllocateFileRange`, when the file needs another chunk. -/
def allocated (chunk nFile nPos nNewSize : ℕ) : List FileWrite :=
  let nOldChunks := u32 (nPos + chunk - 1) / chunk
  let nNewChunks := u32 (nNewSize + chunk - 1) / chunk
  if nOldChunks < nNewChunks then [.zeros nFile nPos (nNewChunks * chunk - nPos)] else []

section
variable (N : ChainNode)

/-- `FlushBlockFile(true)`: both files are cut to their sizes. -/
def FlushBlockFile : List DiskWrite :=
  [.blk (.truncate N.nLastBlockFile (N.info N.nLastBlockFile).nSize),
    .rev (.truncate N.nLastBlockFile (N.info N.nLastBlockFile).nUndoSize)]

/-- The files from the last one on that the block does not fit in. -/
def fullFiles (nAddSize : ℕ) : List CBlockFileInfo :=
  (N.vinfoBlockFile.drop N.nLastBlockFile).takeWhile fun info =>
    decide (MAX_BLOCKFILE_SIZE ≤ info.nSize + nAddSize)

/-- The file that a block of `nAddSize` bytes goes to. -/
def fileFor (nAddSize : ℕ) : ℕ := N.nLastBlockFile + (fullFiles N nAddSize).length

/-- `vinfoBlockFile.resize(nFile + 1)`, when it is shorter. -/
def resized (nFile : ℕ) : List CBlockFileInfo :=
  N.vinfoBlockFile ++ List.replicate (nFile + 1 - N.vinfoBlockFile.length) ⟨0, 0⟩

/-- `FindBlockPos`, where the position is not known.  The position is that of the file which
is the last one then, at the size it had. -/
def FindBlockPos (nAddSize : ℕ) : Wrote :=
  let nFile := fileFor N nAddSize
  let info := N.info nFile
  let N' := { N with vinfoBlockFile := resized N nFile, nLastBlockFile := nFile }
  let nSize := info.nSize + nAddSize
  (N'.setInfo nFile { info with nSize := nSize },
    (fullFiles N nAddSize).flatMap (fun _ => FlushBlockFile N) ++
      (allocated BLOCKFILE_CHUNK_SIZE nFile info.nSize nSize).map .blk)

/-- `FindUndoPos`.  The position is the size that the undo file had. -/
def FindUndoPos (nFile nAddSize : ℕ) : Wrote :=
  let info := N.info nFile
  let nNewSize := u32 (info.nUndoSize + nAddSize)
  (N.setInfo nFile { info with nUndoSize := nNewSize },
    (allocated UNDOFILE_CHUNK_SIZE nFile info.nUndoSize nNewSize).map .rev)

end

/-! ## Blocks that come in -/

/-- A block offered to the node: its size, and what the checks of the header and of the block
come to. -/
structure BlockCall where
  hash : uint256
  hashPrev : uint256
  nBlockSize : ℕ
  header : Bool
  checked : BlockVerdict

section
variable (genesis : uint256) (N : ChainNode)

/-- `AddToBlockIndex`; `pprev` is the block before, where the node knows it. -/
def AddToBlockIndex (hash : uint256) (hashPrev : Option uint256) : ChainNode :=
  match N.mapBlockIndex hash with
  | some _ => N
  | none =>
    N.setDirty hash
      { hashPrev := hashPrev.filter fun prev => (N.mapBlockIndex prev).isSome
        nStatus := ({} : BlockStatus).RaiseValidity BLOCK_VALID_TREE }

/-- `AcceptBlockHeader`; `none` where it returns false. -/
def AcceptBlockHeader (call : BlockCall) : Option ChainNode :=
  match N.mapBlockIndex call.hash with
  | some entry => if entry.nStatus.failed then none else some N
  | none =>
    if !call.header then none
    else if call.hash = genesis then some (AddToBlockIndex N call.hash none)
    else
      match N.mapBlockIndex call.hashPrev with
      | none => none
      | some prev =>
        if prev.nStatus.failed then none
        else some (AddToBlockIndex N call.hash (some call.hashPrev))

/-- What `ReceivedBlockTransactions` writes into the entry. -/
def received (entry : CDiskBlockIndex) (nFile nPos : ℕ) : CDiskBlockIndex :=
  { entry with
    nFile := nFile
    nDataPos := nPos
    nUndoPos := 0
    nStatus := { entry.nStatus with haveData := true }.RaiseValidity BLOCK_VALID_TRANSACTIONS }

/-- `FindBlockPos`, `WriteBlockToDisk` and `ReceivedBlockTransactions`.  Before the block its
file has eight bytes, the start of the message and the size. -/
def storeBlock (hash : uint256) (entry : CDiskBlockIndex) (nBlockSize : ℕ) : Wrote :=
  let nFile := fileFor N (nBlockSize + 8)
  let nPos := (N.info nFile).nSize
  (FindBlockPos N (nBlockSize + 8)).andThen fun N' =>
    (N'.setDirty hash (received entry nFile (nPos + 8)),
      [.blk (.record nFile nPos 8 nBlockSize hash)])

/-- The block before is known and has not failed, as `AcceptBlock` demands first. -/
def prevAccepted (call : BlockCall) : Bool :=
  decide (call.hash = genesis) ||
    (N.mapBlockIndex call.hashPrev).any fun prev => !prev.nStatus.failed

def AcceptBlock (call : BlockCall) : Wrote :=
  match (AcceptBlockHeader genesis N call).filter fun _ => prevAccepted genesis N call with
  | none => (N, [])
  | some N' =>
    match N'.mapBlockIndex call.hash with
    | none => (N', [])
    | some entry =>
      if entry.nStatus.haveData then (N', [])
      else
        match call.checked with
        | .accept =>
          -- `CheckBlock` has refused a larger one
          if call.nBlockSize ≤ MAX_BLOCK_SIZE_CURRENT then
            storeBlock N' call.hash entry call.nBlockSize
          else (N', [])
        | .invalid =>
          (N'.setDirty call.hash
            { entry with nStatus := { entry.nStatus with failedValid := true } }, [])
        | .corrupt | .error => (N', [])

end

/-! ## Flushing -/

inductive FlushStateMode where
  | FLUSH_STATE_IF_NEEDED
  | FLUSH_STATE_PERIODIC
  | FLUSH_STATE_ALWAYS
deriving DecidableEq

/-- When the flush comes: whether the cache is too large, whether the last write was long ago,
and where the entries of the index lie in memory. -/
structure FlushCall where
  large : Bool
  late : Bool
  address : uint256 → ℕ

def FlushCall.due (call : FlushCall) (mode : FlushStateMode) : Bool :=
  match mode with
  | .FLUSH_STATE_ALWAYS => true
  | .FLUSH_STATE_PERIODIC => call.large || call.late
  | .FLUSH_STATE_IF_NEEDED => call.large

section
variable (N : ChainNode)

/-- A `std::set<int>` is walked upwards. -/
def dirtyFiles : List ℕ :=
  (List.range N.vinfoBlockFile.length).filter fun nFile => decide (nFile ∈ N.setDirtyFileInfo)

/-- A `std::set<CBlockIndex*>` is walked in the order of the addresses. -/
def dirtyEntries (address : uint256 → ℕ) : List uint256 :=
  N.setDirtyBlockIndex.insertionSort fun a b => address a ≤ address b

def fileWrites : List DiskWrite :=
  (dirtyFiles N).map (fun nFile => .WriteBlockFileInfo nFile (N.info nFile)) ++
    (if dirtyFiles N = [] then [] else [.WriteLastBlockFile N.nLastBlockFile])

def indexWrites (address : uint256 → ℕ) : List DiskWrite :=
  (dirtyEntries N address).filterMap fun hash =>
    (N.mapBlockIndex hash).map fun entry => .WriteBlockIndex hash entry

def FlushStateToDisk (mode : FlushStateMode) (call : FlushCall) : Wrote :=
  if call.due mode then
    ({ N with setDirtyFileInfo := [], setDirtyBlockIndex := [] },
      fileWrites N ++ indexWrites N call.address ++ [.BatchWrite N.bestBlock])
  else (N, [])

end

/-! ## The tip -/

/-- A block to be connected: what `CheckBlock` and `ConnectBlock` come to, the size of its undo
data, and whether the block itself was handed down. -/
structure ConnectCall where
  hash : uint256
  checked : BlockVerdict
  nUndoSize : ℕ
  given : Bool

section
variable (genesis : uint256) (N : ChainNode) (D : ChainDisk)

/-- `ReadBlockFromDisk`: what the block file has at the position is the block. -/
def ReadBlockFromDisk (hash : uint256) (entry : CDiskBlockIndex) : Bool :=
  entry.nStatus.haveData &&
    decide ((readAt D.blk entry.nFile entry.nDataPos).map Prod.fst = some hash)

/-- `CBlockUndo::ReadFromDisk` at `GetUndoPos`. -/
def ReadUndoFromDisk (hash : uint256) (entry : CDiskBlockIndex) : Bool :=
  entry.nStatus.haveUndo &&
    decide ((readAt D.rev entry.nFile entry.nUndoPos).map Prod.fst = some hash)

/-- What `ConnectBlock` writes of undo data, and into the entry.  After the undo data its file
has a checksum of 32 bytes. -/
def writeUndo (hash : uint256) (entry : CDiskBlockIndex) (nUndoSize : ℕ) : Wrote :=
  if !entry.nStatus.haveUndo then
    let nPos := (N.info entry.nFile).nUndoSize
    (FindUndoPos N entry.nFile (nUndoSize + 40)).andThen fun N' =>
      (N'.setDirty hash
        { entry with
          nUndoPos := u32 (nPos + 8)
          nStatus := { entry.nStatus with haveUndo := true }.RaiseValidity BLOCK_VALID_SCRIPTS },
        [.rev (.record entry.nFile nPos 8 (nUndoSize + 32) hash)])
  else if !entry.nStatus.IsValid BLOCK_VALID_SCRIPTS then
    (N.setDirty hash { entry with nStatus := entry.nStatus.RaiseValidity BLOCK_VALID_SCRIPTS }, [])
  else (N, [])

/-- The mode of the flush after a connection: always, for the first block of a new file. -/
def connectFlushMode (entry : CDiskBlockIndex) : FlushStateMode :=
  match entry.hashPrev.bind N.mapBlockIndex with
  | none => .FLUSH_STATE_IF_NEEDED
  | some prev =>
    if prev.nStatus.haveData && decide (prev.nFile = entry.nFile) then .FLUSH_STATE_IF_NEEDED
    else .FLUSH_STATE_ALWAYS

/-- `ConnectBlock` has accepted the block: its undo data are written, the view is flushed and
the tip is set.  The genesis block has no undo data. -/
def connected (hash : uint256) (entry : CDiskBlockIndex) (nUndoSize : ℕ) (flush : FlushCall) :
    Wrote :=
  let undo : Wrote := if hash = genesis then (N, []) else writeUndo N hash entry nUndoSize
  (undo.andThen fun N' =>
    FlushStateToDisk { N' with bestBlock := some hash } (connectFlushMode N entry) flush).andThen
      fun N' => ({ N' with chainActive := hash :: N'.chainActive }, [])

/-- `ConnectTip`.  The block has data and has not failed, as `FindMostWorkChain` has seen to,
and it comes after the tip, as is asserted. -/
def ConnectTip (call : ConnectCall) (flush : FlushCall) : Wrote :=
  match N.mapBlockIndex call.hash with
  | none => (N, [])
  | some entry =>
    if !(entry.nStatus.haveData && !entry.nStatus.failed &&
        decide (entry.hashPrev = N.chainActive.head?)) then (N, [])
    else if !(call.given || ReadBlockFromDisk D call.hash entry) then (N, [])
    else
      match call.checked with
      | .accept => connected genesis N call.hash entry call.nUndoSize flush
      | .invalid =>
        -- `InvalidBlockFound`
        (N.setDirty call.hash
          { entry with nStatus := { entry.nStatus with failedValid := true } }, [])
      | .corrupt | .error => (N, [])

/-- `DisconnectTip`.  `DisconnectBlock` needs the undo data. -/
def DisconnectTip (flush : FlushCall) : Wrote :=
  match N.chainActive with
  | [] => (N, [])
  | hash :: chain =>
    match N.mapBlockIndex hash with
    | none => (N, [])
    | some entry =>
      if !(ReadBlockFromDisk D hash entry && ReadUndoFromDisk D hash entry) then (N, [])
      else
        match entry.hashPrev with
        | none => (N, [])
        | some hashPrev =>
          (FlushStateToDisk { N with bestBlock := some hashPrev } .FLUSH_STATE_ALWAYS
            flush).andThen fun N' => ({ N' with chainActive := chain }, [])

/-- `FindMostWorkChain` marks blocks off the active chain, and leaves it at that. -/
def markFailedChild (hash : uint256) : ChainNode :=
  match N.mapBlockIndex hash with
  | none => N
  | some entry =>
    if hash ∈ N.chainActive then N
    else
      { N with
        mapBlockIndex := Function.update N.mapBlockIndex hash
          (some { entry with nStatus := { entry.nStatus with failedChild := true } }) }

/-- `InitBlockIndex`, where there is no chain yet: the genesis block is stored and connected. -/
def InitBlockIndex (nBlockSize : ℕ) (flush : FlushCall) : Wrote :=
  let N' := AddToBlockIndex N genesis none
  match N'.mapBlockIndex genesis with
  | none => (N', [])
  | some entry =>
    ((storeBlock N' genesis entry nBlockSize).andThen fun N'' =>
      ConnectTip genesis N'' D ⟨genesis, .accept, 0, true⟩ flush).andThen
        fun N'' => FlushStateToDisk N'' .FLUSH_STATE_ALWAYS flush

end

/-! ## Starting up -/

/-- The sizes of the files after the last one, as long as there are any. -/
def moreFiles (infos : List (ℕ × CBlockFileInfo)) : ℕ → ℕ → List CBlockFileInfo
  | 0, _ => []
  | n + 1, nFile =>
    match infos.lookup nFile with
    | none => []
    | some info => info :: moreFiles infos n (nFile + 1)

/-- `chainActive.SetTip`, along `pprev`. -/
def SetTip (mapBlockIndex : uint256 → Option CDiskBlockIndex) : ℕ → uint256 → List uint256
  | 0, _ => []
  | n + 1, hash =>
    match mapBlockIndex hash with
    | none => []
    | some entry =>
      hash :: match entry.hashPrev with
        | none => []
        | some hashPrev => SetTip mapBlockIndex n hashPrev

/-- `LoadBlockIndexGuts`: `InsertBlockIndex` makes an empty entry for a block that is only
known as the one before another. -/
def loadedIndex (D : ChainDisk) (hash : uint256) : Option CDiskBlockIndex :=
  match D.entry hash with
  | some entry => some entry
  | none => if D.hasChild hash then some .null else none

def LoadBlockIndexDB (D : ChainDisk) : ChainNode where
  mapBlockIndex := loadedIndex D
  vinfoBlockFile :=
    (List.range (D.last + 1)).map D.info ++
      moreFiles D.blockFileInfo D.blockFileInfo.length (D.last + 1)
  nLastBlockFile := D.last
  setDirtyFileInfo := []
  setDirtyBlockIndex := []
  bestBlock := D.hashBestChain
  chainActive :=
    match D.hashBestChain with
    | none => []
    | some hash => SetTip (loadedIndex D) D.blockIndex.length hash

/-- The part of `CVerifyDB::VerifyDB` that reads the files, over the whole chain: every block
but the first is read, and its undo data. -/
def VerifyFiles (D : ChainDisk) (N : ChainNode) : Bool :=
  N.chainActive.all fun hash =>
    match N.mapBlockIndex hash with
    | none => false
    | some entry =>
      entry.hashPrev.isNone || (ReadBlockFromDisk D hash entry && ReadUndoFromDisk D hash entry)

inductive ChainOp where
  | InitBlockIndex (nBlockSize : ℕ) (flush : FlushCall)
  | AcceptBlockHeader (call : BlockCall)
  | AcceptBlock (call : BlockCall)
  | ConnectTip (call : ConnectCall) (flush : FlushCall)
  | DisconnectTip (flush : FlushCall)
  | FindMostWorkChain (failedChild : List uint256)
  | FlushStateToDisk (mode : FlushStateMode) (flush : FlushCall)

/-- `AppInit2` runs `InitBlockIndex` before the node does anything else, and it does nothing
where there is a chain. -/
def chainAct (genesis : uint256) (N : ChainNode) (D : ChainDisk) (op : ChainOp) : Wrote :=
  match op, N.chainActive with
  | .InitBlockIndex nBlockSize flush, [] => InitBlockIndex genesis N D nBlockSize flush
  | .InitBlockIndex _ _, _ :: _ => (N, [])
  | _, [] => (N, [])
  | .AcceptBlockHeader call, _ => ((AcceptBlockHeader genesis N call).getD N, [])
  | .AcceptBlock call, _ => AcceptBlock genesis N call
  | .ConnectTip call flush, _ => ConnectTip genesis N D call flush
  | .DisconnectTip flush, _ => DisconnectTip N D flush
  | .FindMostWorkChain failedChild, _ => (failedChild.foldl markFailedChild N, [])
  | .FlushStateToDisk mode flush, _ => FlushStateToDisk N mode flush

/-- The node with its disk. -/
def chainMachine (genesis : uint256) : Crash.Machine ChainNode ChainDisk DiskWrite ChainOp where
  write := ChainDisk.write
  act := chainAct genesis
  boot := LoadBlockIndexDB

end Divitae.BlockStore
