/-
# `Tracker` — the mints of a wallet and their pending spends

`CzDIVITTracker` knows the mints of the wallet by their serials, and for a mint that the wallet
spends the transaction that does, until it is in a block: `mapPendingSpends`.  A mint is used when
it has such a transaction in the memory pool, or a spend in the chain.

    SetPubcoinUsed        the mint is spent by a transaction
    SetPubcoinNotUsed     it is not after all
    RemovePending         a transaction is not to be waited for
    UpdateStatusInternal  a mint's state, by what pool and chain say
    ListMints, GetMints   the mints, all of them or the unused ones

Both maps are walked in the order of the serials.  Serial and coin stand for their hashes, and a
record of the database has the coin for its key, as in the wallet's records.
-/
import Divitae.Lib.SortedMap
import Divitae.ZerocoinWallet

namespace Divitae

/-- The maps of the tracker and the wallet's database, which `walletdb` keeps. -/
structure CzDIVITTracker where
  mapSerialHashes : SortedMap Int CMintMeta
  mapPendingSpends : SortedMap Int uint256
  deterministicMints : SortedMap Int CDeterministicMint
  deterministicOrphans : SortedMap Int CDeterministicMint
  zerocoinMints : SortedMap Int CZerocoinMint
  zerocoinOrphans : SortedMap Int CZerocoinMint

/-- What the tracker asks of the node. -/
structure TrackerNode where
  /-- `setMempool` -/
  mempool : uint256 → Bool
  ReadCoinMint : Int → Option uint256
  ReadCoinSpend : Int → Option uint256
  IsInitialBlockDownload : Bool
  /-- whether it is a coinstake, and the hash of its block; 0 for one in the memory pool -/
  GetTransaction : uint256 → Option (Bool × uint256)
  /-- for a block that is indexed, whether it is active -/
  blockActive : uint256 → Option Bool
  chainHeight : Int
  nMintRequiredConfirmations : Int
  mapMaturity : CoinDenomination → Int

namespace CzDIVITTracker

variable (t : CzDIVITTracker)

def new : CzDIVITTracker := ⟨.empty, .empty, .empty, .empty, .empty, .empty⟩

/-! ## Mints -/

def GetMetaFromPubcoin (hashPubcoin : Int) : Option CMintMeta :=
  (t.mapSerialHashes.entries.map Prod.snd).find? fun mint => mint.hashPubcoin == hashPubcoin

/-- The meta data of a deterministic mint. -/
def metaOfDeterministic (hashPubcoin : Int) (dMint : CDeterministicMint) (isArchived : Bool) :
    CMintMeta where
  nHeight := dMint.nHeight
  hashSerial := dMint.hashSerial
  hashPubcoin := hashPubcoin
  hashStake := dMint.hashStake
  nVersion := dMint.nVersion
  denom := dMint.denom
  txid := dMint.txid
  isUsed := dMint.isUsed
  isArchived := isArchived
  isDeterministic := true

/-- That of any other.  The stake hash is made from the serial. -/
def metaOfZerocoin (hashStake : Int → uint256) (hashPubcoin : Int) (mint : CZerocoinMint)
    (isArchived : Bool) : CMintMeta where
  nHeight := mint.nHeight
  hashSerial := mint.serialNumber
  hashPubcoin := hashPubcoin
  hashStake := hashStake mint.serialNumber
  nVersion := mint.version
  denom := mint.denomination
  txid := mint.txid
  isUsed := mint.isUsed
  isArchived := isArchived
  isDeterministic := false

/-- `mapSerialHashes[meta.hashSerial] = meta`. -/
def setMeta (mint : CMintMeta) : CzDIVITTracker :=
  { t with mapSerialHashes := t.mapSerialHashes.put mint.hashSerial mint }

/-- `Add`, of a deterministic mint. -/
def AddDeterministic (hashPubcoin : Int) (dMint : CDeterministicMint) (isNew isArchived : Bool) :
    CzDIVITTracker :=
  let t := t.setMeta (metaOfDeterministic hashPubcoin dMint isArchived)
  if isNew then { t with deterministicMints := t.deterministicMints.put hashPubcoin dMint } else t

/-- `Add`, of any other. -/
def AddZerocoin (hashStake : Int → uint256) (hashPubcoin : Int) (mint : CZerocoinMint)
    (isNew isArchived : Bool) : CzDIVITTracker :=
  let t := t.setMeta (metaOfZerocoin hashStake hashPubcoin mint isArchived)
  if isNew then { t with zerocoinMints := t.zerocoinMints.put hashPubcoin mint } else t

def archiveMeta (hashSerial : Int) : CzDIVITTracker :=
  match t.mapSerialHashes.get hashSerial with
  | none => t
  | some mint =>
    { t with
      mapSerialHashes := t.mapSerialHashes.put hashSerial { mint with isArchived := true } }

def Archive (mint : CMintMeta) : CzDIVITTracker :=
  let t := t.archiveMeta mint.hashSerial
  match t.zerocoinMints.get mint.hashPubcoin with
  | some zMint =>
    { t with
      zerocoinOrphans := t.zerocoinOrphans.put mint.hashPubcoin zMint
      zerocoinMints := t.zerocoinMints.erase mint.hashPubcoin }
  | none =>
    -- failed to read mint from DB, try reading deterministic
    match t.deterministicMints.get mint.hashPubcoin with
    | none => t
    | some dMint =>
      { t with
        deterministicOrphans := t.deterministicOrphans.put mint.hashPubcoin dMint
        deterministicMints := t.deterministicMints.erase mint.hashPubcoin }

def UnarchiveDeterministicMint (hashPubcoin : Int) (dMint : CDeterministicMint) : CzDIVITTracker :=
  { t with
    deterministicMints := t.deterministicMints.put hashPubcoin dMint
    deterministicOrphans := t.deterministicOrphans.erase hashPubcoin }

def UnarchiveZerocoinMint (hashPubcoin : Int) (mint : CZerocoinMint) : CzDIVITTracker :=
  { t with
    zerocoinMints := t.zerocoinMints.put hashPubcoin mint
    zerocoinOrphans := t.zerocoinOrphans.erase hashPubcoin }

def UnArchive (hashStake : Int → uint256) (hashPubcoin : Int) (isDeterministic : Bool) :
    CzDIVITTracker :=
  if isDeterministic then
    match t.deterministicOrphans.get hashPubcoin with
    | none => t
    | some dMint =>
      (t.UnarchiveDeterministicMint hashPubcoin dMint).AddDeterministic hashPubcoin dMint false
        false
  else
    match t.zerocoinOrphans.get hashPubcoin with
    | none => t
    | some mint =>
      (t.UnarchiveZerocoinMint hashPubcoin mint).AddZerocoin hashStake hashPubcoin mint false false

/-- `UpdateZerocoinMint`, of a mint that is not deterministic. -/
def UpdateZerocoinMint (hashPubcoin : Int) (mint : CZerocoinMint) : CzDIVITTracker :=
  match t.mapSerialHashes.get mint.serialNumber with
  | none => t
  | some known =>
    { t with
      mapSerialHashes := t.mapSerialHashes.put mint.serialNumber { known with
        isUsed := mint.isUsed
        denom := mint.denomination
        nHeight := mint.nHeight }
      zerocoinMints := t.zerocoinMints.put hashPubcoin mint }

/-- The end of `UpdateState`, for a deterministic mint. -/
def writeDeterministic (mint : CMintMeta) (dMint : CDeterministicMint) : CzDIVITTracker :=
  { t with
    deterministicMints := t.deterministicMints.put mint.hashPubcoin { dMint with
      txid := mint.txid
      nHeight := mint.nHeight
      isUsed := mint.isUsed
      denom := mint.denom
      hashStake := mint.hashStake } }.setMeta mint

/-- The end of `UpdateState`, for any other. -/
def writeZerocoin (mint : CMintMeta) (zMint : CZerocoinMint) : CzDIVITTracker :=
  { t with
    zerocoinMints := t.zerocoinMints.put mint.hashPubcoin { zMint with
      txid := mint.txid
      nHeight := mint.nHeight
      isUsed := mint.isUsed
      denomination := mint.denom } }.setMeta mint

/-- `UpdateState`.  Where the database does not have the mint nothing happens. -/
def UpdateState (mint : CMintMeta) : CzDIVITTracker :=
  if mint.isDeterministic then
    match t.deterministicMints.get mint.hashPubcoin with
    | some dMint => t.writeDeterministic mint dMint
    | none =>
      -- Check archive just in case
      if !mint.isArchived then t
      else
        match t.deterministicOrphans.get mint.hashPubcoin with
        | none => t
        | some dMint =>
          (t.UnarchiveDeterministicMint mint.hashPubcoin dMint).writeDeterministic mint dMint
  else
    match t.zerocoinMints.get mint.hashPubcoin with
    | none => t
    | some zMint => t.writeZerocoin mint zMint

def SetPubcoinUsed (hashPubcoin : Int) (txid : uint256) : CzDIVITTracker :=
  match t.GetMetaFromPubcoin hashPubcoin with
  | none => t
  | some mint =>
    { t with mapPendingSpends := t.mapPendingSpends.add mint.hashSerial txid }.UpdateState
      { mint with isUsed := true }

def SetPubcoinNotUsed (hashPubcoin : Int) : CzDIVITTracker :=
  match t.GetMetaFromPubcoin hashPubcoin with
  | none => t
  | some mint =>
    { t with mapPendingSpends := t.mapPendingSpends.erase mint.hashSerial }.UpdateState
      { mint with isUsed := false }

/-- `RemovePending`: the first serial with the transaction goes. -/
def RemovePending (txid : uint256) : CzDIVITTracker :=
  match t.mapPendingSpends.findKey (· == txid) with
  | none => t
  | some hashSerial =>
    if 0 < hashSerial then
      { t with mapPendingSpends := t.mapPendingSpends.erase hashSerial }
    else t

/-! ## The status of a mint -/

section
variable (N : TrackerNode)

def isConfirmedSpend (mint : CMintMeta) : Bool := (N.ReadCoinSpend mint.hashSerial).isSome

/-- The first part of `UpdateStatusInternal`: whether the mint has a pending spend, once one that
the memory pool does not have, or the chain has, is removed. -/
def pendingSpend (mint : CMintMeta) : CzDIVITTracker × Bool :=
  match t.mapPendingSpends.get mint.hashSerial with
  | none => (t, false)
  | some txidPendingSpend =>
    if !N.mempool txidPendingSpend || isConfirmedSpend N mint then
      (t.RemovePending txidPendingSpend, false)
    else (t, true)

/-- The transaction that made the mint, as far as it is known. -/
def withTxid (mint : CMintMeta) : CMintMeta :=
  if mint.txid = 0 then { mint with txid := (N.ReadCoinMint mint.hashPubcoin).getD 0 } else mint

/-- It is not looked for during the initial download. -/
def mintTransaction (txid : uint256) : Option (Bool × uint256) :=
  if N.IsInitialBlockDownload then some (false, 0) else N.GetTransaction txid

/-- What the transaction makes of the mint. -/
def transactionStatus (mint : CMintMeta) (isUsed : Bool) : CMintMeta × Bool :=
  if N.mempool mint.txid then (mint, true)
  else
    match mintTransaction N mint.txid with
    | none => ({ mint with isArchived := true }, true)
    | some (isCoinStake, hashBlock) =>
      if N.blockActive hashBlock = some false then
        -- An orphan tx if hashblock is in mapBlockIndex but not in chain active
        ({ mint with isUsed := false, nHeight := 0, isArchived := isCoinStake }, true)
      else if mint.isUsed ≠ isUsed then ({ mint with isUsed := isUsed }, true)
      else (mint, false)

/-- The second part: the mint as it is left, and whether it is new.  It is archived where there
is no trace of the transaction that made it. -/
def mintStatus (mint : CMintMeta) (isUsed : Bool) : CMintMeta × Bool :=
  let txidMint := N.ReadCoinMint mint.hashPubcoin
  if mint.nHeight ≠ 0 ∧ txidMint.isSome ∧ isUsed = mint.isUsed then (mint, false)
  else if mint.txid = 0 ∧ txidMint = none then ({ mint with isArchived := true }, true)
  else transactionStatus N (withTxid N mint) isUsed

/-- `UpdateStatusInternal`, of a mint that is not archived. -/
def UpdateStatusInternal (mint : CMintMeta) : CzDIVITTracker × CMintMeta × Bool :=
  let pending := t.pendingSpend N mint
  let status := mintStatus N mint (pending.2 || isConfirmedSpend N mint)
  (if status.1.isArchived then pending.1.Archive status.1 else pending.1, status)

/-! ## The lists -/

def addFromDatabase (hashStake : Int → uint256) : CzDIVITTracker :=
  let t := t.zerocoinMints.entries.foldl (fun t e => t.AddZerocoin hashStake e.1 e.2 false false) t
  t.deterministicMints.entries.foldl (fun t e => t.AddDeterministic e.1 e.2 false false) t

/-- It is confirmed, and may be spent. -/
def IsMature (mint : CMintMeta) : Bool :=
  mint.nHeight != 0 && decide (mint.nHeight ≤ N.chainHeight - N.nMintRequiredConfirmations) &&
    decide (mint.nHeight < N.mapMaturity mint.denom)

/-- What the loop of `ListMints` has. -/
structure MintList where
  tracker : CzDIVITTracker
  vOverWrite : List CMintMeta
  setMints : List CMintMeta

/-- A mint goes into the set, where a coin is once. -/
def MintList.insert (l : MintList) (fUnusedOnly fMatureOnly : Bool) (mint : CMintMeta) :
    MintList :=
  if fUnusedOnly && mint.isUsed then l
  else if fMatureOnly && !IsMature N mint then l
  else if l.setMints.any fun m => m.hashPubcoin == mint.hashPubcoin then l
  else { l with setMints := l.setMints ++ [mint] }

/-- The body of the loop. -/
def listMint (fUnusedOnly fMatureOnly fUpdateStatus : Bool) (l : MintList) (mint : CMintMeta) :
    MintList :=
  -- This is only intended for unarchived coins
  if mint.isArchived then l
  else if !fUpdateStatus then l.insert N fUnusedOnly fMatureOnly mint
  else
    match l.tracker.UpdateStatusInternal N mint with
    | (tracker, mint, true) =>
      if mint.isArchived then { l with tracker := tracker }
      else
        { l with tracker := tracker, vOverWrite := l.vOverWrite ++ [mint] }.insert N fUnusedOnly
          fMatureOnly mint
    | (tracker, mint, false) =>
      { l with tracker := tracker }.insert N fUnusedOnly fMatureOnly mint

/-- The tracker that `ListMints` goes through. -/
def toList (hashStake : Int → uint256) (fUpdateStatus : Bool) : CzDIVITTracker :=
  if fUpdateStatus then t.addFromDatabase hashStake else t

def mints : List CMintMeta := t.mapSerialHashes.entries.map Prod.snd

/-- `ListMints`: the tracker behind it, and the mints. -/
def ListMints (hashStake : Int → uint256) (fUnusedOnly fMatureOnly fUpdateStatus : Bool) :
    CzDIVITTracker × List CMintMeta :=
  let t := t.toList hashStake fUpdateStatus
  let l := t.mints.foldl (listMint N fUnusedOnly fMatureOnly fUpdateStatus) ⟨t, [], []⟩
  (l.vOverWrite.foldl UpdateState l.tracker, l.setMints)

def GetMints (fConfirmedOnly : Bool) : List CMintMeta :=
  t.mints.filter fun mint => !(mint.isArchived || mint.isUsed) &&
    (!fConfirmedOnly || decide (mint.nHeight < N.chainHeight - N.nMintRequiredConfirmations))

end

end CzDIVITTracker

end Divitae
