/-
# `ZerocoinReindex` — the zerocoin database made anew

`zvitchain.cpp`, lines 256 to 331, with `WipeCoins` and the two batch writes of `txdb.cpp`.
`-reindexzerocoin` means to drop all information from the database and to repopulate it
from the blocks of the active chain, a hundred at a time.

The database is looked at as it is on disk here: a record of a spend or a mint is found
under a hash of the serial or the coin, and holds the hash of the transaction.  `WipeCoins`
collects what the records hold, and erases the records with these keys.
-/
import Divitae.Budget
import Divitae.ZerocoinRecords

namespace Divitae

open Records

/-! ## The database on disk -/

/-- The records of type `'s'` and those of type `'m'`. -/
structure CoinRecords where
  spends : HashMap uint256
  mints : HashMap uint256

def CoinRecords.empty : CoinRecords := ⟨∅, ∅⟩

def CoinRecords.of (r : CoinRecords) : ZerocoinKey → HashMap uint256
  | .serial => r.spends
  | .coin => r.mints

/-- The records of one type behind a batch of writes; `GetHash` hashes a serialized number. -/
def writeBatch (GetHash : Int → uint256) (m : HashMap uint256) (batch : List (Int × uint256)) :
    HashMap uint256 :=
  batch.foldl (fun m e => m.insert (GetHash e.1) e.2) m

namespace CoinRecords

variable (GetHash : Int → uint256) (r : CoinRecords)

def WriteCoinSpendBatch (spendInfo : List (CoinSpend × uint256)) : CoinRecords :=
  { r with spends := writeBatch GetHash r.spends (spendInfo.map spendKey) }

def WriteCoinMintBatch (mintInfo : List (PublicCoin × uint256)) : CoinRecords :=
  { r with mints := writeBatch GetHash r.mints (mintInfo.map mintKey) }

end CoinRecords

/-- `WipeCoins` over the records of one type.  `setDelete` has what the records hold. -/
def WipeCoins (m : HashMap uint256) : HashMap uint256 :=
  let setDelete := m.entries.map fun e => e.2
  setDelete.foldl (fun m hash => m.erase hash) m

/-! ## The blocks -/

/-- The serials of the inputs; deserializing throws on bytes that hold no spend. -/
def recordSerials (TxInToZerocoinSpend : CTxIn → Option CoinSpend) (txid : uint256) :
    List CTxIn → Checked (List (CoinSpend × uint256))
  | [] => .ok []
  | txin :: vin =>
    if !txin.scriptSig.IsZerocoinSpend then recordSerials TxInToZerocoinSpend txid vin
    else
      match TxInToZerocoinSpend txin with
      | none => .error "CDataStream::read() : end of data"
      | some spend =>
        recordSerials TxInToZerocoinSpend txid vin >>= fun rest => .ok ((spend, txid) :: rest)

/-- The mints of the outputs; where one cannot be read the coin stays as it was made. -/
def recordMints (TxOutToPublicCoin : CTxOut → Option PublicCoin) (txid : uint256) :
    List CTxOut → List (PublicCoin × uint256)
  | [] => []
  | out :: vout =>
    if !out.IsZerocoinMint then recordMints TxOutToPublicCoin txid vout
    else ((TxOutToPublicCoin out).getD ⟨0, .ZQ_ERROR⟩, txid) ::
      recordMints TxOutToPublicCoin txid vout

/-- What is to be written. -/
structure CoinInfo where
  vSpendInfo : List (CoinSpend × uint256)
  vMintInfo : List (PublicCoin × uint256)

def CoinInfo.none : CoinInfo := ⟨[], []⟩

def CoinInfo.append (a b : CoinInfo) : CoinInfo :=
  ⟨a.vSpendInfo ++ b.vSpendInfo, a.vMintInfo ++ b.vMintInfo⟩

section
variable (Z : Zerocoin)

/-- What one round of the loop over the inputs records of the transaction. -/
def recordTx (tx : CTransaction) : Checked CoinInfo :=
  (if tx.IsZerocoinSpend then recordSerials Z.TxInToZerocoinSpend tx.hash tx.vin else .ok []) >>=
    fun spends =>
  .ok ⟨spends, if tx.IsZerocoinMint then recordMints (TxOutToPublicCoin Z) tx.hash tx.vout else []⟩

def recordRounds (tx : CTransaction) : List CTxIn → Checked CoinInfo
  | [] => .ok .none
  | _ :: vin =>
    if tx.IsCoinBase then .ok .none
    else
      (if tx.ContainsZerocoins then recordTx Z tx else .ok .none) >>= fun info =>
      recordRounds tx vin >>= fun rest => .ok (info.append rest)

/-- The loop over the transactions. -/
def recordBlock : List CTransaction → Checked CoinInfo
  | [] => .ok .none
  | tx :: vtx =>
    recordRounds Z tx tx.vin >>= fun info =>
    recordBlock vtx >>= fun rest => .ok (info.append rest)

end

/-! ## `ReindexZerocoinDB` -/

/-- What reindexing asks of the disks: whether a block can be read, and whether the batches
that are due at a height can be written. -/
structure ReindexDisk where
  ReadBlockFromDisk : CBlock → Bool
  WriteCoinSpendBatch : Nat → Bool
  WriteCoinMintBatch : Nat → Bool

section
variable (GetHash : Int → uint256) (Z : Zerocoin) (D : ReindexDisk)

/-- Write what has been collected, the spends first. -/
def flushCoins (nHeight : Nat) (info : CoinInfo) (r : CoinRecords) : CoinRecords × Checked Unit :=
  if !info.vSpendInfo.isEmpty && !D.WriteCoinSpendBatch nHeight then
    (r, .error "Error writing zerocoinDB to disk")
  else
    let r := r.WriteCoinSpendBatch GetHash info.vSpendInfo
    if !info.vMintInfo.isEmpty && !D.WriteCoinMintBatch nHeight then
      (r, .error "Error writing zerocoinDB to disk")
    else (r.WriteCoinMintBatch GetHash info.vMintInfo, .ok ())

/-- The loop over the chain from a height on, with what has been collected since the last
flush. -/
def reindexFrom : Nat → List CBlock → CoinInfo → CoinRecords → CoinRecords × Checked Unit
  | nHeight, [], info, r => flushCoins GetHash D nHeight info r
  | nHeight, block :: rest, info, r =>
    if !D.ReadBlockFromDisk block then (r, .error "Reindexing zerocoin failed")
    else
      match recordBlock Z block.vtx with
      | .error e => (r, .error e)
      | .ok more =>
        -- flush the zerocoinDB to disk every 100 blocks
        if nHeight % 100 = 0 then
          match flushCoins GetHash D nHeight (info.append more) r with
          | (r, .error e) => (r, .error e)
          | (r, .ok _) => reindexFrom (nHeight + 1) rest .none r
        else reindexFrom (nHeight + 1) rest (info.append more) r

/-- The blocks from `Zerocoin_StartHeight` on; `chain` has the genesis block first. -/
def fromStart {α : Type} (P : CChainParams) (chain : List α) : List α :=
  if P.nZerocoinStartHeight < 0 then [] else chain.drop P.nZerocoinStartHeight.toNat

/-- `ReindexZerocoinDB` over the active chain; no error stands for `""`. -/
def ReindexZerocoinDB (P : CChainParams) (chain : List CBlock) (r : CoinRecords) :
    CoinRecords × Checked Unit :=
  reindexFrom GetHash Z D P.nZerocoinStartHeight.toNat (fromStart P chain) .none
    ⟨WipeCoins r.spends, WipeCoins r.mints⟩

end

/-! ## The blocks connected one by one -/

/-- A block of the active chain with what `ConnectBlock` left when it was connected.  It has
passed `CheckBlock` when it came in. -/
structure ActiveBlock (Z : Zerocoin) where
  block : CBlock
  c : Connected
  connected : ∃ N pindex pprev view fAlreadyChecked, SameReading Z (CConnectNode.toCNode N).Z ∧
    block.hash ≠ N.hashGenesisBlock ∧
    ConnectBlock N block pindex pprev view false fAlreadyChecked = .ok c
  checked : ∃ N, CheckBlock N block true true = .ok ()

/-- The active chain: the genesis block, whose one transaction is its coin base, and the
blocks that have been connected to it, the lowest first. -/
structure ActiveChain (Z : Zerocoin) where
  genesis : CBlock
  coinBase : ∀ tx ∈ genesis.vtx, tx.IsCoinBase = true
  above : List (ActiveBlock Z)

def ActiveChain.blocks {Z : Zerocoin} (chain : ActiveChain Z) : List CBlock :=
  chain.genesis :: chain.above.map ActiveBlock.block

/-- The writes at the end of `ConnectBlock`. -/
def connectCoins (GetHash : Int → uint256) {Z : Zerocoin} (r : CoinRecords) (b : ActiveBlock Z) :
    CoinRecords :=
  (r.WriteCoinSpendBatch GetHash b.c.vSpends).WriteCoinMintBatch GetHash b.c.vMints

/-- The database after the blocks of the chain have been connected, from an empty one. -/
def ActiveChain.connectedRecords (GetHash : Int → uint256) {Z : Zerocoin} (chain : ActiveChain Z) :
    CoinRecords :=
  chain.above.foldl (connectCoins GetHash) .empty

end Divitae
