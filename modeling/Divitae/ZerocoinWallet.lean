/-
# `ZerocoinWallet` — the wallet's records of its own zerocoins

The tracker keeps a `CMintMeta` for each mint of the wallet, in memory, by the serial; the
wallet's database keeps the mint itself, by the coin.  Mints the wallet could still make
are in the pool.  A block that is connected tells the wallet of the mints in it
(`UpdateMint`), a block that is disconnected tells it of the spends (`SetMintUnspent`).

Serial and coin stand for their hashes.  A record of the database has the coin for its
key, and the key is not repeated in it.  Transactions of the wallet are left out.
-/
import Divitae.Lib.Records
import Divitae.Zerocoin

namespace Divitae

open Records List

structure CMintMeta where
  nHeight : Int
  hashSerial : Int
  hashPubcoin : Int
  hashStake : uint256
  nVersion : Nat
  denom : CoinDenomination
  txid : uint256
  isUsed : Bool
  isArchived : Bool
  isDeterministic : Bool
  deriving DecidableEq

structure CDeterministicMint where
  nVersion : Nat
  nCount : Nat
  hashSeed : uint256
  hashSerial : Int
  hashStake : uint256
  txid : uint256
  nHeight : Int
  denom : CoinDenomination
  isUsed : Bool
  deriving DecidableEq

/-- Without the secrets. -/
structure CZerocoinMint where
  denomination : CoinDenomination
  nHeight : Int
  serialNumber : Int
  txid : uint256
  isUsed : Bool
  version : Nat
  deriving DecidableEq

/-- `map<uint256, CMintMeta>`, by `hashSerial`. -/
structure MintMap where
  entries : List CMintMeta
  nodup : (entries.map CMintMeta.hashSerial).Nodup

namespace MintMap

/-- What the entry `m` becomes when `mint` is put in. -/
def replaced (mint m : CMintMeta) : CMintMeta := if m.hashSerial = mint.hashSerial then mint else m

theorem serial_replaced (mint m : CMintMeta) : (replaced mint m).hashSerial = m.hashSerial := by
  rw [replaced]
  split_ifs with h
  · exact h.symm
  · rfl

theorem map_replaced (mint : CMintMeta) (l : List CMintMeta) :
    (l.map (replaced mint)).map CMintMeta.hashSerial = l.map CMintMeta.hashSerial := by
  rw [map_map]
  exact map_congr_left fun m _ => serial_replaced mint m

/-- `mapSerialHashes[mint.hashSerial] = mint`. -/
def set (l : MintMap) (mint : CMintMeta) : MintMap :=
  if h : mint.hashSerial ∈ l.entries.map CMintMeta.hashSerial then
    ⟨l.entries.map (replaced mint), by
      rw [map_replaced]
      exact l.nodup⟩
  else
    ⟨l.entries ++ [mint], by
      rw [map_append, map_singleton, nodup_append]
      refine ⟨l.nodup, nodup_singleton _, ?_⟩
      rintro a ha b hb rfl
      obtain rfl := mem_singleton.mp hb
      exact h ha⟩

end MintMap

/-- Tracker, database and pool. -/
structure ZerocoinWallet where
  mapSerialHashes : MintMap
  mapPendingSpends : Store Int uint256
  deterministicMints : Store Int CDeterministicMint
  deterministicOrphans : Store Int CDeterministicMint
  zerocoinMints : Store Int CZerocoinMint
  /-- coin and count -/
  mintPool : List (Int × Nat)
  nCountLastUsed : Nat

/-- What the wallet's seed makes of a count, and what it asks of the chain. -/
structure MintSeed where
  /-- coin and serial -/
  SeedToZPIV : Nat → Int × Int
  hashSeed : uint256
  hashStake : Int → uint256
  IsSerialInBlockchain : Int → Bool

/-- `PrivateCoin::CURRENT_VERSION`. -/
def PrivateCoinVersion : Nat := 2

namespace ZerocoinWallet

variable (w : ZerocoinWallet)

/-! ## The tracker -/

def GetMetaFromPubcoin (hashPubcoin : Int) : Option CMintMeta :=
  w.mapSerialHashes.entries.find? fun mint => mint.hashPubcoin == hashPubcoin

def Get (hashSerial : Int) : Option CMintMeta :=
  w.mapSerialHashes.entries.find? fun mint => mint.hashSerial == hashSerial

/-- The end of `UpdateState`, for a deterministic mint. -/
def WriteDeterministicMint (mint : CMintMeta) (dMint : CDeterministicMint) : ZerocoinWallet :=
  { w with
    deterministicMints := Function.update w.deterministicMints mint.hashPubcoin (some { dMint with
      txid := mint.txid
      nHeight := mint.nHeight
      isUsed := mint.isUsed
      denom := mint.denom
      hashStake := mint.hashStake })
    mapSerialHashes := w.mapSerialHashes.set mint }

/-- The end of `UpdateState`, for any other. -/
def WriteZerocoinMint (mint : CMintMeta) (zMint : CZerocoinMint) : ZerocoinWallet :=
  { w with
    zerocoinMints := Function.update w.zerocoinMints mint.hashPubcoin (some { zMint with
      txid := mint.txid
      nHeight := mint.nHeight
      isUsed := mint.isUsed
      denomination := mint.denom })
    mapSerialHashes := w.mapSerialHashes.set mint }

/-- `UnarchiveDeterministicMint`, of a mint that is in the archive. -/
def Unarchive (hashPubcoin : Int) (dMint : CDeterministicMint) : ZerocoinWallet :=
  { w with
    deterministicMints := Function.update w.deterministicMints hashPubcoin (some dMint)
    deterministicOrphans := Function.update w.deterministicOrphans hashPubcoin none }

/-- `UpdateState`; the wallet's database takes what is written. -/
def UpdateState (mint : CMintMeta) : ZerocoinWallet :=
  if mint.isDeterministic then
    match w.deterministicMints mint.hashPubcoin with
    | some dMint => w.WriteDeterministicMint mint dMint
    | none =>
      -- Check archive just in case
      if !mint.isArchived then w
      else
        match w.deterministicOrphans mint.hashPubcoin with
        | none => w
        | some dMint => (w.Unarchive mint.hashPubcoin dMint).WriteDeterministicMint mint dMint
  else
    match w.zerocoinMints mint.hashPubcoin with
    | none => w
    | some zMint => w.WriteZerocoinMint mint zMint

def SetPubcoinNotUsed (hashPubcoin : Int) : ZerocoinWallet :=
  match w.GetMetaFromPubcoin hashPubcoin with
  | none => w
  | some mint =>
    { w with
      mapPendingSpends := Function.update w.mapPendingSpends mint.hashSerial none }.UpdateState
      { mint with isUsed := false }

/-- `Add`, of a deterministic mint that is new. -/
def Add (hashPubcoin : Int) (dMint : CDeterministicMint) : ZerocoinWallet :=
  { w with
    mapSerialHashes := w.mapSerialHashes.set
      { nHeight := dMint.nHeight
        hashSerial := dMint.hashSerial
        hashPubcoin := hashPubcoin
        hashStake := dMint.hashStake
        nVersion := dMint.nVersion
        denom := dMint.denom
        txid := dMint.txid
        isUsed := dMint.isUsed
        isArchived := false
        isDeterministic := true }
    deterministicMints := Function.update w.deterministicMints hashPubcoin (some dMint) }

/-- `SetMintSeen`, of a coin that is in the pool with this count. -/
def SetMintSeen (seed : MintSeed) (bnValue : Int) (nHeight : Int) (txid : uint256)
    (denom : CoinDenomination) (nCount : Nat) : ZerocoinWallet :=
  let generated := seed.SeedToZPIV nCount
  if generated.1 ≠ bnValue then w
  else
    let w := w.Add bnValue
      { nVersion := PrivateCoinVersion
        nCount := nCount
        hashSeed := seed.hashSeed
        hashSerial := generated.2
        hashStake := seed.hashStake generated.2
        txid := txid
        nHeight := nHeight
        denom := denom
        isUsed := seed.IsSerialInBlockchain generated.2 }
    { w with
      nCountLastUsed := max w.nCountLastUsed nCount
      mintPool := w.mintPool.filter fun p => p.1 != bnValue }

/-! ## What a block tells the wallet -/

def IsMyMint (bnValue : Int) : Bool :=
  (w.GetMetaFromPubcoin bnValue).isSome || w.mintPool.any fun p => p.1 == bnValue

def UpdateMint (seed : MintSeed) (bnValue : Int) (nHeight : Int) (txid : uint256)
    (denom : CoinDenomination) : ZerocoinWallet :=
  match w.GetMetaFromPubcoin bnValue with
  | some mint => w.UpdateState { mint with nHeight := nHeight, txid := txid }
  | none =>
    -- a potential future mint from our deterministic generation
    match w.mintPool.find? fun p => p.1 == bnValue with
    | none => w
    | some p => w.SetMintSeen seed bnValue nHeight txid denom p.2

def IsMyZerocoinSpend (bnSerial : Int) : Bool := (w.Get bnSerial).isSome

def SetMintUnspent (bnSerial : Int) : ZerocoinWallet :=
  match w.Get bnSerial with
  | none => w
  | some mint => w.SetPubcoinNotUsed mint.hashPubcoin

end ZerocoinWallet

/-- A mint as a block has it. -/
structure BlockMint where
  value : Int
  denomination : CoinDenomination
  txid : uint256
  deriving DecidableEq

/-- The loop of `UpdateZDIVITSupply` over the mints of the block at a height. -/
def ZerocoinWallet.recordMints (seed : MintSeed) (nHeight : Int) (w : ZerocoinWallet)
    (listMints : List BlockMint) : ZerocoinWallet :=
  listMints.foldl
    (fun w m =>
      if w.IsMyMint m.value then w.UpdateMint seed m.value nHeight m.txid m.denomination else w) w

end Divitae
