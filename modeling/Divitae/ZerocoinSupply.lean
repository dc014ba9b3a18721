/-
# `ZerocoinSupply` — the zerocoins of each denomination

Every index entry carries `mapZerocoinSupply`, the number of unspent zerocoins behind its
block.  `UpdateZDIVITSupply` takes the numbers of the previous entry, adds the mints of
the block and takes its spends off; but only when the previous block has a version above
three.  Otherwise it goes on from what the entry itself holds, and the entry is not
cleared when its block is disconnected.

The index is kept by hash here, for blocks on the chain and off it, so that a block that
comes back finds its entry as it was left.  At one height the numbers of the whole chain
are computed again (`RecalculateZVITMinted`, `RecalculateZVITSpent`).
-/
import Divitae.ConnectStages
import Divitae.StakeSpent

namespace Divitae

/-- `mapBlockIndex` with the blocks, the hashes of the active chain, the tip first, and the
coins of the tip. -/
structure SupplyChain where
  mapBlockIndex : uint256 → Option ChainEntry
  chainActive : List uint256
  pcoinsTip : CCoinsView

section
variable (N : CConnectNode)

/-! ## The one-time recalculation -/

/-- The numbers of an entry from those of the previous one, as they are recalculated: what
is on the lists of invalid outputs and serials is left out. -/
def recalculatedSupply (block : CBlock)
    (supply : CoinDenomination → Int) : CoinDenomination → Int :=
  let supply := fun denom => supply denom + (BlockToZerocoinMintList N true block.vtx).count denom
  (ZerocoinSpendListFromBlock N true block.vtx).foldl
    (fun supply denom => Function.update supply denom (supply denom - 1)) supply

/-- `RecalculateZVITMinted` and `RecalculateZVITSpent`, on the chain whose tip comes first. -/
def recalculate (mapBlockIndex : uint256 → Option ChainEntry) :
    List uint256 → uint256 → Option ChainEntry
  | [] => mapBlockIndex
  | hash :: below =>
    let mapBlockIndex := recalculate mapBlockIndex below
    match mapBlockIndex hash, below.head?.bind mapBlockIndex with
    | some entry, some prev =>
      if entry.pindex.nHeight < N.P.nZerocoinStartHeight then mapBlockIndex
      else
        Function.update mapBlockIndex hash (some
          { entry with
            pindex := { entry.pindex with
              vMintDenominationsInBlock := BlockToZerocoinMintList N true entry.block.vtx
              mapZerocoinSupply :=
                recalculatedSupply N entry.block prev.pindex.mapZerocoinSupply } })
    | _, _ => mapBlockIndex

end

namespace SupplyChain

variable (N : CDisconnectNode) (s : SupplyChain)

/-- A header that is not known yet: its entry starts at zero. -/
def AddToBlockIndex (block : CBlock) (pindex : CBlockIndex) : SupplyChain :=
  match s.mapBlockIndex block.hash with
  | some _ => s
  | none =>
    { s with
      mapBlockIndex := Function.update s.mapBlockIndex block.hash
        (some ⟨block, { pindex with
          phashBlock := some block.hash
          nHeight := (s.mapBlockIndex block.hashPrevBlock).elim 0 fun prev =>
            prev.pindex.nHeight + 1
          nVersion := block.nVersion
          mapZerocoinSupply := fun _ => 0
          vMintDenominationsInBlock := [] }⟩) }

/-- The index behind the loop of `ConnectBlock`, before the block's own entry is touched. -/
def connectIndex (pindex : CBlockIndex) : uint256 → Option ChainEntry :=
  if pindex.nHeight = N.P.nBlockRecalculateAccumulators + 1 then
    recalculate N.toCConnectNode s.mapBlockIndex s.chainActive
  else s.mapBlockIndex

/-- `ConnectTip` of a block behind the loop, `tip` being the entry of the tip after the
recalculation. -/
def connectEntry (hash : uint256) (entry tip : ChainEntry) (st : ConnectState) : SupplyChain :=
  let mapBlockIndex := s.connectIndex N entry.pindex
  let N : CConnectNode := { N.toCConnectNode with
    recalculated := fun pprev => ((N.recalculated pprev).1, tip.pindex.mapZerocoinSupply) }
  match afterLoop N entry.block entry.pindex tip.pindex s.pcoinsTip false st with
  | .error _ =>
    { s with
      mapBlockIndex := Function.update mapBlockIndex hash
        (some ⟨entry.block, leftIndex N entry.block entry.pindex tip.pindex st⟩) }
  | .ok c =>
    ⟨Function.update mapBlockIndex hash (some ⟨entry.block, c.pindex⟩), hash :: s.chainActive,
      c.view⟩

/-- `ConnectTip` of the block with this hash. -/
def ConnectTip (hash : uint256) (fAlreadyChecked : Bool) : SupplyChain :=
  match s.mapBlockIndex hash, s.chainActive.head?, s.chainActive.head?.bind s.mapBlockIndex with
  | some entry, some hashTip, some tip =>
    -- assert(pindexNew->pprev == chainActive.Tip())
    if entry.block.hashPrevBlock ≠ hashTip ∨ entry.pindex.nHeight ≠ tip.pindex.nHeight + 1 ∨
        entry.block.hash = N.hashGenesisBlock then s
    else
      match connectLoop N.toCConnectNode entry.block entry.pindex tip.pindex s.pcoinsTip false
        fAlreadyChecked with
      | .error _ => s
      | .ok st =>
        match s.connectIndex N entry.pindex hashTip with
        | none => s
        | some tip => s.connectEntry N hash entry tip st
  | _, _, _ => s

/-- `DisconnectTip`.  The entry stays as it is. -/
def DisconnectTip : SupplyChain :=
  match s.chainActive with
  | hash :: hashPrev :: below =>
    match s.mapBlockIndex hash, s.mapBlockIndex hashPrev with
    | some tip, some prev =>
      match DisconnectBlock N tip.block tip.pindex prev.pindex s.pcoinsTip with
      | .ok (view, true) => ⟨s.mapBlockIndex, hashPrev :: below, view⟩
      | _ => s
    | _, _ => s
  | _ => s

end SupplyChain

inductive SupplyEvent where
  | addToBlockIndex (block : CBlock) (pindex : CBlockIndex)
  | connectTip (N : CDisconnectNode) (hash : uint256) (fAlreadyChecked : Bool)
  | disconnectTip (N : CDisconnectNode)

def supplyStep (s : SupplyChain) : SupplyEvent → SupplyChain
  | .addToBlockIndex block pindex => s.AddToBlockIndex block pindex
  | .connectTip N hash fAlreadyChecked => s.ConnectTip N hash fAlreadyChecked
  | .disconnectTip N => s.DisconnectTip N

end Divitae
