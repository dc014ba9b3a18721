/-
# `ConnectStages` — `ConnectBlock` in two stages

Up to the end of the loop over the transactions `ConnectBlock` only reads, and changes the
view it was given.  Behind it the index entry of the block is written in place, before the
last checks are made:

    connectLoop     the checks, the loop
    afterLoop       supplies, value check, checkpoint; the writes unless only a check is wanted
    leftIndex       the entry as it is left behind, whatever comes of the checks

`ConnectBlock_stages` says that the first two make up the whole.
-/
import Divitae.ConnectTotals

namespace Divitae

open Wrap

section
variable (N : CConnectNode)

/-- `ConnectBlock` to the end of the loop, for a block that is not the genesis block. -/
def connectLoop (block : CBlock) (pindex pprev : CBlockIndex) (view : CCoinsView)
    (fJustCheck fAlreadyChecked : Bool) : Checked ConnectState :=
  (if fAlreadyChecked then .ok ()
    else CheckBlock N.toCNode block (!fJustCheck) (!fJustCheck)) >>= fun _ =>
  rejectIf (pprev.phashBlock != some view.hashBlock)
    "assert(hashPrevBlock == view.GetBestBlock())" <|
  rejectIf (pindex.nHeight ≤ N.P.nLastPOWBlock && block.IsProofOfStake) "PoS-early" <|
  rejectIf (N.P.nLastPOWBlock < pindex.nHeight && block.IsProofOfWork) "PoW-ended" <|
  rejectIf (fEnforceBIP30 pindex && block.vtx.any fun tx => !(view.coins tx.hash).IsPruned)
    "bad-txns-BIP30" <|
  connectTxs N block pindex true block.vtx (.start view)

def supplyBase (pindex pprev : CBlockIndex) : CBlockIndex :=
  if pindex.nHeight = N.P.nBlockRecalculateAccumulators + 1 then
    { pprev with
      nMoneySupply := (N.recalculated pprev).1
      mapZerocoinSupply := (N.recalculated pprev).2 }
  else pprev

/-- The entry with the money supply and the mint figure. -/
def trackSupply (pindex pprev : CBlockIndex) (st : ConnectState) : CBlockIndex :=
  let nMoneySupply := wrap64 (wrap64 (pprev.nMoneySupply + st.nValueOut) - st.nValueIn)
  { pindex with
    nMoneySupply := nMoneySupply
    nMint := wrap64 (wrap64 (nMoneySupply - pprev.nMoneySupply) + st.nFees) }

/-- `ConnectBlock` from the value check on. -/
def afterSupply (block : CBlock) (pindex pprev : CBlockIndex) (view : CCoinsView)
    (fJustCheck : Bool) (st : ConnectState) : Checked Connected :=
  let nExpectedMint := GetBlockValue N.P pprev.nHeight +
    (if block.IsProofOfWork then st.nFees else 0)
  rejectIf (!IsBlockValueValid N block nExpectedMint pindex.nMint) "bad-cb-amount" <|
  rejectIf (!N.ValidateAccumulatorCheckpoint block pindex) "bad-acc-checkpoint" <|
  if fJustCheck then .ok ⟨pindex, st.view, [], []⟩
  else
    rejectIf (!N.writesSucceed) "Failed to write undo data" <|
    let undo := pindex.undo.getD (WriteToDisk N st.vtxundo view.hashBlock)
    .ok ⟨{ pindex with undo := some undo },
      st.view.SetBestBlock (pindex.phashBlock.getD 0), st.vSpends, st.vMints⟩

/-- `ConnectBlock` behind the loop. -/
def afterLoop (block : CBlock) (pindex pprev : CBlockIndex) (view : CCoinsView)
    (fJustCheck : Bool) (st : ConnectState) : Checked Connected :=
  UpdateZDIVITSupply N block pindex (supplyBase N pindex pprev) >>= fun pindex' =>
  afterSupply N block (trackSupply pindex' (supplyBase N pindex pprev) st) pprev view fJustCheck st

/-- Take the spends off the supply in place: what is left when one of them is not there. -/
def spendInPlace : List CoinDenomination → (CoinDenomination → Int) → CoinDenomination → Int
  | [], supply => supply
  | denom :: listSpends, supply =>
    if denom = .ZQ_ERROR then supply -- map::at throws
    else
      let supply := Function.update supply denom (supply denom - 1)
      if supply denom < 0 then supply else spendInPlace listSpends supply

/-- What `UpdateZDIVITSupply` makes of the entry, also when it fails. -/
def supplyInPlace (block : CBlock) (pindex pprev : CBlockIndex) : CBlockIndex :=
  let fFilterInvalid := decide (N.P.nBlockRecalculateAccumulators ≤ pindex.nHeight)
  let listMints := BlockToZerocoinMintList N fFilterInvalid block.vtx
  let supply := if 3 < pprev.nVersion then pprev.mapZerocoinSupply else pindex.mapZerocoinSupply
  let supply := listMints.foldl
    (fun supply denom => Function.update supply denom (supply denom + 1)) supply
  { pindex with
    mapZerocoinSupply := spendInPlace (ZerocoinSpendListFromBlock N fFilterInvalid block.vtx) supply
    vMintDenominationsInBlock := listMints }

/-- What `ConnectBlock` makes of the entry behind the loop, whether it goes on to succeed
or not. -/
def leftIndex (block : CBlock) (pindex pprev : CBlockIndex) (st : ConnectState) : CBlockIndex :=
  match UpdateZDIVITSupply N block pindex (supplyBase N pindex pprev) with
  | .error _ => supplyInPlace N block pindex (supplyBase N pindex pprev)
  | .ok pindex' => trackSupply pindex' (supplyBase N pindex pprev) st

end

section
variable {N : CConnectNode} {block : CBlock} {pindex pprev : CBlockIndex} {view : CCoinsView}
  {fJustCheck fAlreadyChecked : Bool}

theorem rejectIf_bind {α β : Type} (bad : Bool) (reason : String) (x : Checked α)
    (f : α → Checked β) : (rejectIf bad reason x >>= f) = rejectIf bad reason (x >>= f) := by
  cases bad <;> rfl

theorem ConnectBlock_stages (hgenesis : block.hash ≠ N.hashGenesisBlock) :
    ConnectBlock N block pindex pprev view fJustCheck fAlreadyChecked =
      connectLoop N block pindex pprev view fJustCheck fAlreadyChecked >>= fun st =>
        afterLoop N block pindex pprev view fJustCheck st := by
  rw [ConnectBlock, if_neg hgenesis]
  simp only [connectLoop, afterLoop, afterSupply, connectTotals, rejectIf_bind, bind_assoc]
  rfl

theorem afterSupply_isOk (st : ConnectState) :
    (afterSupply N block pindex pprev view fJustCheck st).isOk =
      (IsBlockValueValid N block (GetBlockValue N.P pprev.nHeight +
          if block.IsProofOfWork then st.nFees else 0) pindex.nMint &&
        N.ValidateAccumulatorCheckpoint block pindex && (fJustCheck || N.writesSucceed)) := by
  rw [afterSupply]
  cases IsBlockValueValid N block (GetBlockValue N.P pprev.nHeight +
      if block.IsProofOfWork then st.nFees else 0) pindex.nMint with
  | false => rfl
  | true =>
    cases N.ValidateAccumulatorCheckpoint block pindex with
    | false => rfl
    | true =>
      cases fJustCheck with
      | true => rfl
      | false => cases N.writesSucceed <;> rfl

theorem spendInPlace_of_ok : ∀ {listSpends : List CoinDenomination}
    {supply supply' : CoinDenomination → Int}, spendSupply listSpends supply = .ok supply' →
    spendInPlace listSpends supply = supply'
  | [], _, _, h => by
    cases h
    rfl
  | denom :: listSpends, supply, supply', h => by
    simp only [spendSupply, rejectIf_eq_ok] at h
    obtain ⟨hdenom, hleft, h⟩ := h
    have hne : denom ≠ .ZQ_ERROR := by simpa using hdenom
    have hnonneg : ¬ Function.update supply denom (supply denom - 1) denom < 0 := by
      simpa using hleft
    rw [spendInPlace, if_neg hne]
    rw [if_neg hnonneg]
    exact spendInPlace_of_ok h

theorem supplyInPlace_of_ok {pindex' : CBlockIndex}
    (h : UpdateZDIVITSupply N block pindex pprev = .ok pindex') :
    supplyInPlace N block pindex pprev = pindex' := by
  simp only [UpdateZDIVITSupply, bind_eq_ok] at h
  obtain ⟨supply, hsupply, h⟩ := h
  cases h
  rw [supplyInPlace, spendInPlace_of_ok hsupply]

end

end Divitae
