/-
# `MintRuns` — a coin is minted once

Whether a public coin has been minted before is asked in one place, the contextual check of
`ConnectBlock`, and it is asked of the database.  The database learns of the mints of a
block when the block is connected, so two mints of one block, or of one transaction, never
meet; and the check is made only from the height of zerocoin version 2 on, and not on the
test network.  Every network has that height at 999999999.

So a coin is minted once in the runs whose blocks bring coins that differ from each other
and, where the check is not made, from the coins of the chain.
-/
import Divitae.SerialRuns

namespace Divitae

open Records Run

namespace ZerocoinChain

variable {Z : Zerocoin} {L : uint256 → Option CTransaction} {fTxIndex : Bool} {s : ZerocoinChain}
  {M : CZerocoinNode} {block : CBlock}

/-- The contextual check looks coins up. -/
def ChecksMints (M : CZerocoinNode) (nHeight : Int) : Prop :=
  M.P.nBlockZerocoinV2 ≤ nHeight ∧ M.P.networkID ≠ .TESTNET

/-- The condition on a step: the coins of the block are apart, and new where that is not
checked; where it is, the check finds the transactions. -/
def KeepsCoins (Z : Zerocoin) (s : ZerocoinChain) : ZerocoinEvent → Prop
  | .connectTip M block pindexNew _ =>
    ((block.keys Z .coin).map Prod.fst).Nodup ∧
      (ChecksMints M pindexNew.nHeight → LooksUp Z .coin M s block) ∧
      (¬ ChecksMints M pindexNew.nHeight → ∀ k ∈ (block.keys Z .coin).map Prod.fst,
        k ∉ (s.keys Z .coin).map Prod.fst)
  | .disconnectTip M => Undoes .coin M s

theorem connectTip_coins {pindexNew : CBlockIndex} {fAlreadyChecked : Bool}
    (h : s.Books Z L fTxIndex .coin)
    (hok : Consistent Z L fTxIndex (.connectTip M block pindexNew fAlreadyChecked))
    (hkeeps : KeepsCoins Z s (.connectTip M block pindexNew fAlreadyChecked)) :
    (s.ConnectTip M block pindexNew fAlreadyChecked).Books Z L fTxIndex .coin := by
  obtain ⟨reading, index, named, ledger, -⟩ := hok
  obtain ⟨hapart, hlook, hnew⟩ := hkeeps
  rcases ConnectTip_queued reading s block pindexNew fAlreadyChecked with
    hsame | ⟨c, hs', hspends, hmints, -, hcoins, -⟩
  · rw [hsame]
    exact h
  rw [hs']
  refine h.connectWrites hspends hmints ⟨hapart, ?_⟩ ledger named index
  intro k hk
  by_cases hchecks : ChecksMints M pindexNew.nHeight
  · obtain ⟨e, he, rfl⟩ := List.mem_map.mp hk
    exact h.new index (hlook hchecks) he (hcoins hchecks.1 hchecks.2 e he)
  · exact hnew hchecks k hk

theorem keepsCoins_step (e : ZerocoinEvent) (h : s.Books Z L fTxIndex .coin)
    (hok : Consistent Z L fTxIndex e ∧ KeepsCoins Z s e) :
    (zerocoinStep s e).Books Z L fTxIndex .coin := by
  cases e with
  | connectTip M block pindexNew fAlreadyChecked => exact connectTip_coins h hok.1 hok.2
  | disconnectTip M =>
    cases hok.1 with
    | disconnectTip reading => exact h.disconnectTip reading hok.2

/-- **A coin is minted once.**  In every run whose blocks bring coins apart from each other
and, where that is not checked, from those of the chain, and whose disconnections go through
or erase no coin, no coin is minted by two outputs of the chain. -/
theorem coins_minted_once (Z : Zerocoin) (L : uint256 → Option CTransaction) (fTxIndex : Bool)
    (s : ZerocoinChain) (hs : s.Books Z L fTxIndex .coin) (events : List ZerocoinEvent)
    (hconsistent : ∀ e ∈ events, Consistent Z L fTxIndex e)
    (hkeeps : Guarded zerocoinStep (KeepsCoins Z) s events) :
    Throughout zerocoinStep (fun s => s.Exact Z .coin) s events := by
  have hbooks : Throughout zerocoinStep (fun s => s.Books Z L fTxIndex .coin) s events :=
    throughout_of_guarded (fun s e h hok => keepsCoins_step e h hok) hs
      ((guarded_of_forall hconsistent).and hkeeps)
  intro past hpast
  exact (hbooks past hpast).exact

/-! ## One coin twice, for example -/

/-- The coin's value is the last byte of the script. -/
def lastByteZerocoin : Zerocoin :=
  { quietZerocoin with mintValue := fun script => (script.getLastD 0).toNat }

def mintOf (value : UInt8) : CTxOut := ⟨COIN, [OP_ZEROCOINMINT, value]⟩

def mintBlock (vout : List CTxOut) : CBlock :=
  zerocoinBlock 101 100 1700000060 7 [⟨400, 1, [⟨⟨8, 0⟩, [], 0⟩], vout, 0⟩]

def mintStart : ZerocoinChain :=
  { noZerocoins with
    pcoinsTip :=
      { coins := fun txid =>
          if txid = 7 then ⟨false, false, [⟨COIN, []⟩], 5, 1⟩
          else if txid = 8 then ⟨false, false, [⟨2 * COIN, []⟩], 5, 1⟩
          else .null
        hashBlock := 100 } }

def mintRun (vout : List CTxOut) : List ZerocoinEvent :=
  [.connectTip { zerocoinNode true 100 1000000 with Z := lastByteZerocoin } (mintBlock vout)
    { quietTip 1000001 with phashBlock := some 101 } false]

def mintLedger (vout : List CTxOut) (txid : uint256) : Option CTransaction :=
  (mintBlock vout).vtx.find? fun tx => tx.hash == txid

theorem mintStart_books (vout : List CTxOut) :
    mintStart.Books lastByteZerocoin (mintLedger vout) true .coin := by
  have hnone : ∀ b ∈ mintStart.blocks, b.vtx = [] := by decide
  refine .start (by decide) ?_ (fun _ => rfl) (by decide)
  intro b hb tx htx
  rw [hnone b hb] at htx
  exact nomatch htx

theorem coins_minted_once_apart :
    Throughout zerocoinStep (fun s => s.Exact lastByteZerocoin .coin) mintStart
      (mintRun [mintOf 1, mintOf 2]) := by
  refine coins_minted_once lastByteZerocoin (mintLedger [mintOf 1, mintOf 2]) true mintStart
    (mintStart_books _) (mintRun [mintOf 1, mintOf 2]) ?_ ⟨⟨by decide, ?_, ?_⟩, trivial⟩
  · intro e he
    obtain rfl := List.mem_singleton.mp he
    exact .connectTip ⟨rfl, rfl⟩ rfl (by decide) (by decide) (by simp)
  · intro _ k txid _ _
    exact ⟨rfl, fun _ _ _ => rfl⟩
  · intro _ k _
    exact List.not_mem_nil

theorem coin_minted_twice :
    ¬ (∀ (Z : Zerocoin) (L : uint256 → Option CTransaction) (fTxIndex : Bool)
        (s : ZerocoinChain), s.Books Z L fTxIndex .coin → ∀ events : List ZerocoinEvent,
        (∀ e ∈ events, Consistent Z L fTxIndex e) →
          Throughout zerocoinStep (fun s => s.Exact Z .coin) s events) ∧
      ((mintRun [mintOf 1, mintOf 1]).foldl zerocoinStep mintStart).keys lastByteZerocoin .coin =
        [(1, 400), (1, 400)] := by
  have hkeys : ((mintRun [mintOf 1, mintOf 1]).foldl zerocoinStep mintStart).keys
      lastByteZerocoin .coin = [(1, 400), (1, 400)] := by decide +kernel
  refine ⟨?_, hkeys⟩
  intro hall
  have honce := (hall lastByteZerocoin (mintLedger [mintOf 1, mintOf 1]) true mintStart
    (mintStart_books _) (mintRun [mintOf 1, mintOf 1]) (fun e he => by
      obtain rfl := List.mem_singleton.mp he
      exact .connectTip ⟨rfl, rfl⟩ rfl (by decide) (by decide) (by simp))
    (mintRun [mintOf 1, mintOf 1]) (List.prefix_refl _)).once
  exact absurd honce (by decide)

end ZerocoinChain

end Divitae
