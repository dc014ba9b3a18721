/-
# `CreateCoinStake` — how the wallet lays out a coinstake

`CreateCoinStake` of `wallet.cpp` goes through the stakes the wallet has selected.  The round of
a stake that meets its kernel adds its value and the reward to `nCredit`, has the stake make the
outputs and hands the transaction to `FillBlockPayee`:

    coin        one output of all of `nCredit`, or two of half of it
    zerocoin    a new zerocoin of its denomination, and three of one coin for the reward

A round that cannot make the outputs is passed over, with `nCredit` as it is by then; one that
cannot make the input, with all it has laid out thrown away, the empty first output too.
-/
import Divitae.FillBlockPayee
import Divitae.SeeSaw
import Divitae.StakeInput
import Divitae.SwiftTX

namespace Divitae

/-! ## Scripts -/

namespace CScript

/-- `GetOp2`: the opcode, what it pushes and what is left to read. -/
def GetOp2 : CScript → Option (UInt8 × List UInt8 × CScript)
  | [] => none
  | opcode :: pc =>
    if opcode ≤ OP_PUSHDATA4 then
      let nHeader :=
        if opcode < OP_PUSHDATA1 then 0
        else if opcode = OP_PUSHDATA1 then 1
        else if opcode = OP_PUSHDATA2 then 2
        else 4
      if pc.length < nHeader then none
      else
        let nSize :=
          if opcode < OP_PUSHDATA1 then opcode.toNat
          else (pc.take nHeader).foldr (fun b n => n * 256 + b.toNat) 0
        let pc := pc.drop nHeader
        if pc.length < nSize then none else some (opcode, pc.take nSize, pc.drop nSize)
    else some (opcode, [], pc)

/-- An operation of a template of `Solver`. -/
inductive TemplateOp where
  | PUBKEY
  | PUBKEYHASH
  | op (opcode : UInt8)
  deriving DecidableEq

/-- A script against a template: what it pushes. -/
def matchTemplate : List TemplateOp → CScript → Option (List (List UInt8))
  | [], [] => some []
  | [], _ :: _ => none
  | tplate :: template, script =>
    match GetOp2 script with
    | none => none
    | some (opcode, vch, rest) =>
      match tplate with
      | .PUBKEY =>
        if vch.length < 33 ∨ vch.length > 65 then none
        else (matchTemplate template rest).map (vch :: ·)
      | .PUBKEYHASH =>
        if vch.length ≠ 20 then none else (matchTemplate template rest).map (vch :: ·)
      | .op opcode2 =>
        if opcode ≠ opcode2 ∨ vch ≠ [] then none else matchTemplate template rest

/-- `operator<<` of bytes. -/
def pushData (vch : List UInt8) : CScript :=
  if vch.length < 0x4c then UInt8.ofNat vch.length :: vch
  else if vch.length ≤ 0xff then OP_PUSHDATA1 :: UInt8.ofNat vch.length :: vch
  else if vch.length ≤ 0xffff then OP_PUSHDATA2 :: (leBytes 2 vch.length ++ vch)
  else OP_PUSHDATA4 :: (leBytes 4 vch.length ++ vch)

/-- `operator<<` of a number that is not negative. -/
def pushInt (n : Nat) : CScript :=
  if n = 0 then [0]
  else if n ≤ 16 then [UInt8.ofNat (0x50 + n)]
  else
    let digits := (Nat.digits 256 n).map UInt8.ofNat
    pushData (if digits.getLastD 0 ≥ 0x80 then digits ++ [0] else digits)

end CScript

/-- The kinds of script a stake may have. -/
inductive txnouttype where
  | TX_PUBKEY
  | TX_PUBKEYHASH
  deriving DecidableEq

open CScript in
/-- `Solver`, as far as a stake may be of the kind: what the script pushes.  The scripts that are
told apart before the templates match none of these. -/
def Solver (scriptPubKey : CScript) : Option (txnouttype × List UInt8) :=
  match matchTemplate [.PUBKEY, .op OP_CHECKSIG] scriptPubKey with
  | some (vch :: _) => some (.TX_PUBKEY, vch)
  | _ =>
    match matchTemplate [.op OP_DUP, .op OP_HASH160, .PUBKEYHASH, .op OP_EQUALVERIFY,
        .op OP_CHECKSIG] scriptPubKey with
    | some (vch :: _) => some (.TX_PUBKEYHASH, vch)
    | _ => none

/-! ## The wallet -/

def DEFAULT_BLOCK_MAX_SIZE : Nat := 750000

/-- `GetMedianTimePast` of the tip. -/
def CChain.GetMedianTimePast (chain : CChain) : Int :=
  let pmedian := ((chain.from' (max 0 (chain.Height - 10))).map KernelIndex.GetBlockTime)
    |>.insertionSort (· ≤ ·)
  pmedian.getD (pmedian.length / 2) 0

/-- What a round of the loop reads of the node and the wallet.  Staking and payments are of one
node: they see the same chain. -/
structure CWalletNode where
  kernel : StakeNode
  payments : CStakerNode
  tip : CBlockIndex
  chainTip : payments.base.chainTip = some tip
  height : kernel.chainActive.Height = tip.nHeight
  params : payments.base.P = kernel.P
  nMasternodeCount : Int
  nMoneySupply : CAmount
  seesaw : payments.GetSeeSaw = SeeSaw.GetSeeSaw nMasternodeCount nMoneySupply
  nStakeSplitThreshold : BitVec 64
  /-- the public key of `GetKey` -/
  GetKey : uint160 → Option CPubKey

/-- A selected stake, and what happens in its round. -/
structure StakeRound where
  node : CWalletNode
  stakeInput : StakeInput
  /-- a coin of the chain is not negative -/
  value_nonneg : 0 ≤ stakeInput.GetValue
  stopped : Bool -- `IsLocked() || ShutdownRequested()`
  GetAdjustedTime : BitVec 32
  /-- a block comes in while `Stake` is at this round of its own -/
  newBlock : Nat → Bool
  /-- `CreateZPIVOutPut` and `DatabaseMint` of the round's new mints: the public coin -/
  CreateZPIVOutPut : Nat → Option (List UInt8)
  /-- `CreateTxIn` of a zerocoin: the spend that commits to the outputs -/
  MintToTxIn : uint256 → Option CTxIn
  MarkSpent : uint256 → Bool
  SignSignature : CTransaction → Option CScript
  /-- the tracker takes the new zerocoins of a transaction -/
  UpdateState : CTransaction → Bool

/-- The variables of the loop. -/
structure StakeLoop where
  vout : List CTxOut
  nCredit : CAmount
  deriving DecidableEq

/-- With the empty output that marks a coinstake. -/
def StakeLoop.start : StakeLoop := ⟨[.empty], 0⟩

/-- How far a round comes until the payees are filled in. -/
inductive LaidOut where
  | next (s : StakeLoop) -- `continue`
  | failed -- `return false`
  | ready (vout : List CTxOut)
  deriving DecidableEq

/-- What a round comes to. -/
inductive StakeTurn where
  | next (s : StakeLoop)
  | failed
  | found (txNew : CTransaction)
  deriving DecidableEq

/-- `CMutableTransaction`, which keeps no hash. -/
def mutableTransaction (vin : List CTxIn) (vout : List CTxOut) : CTransaction :=
  ⟨0, 1, vin, vout, 0⟩

namespace StakeInput

/-- The zerocoins a stake mints. -/
def newMints : StakeInput → List CoinDenomination
  | vit .. => []
  | zvit a b denom d =>
    .ofAmount (zvit a b denom d).GetValue :: List.replicate 3 .ZQ_ONE

end StakeInput

namespace StakeRound

variable (r : StakeRound)

/-! ## The outputs -/

/-- The script a coin is staked to. -/
def stakeScript (scriptPubKeyKernel : CScript) : Option CScript :=
  match Solver scriptPubKeyKernel with
  | none => none -- failed to parse kernel
  | some (.TX_PUBKEY, _) => some scriptPubKeyKernel
  | some (.TX_PUBKEYHASH, vch) => -- convert to pay to public key type
      (r.node.GetKey (BitVec.ofNat 160 (vch.foldr (fun b n => n * 256 + b.toNat) 0))).map
        fun pubkey => CScript.pushData pubkey.bytes ++ [OP_CHECKSIG]

def splits (nTotal : CAmount) : Bool :=
  nTotal.tdiv 2 > Wrap.wrap64 (r.node.nStakeSplitThreshold.toNat * COIN)

def mintOut (denomination : CoinDenomination) (pubCoin : List UInt8) : CTxOut :=
  ⟨denomination.toAmount,
    OP_ZEROCOINMINT :: (CScript.pushInt pubCoin.length ++ CScript.pushData pubCoin)⟩

/-- The new zerocoins from the one numbered `i` on. -/
def mintOuts : Nat → List CoinDenomination → Option (List CTxOut)
  | _, [] => some []
  | i, denomination :: rest =>
    match r.CreateZPIVOutPut i with
    | none => none
    | some pubCoin => (mintOuts (i + 1) rest).map (mintOut denomination pubCoin :: ·)

def CreateTxOuts (nTotal : CAmount) : Option (List CTxOut) :=
  match r.stakeInput with
  | .vit txFrom nPosition =>
    match txFrom.vout[nPosition]? with
    | none => none -- the source reads behind the end
    | some txout =>
      match r.stakeScript txout.scriptPubKey with
      | none => none
      | some scriptPubKey =>
        if r.splits nTotal then some [⟨0, scriptPubKey⟩, ⟨0, scriptPubKey⟩]
        else some [⟨0, scriptPubKey⟩]
  | .zvit .. => r.mintOuts 0 r.stakeInput.newMints

/-- The first of two outputs gets whole cents. -/
def halfCredit (nCredit : CAmount) : CAmount := (nCredit.tdiv 2).tdiv CENT * CENT

def setAmounts (nCredit : CAmount) : List CTxOut → Option (List CTxOut)
  | [o, o1, o2] =>
    some [o, { o1 with nValue := halfCredit nCredit },
      { o2 with nValue := nCredit - halfCredit nCredit }]
  | o :: o1 :: rest => some (o :: { o1 with nValue := nCredit } :: rest)
  | _ => none -- the source writes behind the end

/-! ## The round -/

/-- The stake meets its kernel, later than the median of the last blocks. -/
def kernelFound (nBits : BitVec 32) : Bool :=
  match r.stakeInput.GetIndexFrom r.node.kernel with
  | none => false -- no pindexfrom
  | some pindex =>
    if pindex.nHeight < 1 then false
    else
      match Stake r.node.kernel r.stakeInput nBits pindex.nTime r.GetAdjustedTime r.newBlock with
      | none => false
      | some (nTxNewTime, _) =>
        decide (r.node.kernel.chainActive.GetMedianTimePast < (nTxNewTime.toNat : Int))

def nReward : CAmount := GetBlockValue r.node.kernel.P (r.node.kernel.chainActive.Height + 1)

def credit (s : StakeLoop) : CAmount := s.nCredit + r.stakeInput.GetValue + r.nReward

def layOut (nBits : BitVec 32) (s : StakeLoop) : LaidOut :=
  if r.stopped then .failed
  else if !r.kernelFound nBits then .next s
  else
    match r.CreateTxOuts (r.credit s) with
    | none => .next { s with nCredit := r.credit s } -- failed to get scriptPubKey
    | some outs =>
      match if r.stakeInput.IsZPIV then some (s.vout ++ outs)
          else setAmounts (r.credit s) (s.vout ++ outs) with
      | none => .failed
      | some vout =>
        if (mutableTransaction [] vout).ser.length ≥ DEFAULT_BLOCK_MAX_SIZE / 5 then
          .failed -- exceeded coinstake size limit
        else .ready vout

def filled (IsMasternode : Bool) (vout : List CTxOut) : CTransaction :=
  r.node.payments.FillBlockPayee (mutableTransaction [] vout) true IsMasternode

def CreateTxIn (hashTxOut : uint256) : Option CTxIn :=
  match r.stakeInput with
  | .vit txFrom nPosition => some ⟨⟨txFrom.hash, nPosition⟩, [], 0xFFFFFFFF⟩
  | .zvit .. => r.MintToTxIn hashTxOut

def turn (nBits : BitVec 32) (IsMasternode : Bool) (s : StakeLoop) : StakeTurn :=
  match r.layOut nBits s with
  | .next s => .next s
  | .failed => .failed
  | .ready vout =>
    let txNew := r.filled IsMasternode vout
    let hash256 := r.node.kernel.C.hash256
    match r.CreateTxIn (hash256 txNew.ser) with
    | none => .next ⟨[], 0⟩ -- failed to create TxIn
    | some txin =>
      let txNew := { txNew with vin := [txin] }
      if r.stakeInput.IsZPIV && !r.MarkSpent (hash256 txNew.ser) then .failed
      else .found txNew

/-- The signature of a coin, the records of a zerocoin. -/
def finish (txNew : CTransaction) : Option CTransaction :=
  match txNew.vin with
  | [txin] =>
    if !txin.scriptSig.IsZerocoinSpend then
      (r.SignSignature txNew).map fun scriptSig =>
        { txNew with vin := [{ txin with scriptSig := scriptSig }] }
    else if r.UpdateState txNew then some txNew
    else none
  | _ => none

end StakeRound

/-- The loop of `CreateCoinStake`: the round that found the transaction, and the transaction. -/
def stakeLoop (nBits : BitVec 32) (IsMasternode : Bool) :
    StakeLoop → List StakeRound → Option (StakeRound × CTransaction)
  | _, [] => none
  | s, r :: rounds =>
    match r.turn nBits IsMasternode s with
    | .next s => stakeLoop nBits IsMasternode s rounds
    | .failed => none
    | .found txNew => some (r, txNew)

/-- `CreateCoinStake`, from the selected stakes on. -/
def CreateCoinStake (nBits : BitVec 32) (IsMasternode : Bool) (listInputs : List StakeRound) :
    Option CTransaction :=
  match stakeLoop nBits IsMasternode .start listInputs with
  | none => none
  | some (r, txNew) => r.finish txNew

/-- The variables behind these rounds, if the loop goes on behind each. -/
def afterRounds (nBits : BitVec 32) (IsMasternode : Bool) :
    StakeLoop → List StakeRound → Option StakeLoop
  | s, [] => some s
  | s, r :: rounds =>
    match r.turn nBits IsMasternode s with
    | .next s => afterRounds nBits IsMasternode s rounds
    | _ => none

/-! ## What a round does -/

namespace StakeRound

variable {r : StakeRound} {nBits : BitVec 32} {IsMasternode : Bool} {s s' : StakeLoop}

theorem layOut_cases :
    r.layOut nBits s = .failed ∨
      (r.kernelFound nBits = false ∧ r.layOut nBits s = .next s) ∨
      (r.kernelFound nBits = true ∧ r.CreateTxOuts (r.credit s) = none ∧
        r.layOut nBits s = .next { s with nCredit := r.credit s }) ∨
      (r.kernelFound nBits = true ∧ ∃ outs vout, r.CreateTxOuts (r.credit s) = some outs ∧
        (if r.stakeInput.IsZPIV then some (s.vout ++ outs)
          else setAmounts (r.credit s) (s.vout ++ outs)) = some vout ∧
        r.layOut nBits s = .ready vout) := by
  rw [layOut]
  by_cases hstop : r.stopped = true
  · exact .inl (if_pos hstop)
  rw [if_neg hstop]
  cases hkernel : r.kernelFound nBits with
  | false => exact .inr (.inl ⟨rfl, rfl⟩)
  | true =>
    rw [if_neg (show ¬ (!true) = true by decide)]
    cases houts : r.CreateTxOuts (r.credit s) with
    | none => exact .inr (.inr (.inl ⟨rfl, rfl, rfl⟩))
    | some outs =>
      dsimp only
      split
      · exact .inl rfl
      · next vout hset =>
          by_cases hsize : (mutableTransaction [] vout).ser.length ≥ DEFAULT_BLOCK_MAX_SIZE / 5
          · exact .inl (if_pos hsize)
          · exact .inr (.inr (.inr ⟨rfl, outs, vout, rfl, hset, if_neg hsize⟩))

theorem layOut_next (h : r.layOut nBits s = .next s') :
    (r.kernelFound nBits = false ∧ s' = s) ∨
      (r.kernelFound nBits = true ∧ r.CreateTxOuts (r.credit s) = none ∧
        s' = { s with nCredit := r.credit s }) := by
  rcases @layOut_cases r nBits s with hlaid | ⟨hkernel, hlaid⟩ | ⟨hkernel, houts, hlaid⟩ |
      ⟨-, _, _, -, -, hlaid⟩ <;> rw [h] at hlaid
  · cases hlaid
  · exact .inl ⟨hkernel, LaidOut.next.inj hlaid⟩
  · exact .inr ⟨hkernel, houts, LaidOut.next.inj hlaid⟩
  · cases hlaid

theorem layOut_ready {vout : List CTxOut} (h : r.layOut nBits s = .ready vout) :
    r.kernelFound nBits = true ∧
      ∃ outs, r.CreateTxOuts (r.credit s) = some outs ∧
        (if r.stakeInput.IsZPIV then some (s.vout ++ outs)
          else setAmounts (r.credit s) (s.vout ++ outs)) = some vout := by
  rcases @layOut_cases r nBits s with hlaid | ⟨-, hlaid⟩ | ⟨-, -, hlaid⟩ |
      ⟨hkernel, outs, vout', houts, hset, hlaid⟩ <;> rw [h] at hlaid
  · cases hlaid
  · cases hlaid
  · cases hlaid
  · obtain rfl := LaidOut.ready.inj hlaid
    exact ⟨hkernel, outs, houts, hset⟩

theorem turn_next (h : r.turn nBits IsMasternode s = .next s') :
    r.layOut nBits s = .next s' ∨
      ∃ vout, r.layOut nBits s = .ready vout ∧ r.stakeInput.IsZPIV = true ∧ s' = ⟨[], 0⟩ := by
  unfold turn at h
  cases hlaid : r.layOut nBits s with
  | next s'' =>
    rw [hlaid] at h
    cases h
    exact .inl rfl
  | failed =>
    rw [hlaid] at h
    cases h
  | ready vout =>
    rw [hlaid] at h
    dsimp only at h
    refine .inr ⟨vout, rfl, ?_⟩
    split at h
    · next hin =>
        cases h
        refine ⟨?_, rfl⟩
        cases hstake : r.stakeInput with
        | vit txFrom nPosition =>
          rw [CreateTxIn, hstake] at hin
          cases hin
        | zvit => rfl
    · split_ifs at h

theorem turn_found {txNew : CTransaction} (h : r.turn nBits IsMasternode s = .found txNew) :
    ∃ vout, r.layOut nBits s = .ready vout ∧ txNew.vout = (r.filled IsMasternode vout).vout := by
  unfold turn at h
  cases hlaid : r.layOut nBits s with
  | next s'' =>
    rw [hlaid] at h
    cases h
  | failed =>
    rw [hlaid] at h
    cases h
  | ready vout =>
    rw [hlaid] at h
    dsimp only at h
    refine ⟨vout, rfl, ?_⟩
    split at h
    · cases h
    · split_ifs at h
      obtain rfl := StakeTurn.found.inj h
      rfl

end StakeRound

/-- The variables of the loop: nothing but the empty output is laid out. -/
structure StakeLoop.Kept (s : StakeLoop) : Prop where
  vout : s.vout = [.empty] ∨ s.vout = []
  nCredit : 0 ≤ s.nCredit

theorem StakeRound.credit_pos (r : StakeRound) {s : StakeLoop} (h : s.Kept) : 0 < r.credit s := by
  have hreward : 0 < r.nReward := GetBlockValue_pos ..
  exact Int.add_pos_of_nonneg_of_pos (Int.add_nonneg h.nCredit r.value_nonneg) hreward

theorem StakeRound.turn_kept {r : StakeRound} {nBits : BitVec 32} {IsMasternode : Bool}
    {s s' : StakeLoop} (hs : s.Kept) (h : r.turn nBits IsMasternode s = .next s') : s'.Kept := by
  rcases StakeRound.turn_next h with hnext | ⟨vout, -, -, rfl⟩
  · rcases StakeRound.layOut_next hnext with ⟨-, rfl⟩ | ⟨-, -, rfl⟩
    · exact hs
    · exact ⟨hs.vout, Int.le_of_lt (r.credit_pos hs)⟩
  · exact ⟨.inr rfl, Int.le_refl 0⟩

variable {rounds : List StakeRound}

theorem afterRounds_cons {nBits : BitVec 32} {IsMasternode : Bool} {r : StakeRound}
    {s s' : StakeLoop} :
    afterRounds nBits IsMasternode s (r :: rounds) = some s' ↔
      ∃ m, r.turn nBits IsMasternode s = .next m ∧
        afterRounds nBits IsMasternode m rounds = some s' := by
  rw [afterRounds]
  cases r.turn nBits IsMasternode s with
  | next m => simp
  | failed => simp
  | found txNew => simp

theorem afterRounds_kept {nBits : BitVec 32} {IsMasternode : Bool}
    {s s' : StakeLoop} (hs : s.Kept) (h : afterRounds nBits IsMasternode s rounds = some s') :
    s'.Kept := by
  induction rounds generalizing s with
  | nil =>
    cases h
    exact hs
  | cons r rounds ih =>
    obtain ⟨m, hturn, hrest⟩ := afterRounds_cons.mp h
    exact ih (StakeRound.turn_kept hs hturn) hrest

theorem StakeLoop.start_kept : StakeLoop.start.Kept := ⟨.inl rfl, Int.le_refl 0⟩

end Divitae
