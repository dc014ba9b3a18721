/-
# `MintSelection` — which mints of a wallet are spent for an amount

`denomination_functions.cpp`.  A map of denominations says how many coins of each are used, held
or given as change:

    getIdealSpends       the exact amount, from the highest denomination on
    getSpends            the mints that make up such a map
    calculateChange      a map above the amount: one higher coin, or coins from the top on
    minimizeChange       another one, with fewer coins in the change
    SelectMintsFromList  the exact mints if they are not too many, or those with change

The `do`-loops of the source need not end for any map, so they have fuel.
-/
import Divitae.Lib.Change
import Divitae.Lib.Fuel
import Divitae.Lib.Loop
import Divitae.ZerocoinWallet

namespace Divitae

open CoinDenomination Fuel

/-- `std::map<CoinDenomination, CAmount>`, with all denominations for keys. -/
abbrev DenomMap := CoinDenomination → CAmount

namespace DenomMap

def zero : DenomMap := fun _ => 0

/-- `map.at(denom)++` -/
def inc (m : DenomMap) (denom : CoinDenomination) : DenomMap :=
  Function.update m denom (m denom + 1)

/-- `map.at(denom)--` -/
def dec (m : DenomMap) (denom : CoinDenomination) : DenomMap :=
  Function.update m denom (m denom - 1)

end DenomMap

def getNumberOfCoinsUsed (mapChange : DenomMap) : Int := Change.number mapChange zerocoinDenomList

def getMaxDenomHeld (mapCoinsHeld : DenomMap) : CoinDenomination :=
  (zerocoinDenomList.reverse.find? fun coin => mapCoinsHeld coin != 0).getD ZQ_ERROR

def getNextLowerDenomHeld (this_denom : CoinDenomination) (mapCoinsHeld : DenomMap) :
    CoinDenomination :=
  (zerocoinDenomList.reverse.find? fun denom =>
    decide (denom.toInt < this_denom.toInt) && mapCoinsHeld denom != 0).getD ZQ_ERROR

/-! ## Amounts into coins -/

/-- A map, and the amount that is left. -/
structure Spending where
  mapUsed : DenomMap
  nRemainingValue : CAmount

namespace Spending

def use (s : Spending) (coin : CoinDenomination) : Spending :=
  ⟨s.mapUsed.inc coin, s.nRemainingValue - coin.toAmount⟩

/-- The test in `getSpendCoins`. -/
def canSpend (held : DenomMap) (coin : CoinDenomination) (s : Spending) : Bool :=
  decide (coin.toAmount ≤ s.nRemainingValue) && decide (s.mapUsed coin < held coin)

/-- That in `getChange`. -/
def canChange (coin : CoinDenomination) (s : Spending) : Bool :=
  decide (coin.toAmount ≤ s.nRemainingValue)

end Spending

def getSpendCoins (fuel : Nat) (nValueTarget : CAmount) (mapOfDenomsHeld : DenomMap) :
    Option DenomMap :=
  (zerocoinDenomList.reverse.foldlM (fun s coin =>
    doWhile (Spending.canSpend mapOfDenomsHeld coin)
      (fun s => if Spending.canSpend mapOfDenomsHeld coin s then s.use coin else s) fuel s)
    ⟨.zero, nValueTarget⟩).map Spending.mapUsed

def getChange (fuel : Nat) (nValueTarget : CAmount) : Option DenomMap :=
  (zerocoinDenomList.reverse.foldlM (fun s coin =>
    doWhile (Spending.canChange coin)
      (fun s => if Spending.canChange coin s then s.use coin else s) fuel s)
    ⟨.zero, nValueTarget⟩).map Spending.mapUsed

/-- One mint of the loop in `getIdealSpends`, which ends when the coin does not fit any more. -/
def idealMint (coin : CoinDenomination) (s : Spending) (mint : CMintMeta) : Spending ⊕ Spending :=
  if mint.isUsed then .inl s
  else
    let s := if coin.toAmount ≤ s.nRemainingValue ∧ coin = mint.denom then s.use coin else s
    if s.nRemainingValue < coin.toAmount then .inr s else .inl s

/-- `getIdealSpends`: the map, and whether it is exact. -/
def getIdealSpends (nValueTarget : CAmount) (listMints : List CMintMeta) : DenomMap × Bool :=
  let s := zerocoinDenomList.reverse.foldl
    (fun s coin => (Loop.forEach (idealMint coin) s listMints).elim id id) ⟨.zero, nValueTarget⟩
  (s.mapUsed, s.nRemainingValue == 0)

/-- What the loops of `getSpends` have. -/
structure Spends where
  vSelectedMints : List CMintMeta
  nCoinsSpentValue : CAmount
  mapOfDenomsUsed : DenomMap

def spendMint (coin : CoinDenomination) (s : Spends) (mint : CMintMeta) : Spends :=
  if mint.isUsed then s
  else if coin = mint.denom ∧ s.mapOfDenomsUsed coin ≠ 0 then
    { vSelectedMints := s.vSelectedMints ++ [mint]
      nCoinsSpentValue := s.nCoinsSpentValue + coin.toAmount
      mapOfDenomsUsed := s.mapOfDenomsUsed.dec coin }
  else s

/-- `getSpends`: the mints, and their value. -/
def getSpends (fuel : Nat) (listMints : List CMintMeta) (mapOfDenomsUsed : DenomMap) :
    Option (List CMintMeta × CAmount) :=
  (zerocoinDenomList.reverse.foldlM (fun s coin =>
    doWhile (fun s => s.mapOfDenomsUsed coin != 0)
      (fun s => listMints.foldl (spendMint coin) s) fuel s) ⟨[], 0, mapOfDenomsUsed⟩).map
    fun s => (s.vSelectedMints, s.nCoinsSpentValue)

/-! ## Amounts above the target -/

/-- The coins used so far. -/
structure CoinsUsed where
  mapOfDenomsUsed : DenomMap
  nRemainingValue : CAmount
  AmountUsed : CAmount
  nCoinCount : Int

namespace CoinsUsed

def start (nValueTarget : CAmount) : CoinsUsed := ⟨.zero, nValueTarget, 0, 0⟩

def use (u : CoinsUsed) (denom : CoinDenomination) : CoinsUsed where
  mapOfDenomsUsed := u.mapOfDenomsUsed.inc denom
  nRemainingValue := u.nRemainingValue - denom.toAmount
  AmountUsed := u.AmountUsed + denom.toAmount
  nCoinCount := u.nCoinCount + 1

/-- A coin that leaves something of the amount. -/
def canUse (held : DenomMap) (denom : CoinDenomination) (u : CoinsUsed) : Bool :=
  decide (denom.toAmount < u.nRemainingValue) && decide (u.mapOfDenomsUsed denom < held denom)

/-- The way back up in `minimizeChange`: with a coin that is more than what remains it ends. -/
def fillUp (held : DenomMap) (u : CoinsUsed) (denom : CoinDenomination) : CoinsUsed ⊕ CoinsUsed :=
  let u := if u.nRemainingValue < denom.toAmount ∧ u.mapOfDenomsUsed denom < held denom then
      u.use denom
    else u
  if u.nRemainingValue < 0 then .inr u else .inl u

end CoinsUsed

/-- What the removal of the overlap has. -/
structure Overlap where
  mapOfDenomsUsed : DenomMap
  mapAltChange : DenomMap
  AmountUsed : CAmount

namespace Overlap

/-- A denomination is spent, and is in the change. -/
def both (denom : CoinDenomination) (o : Overlap) : Bool :=
  o.mapAltChange denom != 0 && o.mapOfDenomsUsed denom != 0

def remove (o : Overlap) (denom : CoinDenomination) : Overlap where
  mapOfDenomsUsed := o.mapOfDenomsUsed.dec denom
  mapAltChange := o.mapAltChange.dec denom
  AmountUsed := o.AmountUsed - denom.toAmount

end Overlap

/-- The first loop of `minimizeChange`: less than the target, with the higher coins first. -/
def usedBelow (fuel : Nat) (nextToMaxDenom : CoinDenomination) (nValueTarget : CAmount)
    (mapOfDenomsHeld : DenomMap) : Option CoinsUsed :=
  zerocoinDenomList.reverse.foldlM (fun u denom =>
    if denom.toInt ≤ nextToMaxDenom.toInt then
      doWhile (CoinsUsed.canUse mapOfDenomsHeld denom)
        (fun u => if CoinsUsed.canUse mapOfDenomsHeld denom u then u.use denom else u) fuel u
    else some u) (.start nValueTarget)

/-- The third one. -/
def removeOverlap (fuel : Nat) (o : Overlap) : Option Overlap :=
  zerocoinDenomList.foldlM (fun o denom =>
    doWhile (Overlap.both denom) (fun o => if Overlap.both denom o then o.remove denom else o) fuel
      o) o

/-- `minimizeChange`: the number of coins in the change, and the map. -/
def minimizeChange (fuel : Nat) (nMaxNumberOfSpends nChangeCount : Int)
    (nextToMaxDenom : CoinDenomination) (nValueTarget : CAmount)
    (mapOfDenomsHeld savedMapOfDenomsUsed : DenomMap) : Option (Int × DenomMap) := do
  let below ← usedBelow fuel nextToMaxDenom nValueTarget mapOfDenomsHeld
  let u := (Loop.forEach (CoinsUsed.fillUp mapOfDenomsHeld) below zerocoinDenomList).elim id id
  let mapAltChange ← getChange fuel (u.AmountUsed - nValueTarget)
  let o ← removeOverlap fuel ⟨u.mapOfDenomsUsed, mapAltChange, u.AmountUsed⟩
  -- Still possible to have wrong mix. So meet exact amount found above - with least number of coins
  let mapOfDenomsUsed ← getSpendCoins fuel o.AmountUsed mapOfDenomsHeld
  let mapAltChange ← getChange fuel (o.AmountUsed - nValueTarget)
  if getNumberOfCoinsUsed mapAltChange < nChangeCount ∧
      getNumberOfCoinsUsed mapOfDenomsUsed ≤ nMaxNumberOfSpends then
    some (getNumberOfCoinsUsed mapAltChange, mapOfDenomsUsed)
  else
    -- if we don't meet above go back to what we started with
    some (nChangeCount, savedMapOfDenomsUsed)

/-- Coins from the top on, until the amount is reached; at least one of each that is held. -/
def usedFromTop (fuel : Nat) (mapOfDenomsHeld : DenomMap) :
    List CoinDenomination → CoinsUsed → Option CoinsUsed
  | [], u => some u
  | denom :: denoms, u => do
      let u ← doWhile
        (fun u => decide (0 < u.nRemainingValue) &&
          decide (u.mapOfDenomsUsed denom < mapOfDenomsHeld denom))
        (fun u => if mapOfDenomsHeld denom ≠ 0 ∧ 0 < u.nRemainingValue then u.use denom else u)
        fuel u
      if u.nRemainingValue < 0 then some u else usedFromTop fuel mapOfDenomsHeld denoms u

/-- `calculateChange`: the number of coins in the change, and the map. -/
def calculateChange (fuel : Nat) (nMaxNumberOfSpends : Int) (fMinimizeChange : Bool)
    (nValueTarget : CAmount) (mapOfDenomsHeld : DenomMap) : Option (Int × DenomMap) :=
  match zerocoinDenomList.find? fun denom =>
    decide (nValueTarget < denom.toAmount) && mapOfDenomsHeld denom != 0 with
  | some minDenomOverTarget => do
      -- we have a solution using 1 coin
      let mapOfDenomsUsed := DenomMap.zero.inc minDenomOverTarget
      let mapChange ← getChange fuel (minDenomOverTarget.toAmount - nValueTarget)
      let nChangeCount := getNumberOfCoinsUsed mapChange
      if fMinimizeChange then
        let new ← minimizeChange fuel nMaxNumberOfSpends nChangeCount
          (getNextLowerDenomHeld minDenomOverTarget mapOfDenomsHeld) nValueTarget mapOfDenomsHeld
          mapOfDenomsUsed
        if new.1 < nChangeCount then some new else some (nChangeCount, mapOfDenomsUsed)
      else some (nChangeCount, mapOfDenomsUsed)
  | none => do
      -- Try to meet a different way
      let u ← usedFromTop fuel mapOfDenomsHeld zerocoinDenomList.reverse (.start nValueTarget)
      let mapChange ← getChange fuel (u.AmountUsed - nValueTarget)
      let nMaxChangeCount := getNumberOfCoinsUsed mapChange
      let new ← minimizeChange fuel nMaxNumberOfSpends nMaxChangeCount
        (getMaxDenomHeld mapOfDenomsHeld) nValueTarget mapOfDenomsHeld u.mapOfDenomsUsed
      if fMinimizeChange = false ∧ u.nCoinCount < getNumberOfCoinsUsed new.2 then
        some (nMaxChangeCount, u.mapOfDenomsUsed)
      else some new

/-- What `SelectMintsFromList` returns and sets. -/
structure MintSelection where
  vSelectedMints : List CMintMeta
  nSelectedValue : CAmount
  nCoinsReturned : Int
  nNeededSpends : Int

/-- `(size_t)n`, of an `int`. -/
def sizeOfMax (n : Int) : Int := if n < 0 then n + 2 ^ 64 else n

/-- The selection with change, where the exact one is none or too large. -/
def selectWithChange (fuel : Nat) (nValueTarget nSelectedValue : CAmount)
    (nMaxNumberOfSpends : Int) (fMinimizeChange : Bool) (listMints : List CMintMeta)
    (mapOfDenomsHeld : DenomMap) (nNeededSpends : Int) : Option MintSelection := do
  let change ← calculateChange fuel nMaxNumberOfSpends fMinimizeChange nValueTarget mapOfDenomsHeld
  if change.1 = 0 then some ⟨[], nSelectedValue, 0, nNeededSpends⟩
  else
    let spends ← getSpends fuel listMints change.2
    some ⟨spends.1, spends.2, change.1, nNeededSpends⟩

def SelectMintsFromList (fuel : Nat) (nValueTarget nSelectedValue : CAmount)
    (nMaxNumberOfSpends : Int) (fMinimizeChange : Bool) (listMints : List CMintMeta)
    (mapOfDenomsHeld : DenomMap) : Option MintSelection :=
  let ideal := getIdealSpends nValueTarget listMints
  if ideal.2 then do
    let spends ← getSpends fuel listMints ideal.1
    if (spends.1.length : Int) ≤ sizeOfMax nMaxNumberOfSpends then
      some ⟨spends.1, spends.2, 0, 0⟩
    else
      selectWithChange fuel nValueTarget spends.2 nMaxNumberOfSpends fMinimizeChange listMints
        mapOfDenomsHeld spends.1.length
  else
    selectWithChange fuel nValueTarget nSelectedValue nMaxNumberOfSpends fMinimizeChange listMints
      mapOfDenomsHeld 0

end Divitae
