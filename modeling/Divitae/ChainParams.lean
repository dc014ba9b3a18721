/-
# `ChainParams` — the constants of a network

`chainparams.cpp` builds `CMainParams`, then overrides some fields for
`CTestNetParams` and some of those for `CRegTestParams`; the three values below are
written the same way, each from the one before.  Only the fields the model reads
are here.  Times are seconds, amounts are in units of 1/COIN.
-/
import Mathlib.Data.Int.Basic

namespace Divitae

/-- `amount.h`: a signed 64-bit count of base units. -/
abbrev CAmount := Int

def COIN : CAmount := 100000000
def CENT : CAmount := 1000000

/-- `CBaseChainParams::Network`. -/
inductive Network where
  | MAIN
  | TESTNET
  | REGTEST
  deriving DecidableEq, Repr

structure CChainParams where
  networkID : Network
  nMaturity : Int
  nMaxMoneyOut : CAmount
  nLastPOWBlock : Int
  nModifierUpdateBlock : Int
  nZerocoinStartHeight : Int
  nZerocoinStartTime : Int
  nBlockEnforceSerialRange : Int
  nBlockRecalculateAccumulators : Int
  nBlockFirstFraudulent : Int
  nBlockLastGoodCheckpoint : Int
  nBlockEnforceInvalidUTXO : Int
  nBlockZerocoinV2 : Int
  nEnforceNewSporkKey : Int
  nRejectOldSporkKey : Int
  /-- `ParseHex(strSporkKey)` -/
  sporkKey : List UInt8
  /-- `ParseHex(strSporkKeyOld)` -/
  sporkKeyOld : List UInt8
  nMaxZerocoinSpendsPerTransaction : Nat
  nZerocoinHeaderVersion : Int
  nZerocoinRequiredStakeDepth : Int

namespace CChainParams

/-- `Params().NewSporkStart()`. -/
def NewSporkStart (P : CChainParams) : Int := P.nEnforceNewSporkKey

/-- `Params().RejectOldSporkKey()`. -/
def RejectOldSporkKey (P : CChainParams) : Int := P.nRejectOldSporkKey

end CChainParams

/-- `CMainParams`. -/
def mainParams : CChainParams where
  networkID := .MAIN
  nMaturity := 8
  nMaxMoneyOut := 100000000 * COIN
  nLastPOWBlock := 200
  nModifierUpdateBlock := 615800
  nZerocoinStartHeight := 209467
  nZerocoinStartTime := 1615212209
  nBlockEnforceSerialRange := 895400
  nBlockRecalculateAccumulators := 908000
  nBlockFirstFraudulent := 891737
  nBlockLastGoodCheckpoint := 891730
  nBlockEnforceInvalidUTXO := 902850
  nBlockZerocoinV2 := 999999999
  nEnforceNewSporkKey := 1596240000
  nRejectOldSporkKey := 1604188800
  sporkKey :=
    [0x04, 0x2c, 0x12, 0x57, 0xf8, 0xe1, 0x48, 0x67, 0x5c, 0xdb, 0x62, 0xb8, 0x6a,
      0x9a, 0x86, 0x62, 0x5c, 0x00, 0xa2, 0x33, 0x09, 0x57, 0xd7, 0xd2, 0xb6, 0xa1,
      0xd9, 0xb6, 0x85, 0xc7, 0xe0, 0x70, 0x50, 0x14, 0xdf, 0xb7, 0x0b, 0xf6, 0x35,
      0x8c, 0x27, 0x2d, 0xa0, 0x25, 0x84, 0x81, 0x90, 0x2a, 0x81, 0x31, 0x97, 0xa6,
      0xbd, 0xdf, 0xdd, 0xf8, 0x6f, 0x46, 0xc4, 0x8b, 0x4f, 0x37, 0xde, 0x97, 0x32]
  sporkKeyOld :=
    [0x04, 0xfd, 0x23, 0x75, 0x65, 0x3a, 0x30, 0x64, 0x62, 0x3b, 0x8a, 0x9e, 0x17,
      0x9c, 0x34, 0xa4, 0xff, 0xa9, 0xee, 0x9a, 0xfb, 0xc1, 0x3e, 0x22, 0x18, 0xb3,
      0x7f, 0x5f, 0xa6, 0xcb, 0xe2, 0xf9, 0x4e, 0xf8, 0x74, 0xa2, 0x16, 0xcb, 0xfd,
      0xdb, 0xcb, 0xf0, 0x6b, 0x59, 0x51, 0xa9, 0x01, 0x1d, 0x65, 0xda, 0xe9, 0x88,
      0xfb, 0x44, 0x69, 0xfa, 0xbc, 0xfa, 0x29, 0xb9, 0xc8, 0xda, 0xf2, 0x3c, 0x7e]
  nMaxZerocoinSpendsPerTransaction := 7
  nZerocoinHeaderVersion := 5
  nZerocoinRequiredStakeDepth := 200

/-- `CTestNetParams`. -/
def testNetParams : CChainParams :=
  { mainParams with
    networkID := .TESTNET
    nMaturity := 15
    nMaxMoneyOut := 43199500 * COIN
    nLastPOWBlock := 200
    nModifierUpdateBlock := 51197
    nZerocoinStartHeight := 201576
    nZerocoinStartTime := 2004318070 -- disabled
    nBlockEnforceSerialRange := 1
    nBlockRecalculateAccumulators := 9908000
    nBlockFirstFraudulent := 9891737
    nBlockLastGoodCheckpoint := 9891730
    nBlockEnforceInvalidUTXO := 9902850
    nBlockZerocoinV2 := 999999999
    nEnforceNewSporkKey := 1596240000
    nRejectOldSporkKey := 1601510400
    sporkKey :=
      [0x04, 0x16, 0xa9, 0x99, 0xf6, 0x3f, 0x7f, 0x20, 0xd7, 0x6e, 0x5f, 0x2d, 0x75,
        0xd2, 0x39, 0x87, 0x90, 0x2a, 0xeb, 0x37, 0x2c, 0x44, 0xce, 0x27, 0x5e, 0x5f,
        0x6c, 0x07, 0xb9, 0x91, 0x55, 0xa6, 0x66, 0xef, 0x9c, 0x96, 0xa6, 0xd5, 0xcc,
        0x82, 0x32, 0xfd, 0x4e, 0xeb, 0x65, 0x46, 0xca, 0xa2, 0xb3, 0x5b, 0x4b, 0x7f,
        0x33, 0x6d, 0xae, 0xdb, 0xb3, 0x37, 0xb5, 0x53, 0x92, 0xec, 0xf6, 0x97, 0x44]
    sporkKeyOld :=
      [0x04, 0xce, 0xf2, 0xce, 0xaf, 0xa8, 0x24, 0xfa, 0x3e, 0x57, 0x77, 0x98, 0x9e,
        0x03, 0x2c, 0xf4, 0xd4, 0x8a, 0xb3, 0xb5, 0xcc, 0xb8, 0x38, 0x97, 0xc7, 0x89,
        0x2d, 0xd9, 0xfd, 0x72, 0xe6, 0x96, 0x76, 0x35, 0x5e, 0x18, 0x08, 0x2e, 0x79,
        0x5b, 0x67, 0xd0, 0x51, 0xb4, 0x87, 0xc6, 0x85, 0x21, 0x05, 0xdb, 0x03, 0x16,
        0x0e, 0x54, 0x7e, 0xeb, 0x81, 0xb2, 0x0a, 0x60, 0x85, 0x60, 0x97, 0x4c, 0xb9]
    nZerocoinHeaderVersion := 5 }

/-- `CRegTestParams` overrides no field of the model but the network itself. -/
def regTestParams : CChainParams := { testNetParams with networkID := .REGTEST }

end Divitae
