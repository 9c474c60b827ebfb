import Trivechain.Evo.SpecialTx
import Mathlib.Data.BitVec

/-!
# Mempool entries

An entry caches, next to its transaction, the number, size and fees of the transactions in the pool
that it descends from and that descend from it. The functions that adjust these caches assert that
what they leave is positive. Fees are counted in 64 bits: any number of that size can be added to the
fee of a transaction, and nothing checks the sums.
-/

namespace Trivechain.Mempool
open Evo

/-- An amount as the statistics count it, in two's complement. -/
abbrev Amount64 := BitVec 64

structure TxMemPoolEntry where
  tx : Transaction
  nFee : Amount
  nTxSize : Nat
  nTime : Int
  sigOpCount : Nat
  feeDelta : Amount64
  nCountWithDescendants : Int
  nSizeWithDescendants : Int
  nModFeesWithDescendants : Amount64
  nCountWithAncestors : Int
  nSizeWithAncestors : Int
  nModFeesWithAncestors : Amount64
  nSigOpCountWithAncestors : Int
  validForProTxKey : Uint256 := 0
  isKeyChangeProTx : Bool := false
  /-- No transaction is serialised to nothing. -/
  size_pos : 0 < nTxSize
deriving DecidableEq

namespace TxMemPoolEntry

def new (tx : Transaction) (nFee : Amount) (nTime : Int) (sigOps : Nat)
    (nTxSize : { n : Nat // 0 < n }) : TxMemPoolEntry where
  tx
  nFee
  nTxSize := nTxSize
  nTime
  sigOpCount := sigOps
  feeDelta := 0
  nCountWithDescendants := 1
  nSizeWithDescendants := nTxSize.1
  nModFeesWithDescendants := .ofInt 64 nFee
  nCountWithAncestors := 1
  nSizeWithAncestors := nTxSize.1
  nModFeesWithAncestors := .ofInt 64 nFee
  nSigOpCountWithAncestors := sigOps
  size_pos := nTxSize.2

variable (e : TxMemPoolEntry)

def getModifiedFee : Amount64 := .ofInt 64 e.nFee + e.feeDelta

def updateFeeDelta (newFeeDelta : Amount64) : TxMemPoolEntry :=
  { e with
    nModFeesWithDescendants := e.nModFeesWithDescendants + (newFeeDelta - e.feeDelta)
    nModFeesWithAncestors := e.nModFeesWithAncestors + (newFeeDelta - e.feeDelta)
    feeDelta := newFeeDelta }

def updateDescendantState (modifySize : Int) (modifyFee : Amount64) (modifyCount : Int) :
    Run TxMemPoolEntry := do
  Run.ensure (0 < e.nSizeWithDescendants + modifySize)
  Run.ensure (0 < e.nCountWithDescendants + modifyCount)
  return { e with
    nSizeWithDescendants := e.nSizeWithDescendants + modifySize
    nModFeesWithDescendants := e.nModFeesWithDescendants + modifyFee
    nCountWithDescendants := e.nCountWithDescendants + modifyCount }

def updateAncestorState (modifySize : Int) (modifyFee : Amount64) (modifyCount : Int)
    (modifySigOps : Int) : Run TxMemPoolEntry := do
  Run.ensure (0 < e.nSizeWithAncestors + modifySize)
  Run.ensure (0 < e.nCountWithAncestors + modifyCount)
  Run.ensure (0 ≤ e.nSigOpCountWithAncestors + modifySigOps)
  return { e with
    nSizeWithAncestors := e.nSizeWithAncestors + modifySize
    nModFeesWithAncestors := e.nModFeesWithAncestors + modifyFee
    nCountWithAncestors := e.nCountWithAncestors + modifyCount
    nSigOpCountWithAncestors := e.nSigOpCountWithAncestors + modifySigOps }

end TxMemPoolEntry
end Trivechain.Mempool
