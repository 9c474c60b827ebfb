import Trivechain.Coins.Tip
import Trivechain.Validation.AddressIndex
import Trivechain.Validation.BlockValue

/-!
# Connecting and disconnecting blocks

`ConnectBlock` applies the transactions of a block to the coins, one after the other, and keeps the
spent coins as undo data. `DisconnectBlock` goes in reverse: it spends the outputs of each
transaction and restores the coins that it had spent.

Checks that read neither coins nor values are collected in `BlockEnv` by the place where they are
made. This is the part of both functions that is about coins; special transactions come after the
last check of values, and before the first transaction is taken back.
-/

namespace Trivechain.Validation
open Evo Coins Run

def COINBASE_MATURITY : Int := 100

structure BlockEnv where
  nHeight : Nat
  /-- Not the genesis block. -/
  nHeight_pos : 0 < nHeight
  /-- Bits of the block below. -/
  nPrevBits : Int
  /-- Sizes and scripts of a transaction, in `CheckTransaction`. -/
  checkTransactionRest : Transaction → Option Reject := fun _ => none
  /-- Header, merkle root and sizes in `CheckBlock`; chain locks; the start of superblocks. -/
  checkBlockRest : Option Reject := none
  /-- Signature operations, sequence locks and scripts. -/
  checkInputsRest : Nat → Transaction → List Coin → Option Reject := fun _ _ _ => none
  /-- Transaction locks and payees. -/
  checkPaymentsRest : Amount → Option Reject := fun _ => none
  params : ValueParams
  value : ValueContext

def refuse : Option Reject → Run Unit
  | none => .ok ()
  | some r => .error (.rejected r)

lemma forM_ok {α : Type} {f : α → Run Unit} {l : List α} (h : l.forM f = .ok ()) :
    ∀ a ∈ l, f a = .ok () := by
  induction l with
  | nil => exact fun a ha => absurd ha List.not_mem_nil
  | cons b l ih =>
    have h : (f b >>= fun _ => l.forM f) = .ok () := h
    obtain ⟨_, hb, h⟩ := Run.bind_ok.1 h
    exact List.forall_mem_cons.2 ⟨hb, ih h⟩

def burntInputs : List OutPoint :=
  [⟨0x248fd4a153c47f091a127855508d20c889da72ce6ac6ac2e84bc907fd15b7678, 0⟩,
    ⟨0x0919f1bcdc1def894e889409e9d986615687a90bdfc465becb4b6eb735938abe, 1⟩,
    ⟨0xa3ae0e5a7471234a2aec16f9de2bc9519a7d95b68f463345f4e9ccb9c64e591c, 0⟩,
    ⟨0xa211bccf4c8a0b15efbd564b74b5f1cab4bdd122311a7d2cbd7bc880d2617bf5, 1⟩,
    ⟨0xdd8a3db292db3c5b052e701f4847826ca32315cd7758c1046f085f8b1044d18e, 1⟩,
    ⟨0x4ed3ef0df77f145734b2e02c0f8f531b0202da65954ca95a80cadae79a198296, 1⟩,
    ⟨0x8ddd05a709cc6d78250280c9fe1f306920161352700f829894044bf4acdd5e83, 0⟩,
    ⟨0x646f7f0b1d6a2607a19b6000e0584da1e4970583c81ad9634ce245900d073daa, 1⟩,
    ⟨0xe219be3d8106bdd156d5309000e875b4ec0ffd965a41b91ff94daa67e41e1a20, 1⟩,
    ⟨0x0436065b8fe9cf9e2e9f25c74030ff7393a524e1c51b2da976a55988cb2c917f, 1⟩,
    ⟨0x721bb6e6feeac78116d4be05533ca0efc3d6808c9325572a03f1dd045a34a59b, 0⟩]

def isQuorumCommitment (tx : Transaction) : Bool :=
  match tx.payload with
  | .quorumCommitment _ => true
  | _ => false

def checkValueOut (nValueOut : Amount) (out : TxOut) : Run Amount := do
  denyIf (out.nValue < 0) 100 .invalid "bad-txns-vout-negative"
  denyIf (out.nValue > MAX_MONEY) 100 .invalid "bad-txns-vout-toolarge"
  denyIf (¬ MoneyRange (nValueOut + out.nValue)) 100 .invalid "bad-txns-txouttotal-toolarge"
  .ok (nValueOut + out.nValue)

def checkTransaction (env : BlockEnv) (tx : Transaction) : Run Unit := do
  denyIf (!isQuorumCommitment tx && tx.vin.isEmpty) 10 .invalid "bad-txns-vin-empty"
  denyIf (!isQuorumCommitment tx && tx.vout.isEmpty) 10 .invalid "bad-txns-vout-empty"
  refuse (env.checkTransactionRest tx)
  let _ ← tx.vout.foldlM checkValueOut 0
  denyIf (¬ tx.vin.Nodup) 100 .invalid "bad-txns-inputs-duplicate"
  denyIf (tx.vin.any fun o => o ∈ burntInputs) 100 .invalid "bad-txns-input-burnt"
  denyIf (!tx.isCoinBase && tx.vin.any fun o => o = .null) 10 .invalid "bad-txns-prevout-null"

def checkBlock (env : BlockEnv) (block : Block) : Run Unit := do
  refuse env.checkBlockRest
  denyIf (!(block.vtx.head?.any Transaction.isCoinBase)) 100 .invalid "bad-cb-missing"
  denyIf (block.vtx.tail.any Transaction.isCoinBase) 100 .invalid "bad-cb-multiple"
  block.vtx.forM (checkTransaction env)

def haveInputs : List OutPoint → CoinsTip → Bool × CoinsTip
  | [], view => (true, view)
  | o :: vin, view =>
    match view.haveCoin o with
    | (false, view) => (false, view)
    | (true, view) => haveInputs vin view

def accessCoins : List OutPoint → CoinsTip → List Coin × CoinsTip
  | [], view => ([], view)
  | o :: vin, view =>
    let (coin, view) := view.accessCoin o
    let (coins, view) := accessCoins vin view
    (coin :: coins, view)

def checkCoin (nSpendHeight : Int) (nValueIn : Amount) (coin : Coin) : Run Amount := do
  denyIf (coin.fCoinBase ∧ nSpendHeight ≥ 450000 ∧
    nSpendHeight - coin.nHeight < COINBASE_MATURITY) 0 .invalid
    "bad-txns-premature-spend-of-coinbase"
  denyIf (coin.fCoinBase ∧ nSpendHeight - coin.nHeight < 5) 0 .invalid
    "bad-txns-premature-spend-of-coinbase"
  denyIf (¬ (MoneyRange coin.out.nValue ∧ MoneyRange (nValueIn + coin.out.nValue))) 100 .invalid
    "bad-txns-inputvalues-outofrange"
  .ok (nValueIn + coin.out.nValue)

def checkTxInputs (nSpendHeight : Int) (coins : List Coin) (nValueOut : Amount) : Run Unit := do
  let nValueIn ← coins.foldlM (checkCoin nSpendHeight) 0
  denyIf (nValueIn < nValueOut) 100 .invalid "bad-txns-in-belowout"
  denyIf (nValueIn - nValueOut < 0) 100 .invalid "bad-txns-fee-negative"
  denyIf (¬ MoneyRange (nValueIn - nValueOut)) 100 .invalid "bad-txns-fee-outofrange"

section Connect
variable [ChainHash]

def outputCoins (nHeight : Nat) (tx : Transaction) : List (OutPoint × Coin) :=
  tx.vout.zipIdx.map fun e => (⟨tx.getHash, e.2⟩, ⟨e.1, tx.isCoinBase, nHeight⟩)

def spendInputs : List OutPoint → CoinsTip → Run (List Coin × CoinsTip)
  | [], view => .ok ([], view)
  | o :: vin, view =>
    match view.spendCoin o with
    | (none, _) => .error (.fault .assertion)
    | (some coin, view) => do
      let (coins, view) ← spendInputs vin view
      .ok (coin :: coins, view)

def addCoins (nHeight : Nat) (tx : Transaction) (view : CoinsTip) : Run CoinsTip :=
  (outputCoins nHeight tx).foldlM (fun view e => view.addCoin e.1 e.2 tx.isCoinBase) view

def updateCoins (nHeight : Nat) (tx : Transaction) (view : CoinsTip) :
    Run (List Coin × CoinsTip) := do
  let (undo, view) ← spendInputs (if tx.isCoinBase then [] else tx.vin) view
  let view ← addCoins nHeight tx view
  .ok (undo, view)

structure ConnectState where
  view : CoinsTip
  vtxundo : List (List Coin) := []
  nFees : Amount := 0
  batches : IndexBatches := {}

def connectInputs (env : BlockEnv) (i : Nat) (tx : Transaction) (st : ConnectState) :
    Run ConnectState :=
  if tx.isCoinBase then .ok st
  else match haveInputs tx.vin st.view with
    | (false, _) => dos 100 .invalid "bad-txns-inputs-missingorspent"
    | (true, view) => do
      let (coins, view) := accessCoins tx.vin view
      let nValueOut ← getValueOut tx
      checkTxInputs env.nHeight coins nValueOut
      refuse (env.checkInputsRest i tx coins)
      .ok { st with
        view
        nFees := st.nFees + ((coins.map fun coin => coin.out.nValue).sum - nValueOut)
        batches := ((tx.vin.zip coins).zipIdx).foldl
          (fun b e => b.addSpend env.nHeight i tx.getHash e.2 e.1.1 e.1.2) st.batches }

def connectTx (env : BlockEnv) (st : ConnectState) (e : Transaction × Nat) : Run ConnectState := do
  let st ← connectInputs env e.2 e.1 st
  let batches := e.1.vout.zipIdx.foldl
    (fun b o => b.addOutput env.nHeight e.2 e.1.getHash o.2 o.1) st.batches
  let (undo, view) ← updateCoins env.nHeight e.1 st.view
  -- the undo data of the coinbase is dropped
  .ok { st with view, batches, vtxundo := if e.2 = 0 then st.vtxundo else st.vtxundo ++ [undo] }

/-- BIP30: no output of the block may exist. -/
def checkBip30 : List OutPoint → CoinsTip → Run CoinsTip
  | [], view => .ok view
  | o :: os, view =>
    match view.haveCoin o with
    | (true, _) => dos 100 .invalid "bad-txns-BIP30"
    | (false, view) => checkBip30 os view

def blockOutputs (vtx : List Transaction) : List OutPoint :=
  (vtx.map fun tx => (List.range tx.vout.length).map fun o => ⟨tx.getHash, o⟩).flatten

def checkValue (env : BlockEnv) (block : Block) (nFees : Amount) : Run Unit := do
  let tx ← demand .undefined block.vtx.head?
  let nBlockValue ← getValueOut tx
  let blockReward := nFees + env.params.getBlockSubsidy env.nPrevBits (env.nHeight - 1) false
  match isBlockValueValid env.params env.value tx nBlockValue env.nHeight blockReward with
  | .error _ => dos 0 .invalid "bad-cb-amount"
  | .ok () => refuse (env.checkPaymentsRest blockReward)

def connectBlock (env : BlockEnv) (block : Block) (view : CoinsTip) : Run ConnectState := do
  checkBlock env block
  let view ← checkBip30 (blockOutputs block.vtx) view
  let st ← block.vtx.zipIdx.foldlM (connectTx env) { view }
  checkValue env block st.nFees
  .ok st

def MAX_OUTPUTS_PER_BLOCK : Nat := 2000000 / 9

/-- The first unspent output of a transaction, from an index on. -/
def accessByTxid (txid : Uint256) : Nat → Nat → CoinsTip → Option Coin × CoinsTip
  | 0, _, view => (none, view)
  | fuel + 1, n, view =>
    let (coin, view) := view.accessCoin ⟨txid, n⟩
    if coin.isSpent then accessByTxid txid fuel (n + 1) view else (some coin, view)

structure DisconnectState where
  view : CoinsTip
  fClean : Bool := true
  batches : IndexBatches := {}

/-- `DISCONNECT_FAILED` is a refusal. -/
def disconnectFailed {α : Type} : Run α := dos 0 .invalid "DISCONNECT_FAILED"

/-- The coin with the data of another output where its own is missing. -/
def completeUndo (undo : Coin) (view : CoinsTip) (o : OutPoint) : Run (Coin × CoinsTip) :=
  if undo.nHeight ≠ 0 then .ok (undo, view)
  else match accessByTxid o.hash MAX_OUTPUTS_PER_BLOCK 0 view with
    | (none, _) => disconnectFailed
    | (some alternate, view) =>
      .ok ({ undo with nHeight := alternate.nHeight, fCoinBase := alternate.fCoinBase }, view)

/-- The flag tells whether there was no coin. -/
def applyTxInUndo (undo : Coin) (view : CoinsTip) (o : OutPoint) : Run (Bool × CoinsTip) := do
  let (have_, view) := view.haveCoin o
  let (undo, view) ← completeUndo undo view o
  let view ← view.addCoin o undo undo.fCoinBase
  .ok (!have_, view)

def disconnectOutput (st : DisconnectState) (e : OutPoint × Coin) : DisconnectState :=
  if e.2.out.scriptPubKey.isUnspendable then st
  else
    let (r, view) := st.view.spendCoin e.1
    { st with view, fClean := st.fClean && r = some e.2 }

def disconnectInput (nHeight i : Nat) (txhash : Uint256) (st : DisconnectState)
    (e : (OutPoint × Coin) × Nat) : Run DisconnectState := do
  let (clean, view) ← applyTxInUndo e.1.2 st.view e.1.1
  let (coin, view) := view.accessCoin e.1.1
  .ok { st with
    view
    fClean := st.fClean && clean
    batches := st.batches.undoSpend nHeight i txhash e.2 e.1.1 e.1.2.nHeight coin.out }

def disconnectInputs (nHeight : Nat) (tx : Transaction) (undo : List Coin) (i : Nat)
    (st : DisconnectState) : Run DisconnectState :=
  if i = 0 then .ok st
  else if undo.length ≠ tx.vin.length then disconnectFailed
  else ((tx.vin.zip undo).zipIdx.reverse).foldlM (disconnectInput nHeight i tx.getHash) st

def disconnectTx (nHeight : Nat) (st : DisconnectState) (e : (Transaction × List Coin) × Nat) :
    Run DisconnectState :=
  let (tx, undo) := e.1
  let batches := tx.vout.zipIdx.reverse.foldl
    (fun b o => b.undoOutput nHeight e.2 tx.getHash o.2 o.1) st.batches
  let st := (outputCoins nHeight tx).foldl disconnectOutput { st with batches }
  disconnectInputs nHeight tx undo e.2 st

def disconnectBlock (nHeight : Nat) (block : Block) (vtxundo : List (List Coin))
    (view : CoinsTip) : Run DisconnectState :=
  if vtxundo.length + 1 ≠ block.vtx.length then disconnectFailed
  else ((block.vtx.zip ([] :: vtxundo)).zipIdx.reverse).foldlM (disconnectTx nHeight) { view }

end Connect
end Trivechain.Validation
