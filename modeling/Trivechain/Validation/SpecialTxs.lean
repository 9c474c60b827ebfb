import Trivechain.Evo.UndoSpecialTxs
import Trivechain.Validation.UndoBlock

/-!
# Disconnecting a block with its special transactions

`ConnectBlock` processes the special transactions of a block after all checks of coins and values,
and `DisconnectBlock` takes them back before it touches the coins. The coins can always be restored;
the block is disconnected exactly when its special transactions can be taken back.
-/

namespace Trivechain.Validation
open Evo Llmq Coins Run

structure ChainState where
  view : CoinsTip
  /-- The best block of the evo database. -/
  bestBlock : Option Uint256
  evo : EvoNode

namespace ChainState

def verifyBestBlock (s : ChainState) (hash : Uint256) : Run Bool := do
  Run.ensure (s.bestBlock.getD 0 = if s.bestBlock.isSome then hash else 0)
  return s.bestBlock.isSome

section
variable [PropertyHash] [ChainHash] (env : Env)

/-- Returns the undo data of the block. -/
def connectBlock (blockEnv : BlockEnv) (view : ChainView)
    (checkCbTxMerkleRoots : EvoNode → Run Unit) (pindexPrev : BlockIndex) (block : Block)
    (s : ChainState) : Run (List (List Coin) × ChainState) := do
  let fHasBestBlock ← s.verifyBestBlock pindexPrev.getBlockHash
  denyIf (env.consensus.DIP0003Height ≤ pindexPrev.nHeight + 1 ∧ !fHasBestBlock) 0 .invalid
    "Found EvoDB inconsistency, you must reindex to continue"
  let st ← Validation.connectBlock blockEnv block s.view
  match s.evo.processSpecialTxsInBlock env view checkCbTxMerkleRoots pindexPrev block false with
  | (.error e, _) => .error e
  | (.ok (), evo) => .ok (st.vtxundo, ⟨st.view, some (pindexPrev.next block).getBlockHash, evo⟩)

/-- The undo data is what is read from the file, if it can be read. The flag tells whether the
result is `DISCONNECT_OK`. -/
def disconnectBlock [CommitmentHash] (pindex : BlockIndex) (blockUndo : Option (List (List Coin)))
    (s : ChainState) : Run (Bool × ChainState) := do
  let fHasBestBlock ← s.verifyBestBlock pindex.getBlockHash
  if env.consensus.DIP0003Height ≤ pindex.nHeight ∧ !fHasBestBlock then disconnectFailed
  else match blockUndo with
    | none => disconnectFailed
    | some vtxundo =>
      if vtxundo.length + 1 ≠ pindex.block.vtx.length then disconnectFailed
      else do
        let evo ← s.evo.undoSpecialTxsInBlock env pindex
        let st ← Validation.disconnectBlock pindex.nHeight pindex.block vtxundo s.view
        return (st.fClean, ⟨st.view, pindex.pprev.map BlockIndex.getBlockHash, evo⟩)

end

/-- Before the activation of special transactions there are no commitments to read. Later the list
of the block can be read again. -/
def Revertible [PropertyHash] [ChainHash] (env : Env) (view : ChainView) (evo : EvoNode)
    (pindexPrev : BlockIndex) (block : Block) : Prop :=
  if pindexPrev.nHeight + 1 < env.consensus.DIP0003Height then
    ∀ tx ∈ block.vtx, isQuorumCommitment tx = false
  else EvoNode.Rereadable env view.getUTXOCoin evo.manager.evoDb pindexPrev block

section
variable {env : Env} {block : Block} {nHeight : Nat}

open Std (ExtTreeMap)

lemma addCommitments_isEmpty (txs : List Transaction)
    (ret : ExtTreeMap LLMQType FinalCommitment) :
    (∃ qcs, txs.foldlM addCommitment ret = .ok qcs ∧ qcs.isEmpty) ↔
      ret.isEmpty ∧ ∀ tx ∈ txs, isQuorumCommitment tx = false := by
  induction txs generalizing ret with
  | nil => simp [Run.pure_eq]
  | cons tx txs ih =>
    rw [List.forall_mem_cons, List.foldlM_cons]
    cases hp : tx.payload with
    | quorumCommitment payload =>
      refine iff_of_false ?_ fun h => by simp [isQuorumCommitment, hp] at h
      rintro ⟨qcs, hq, he⟩
      obtain ⟨ret', ha, hq⟩ := bind_ok.1 hq
      have hn := ((ih _).1 ⟨qcs, hq, he⟩).1
      rw [addCommitment, hp] at ha
      obtain ⟨qc, -, ha⟩ := bind_ok.1 ha
      obtain ⟨_, -, ha⟩ := bind_ok.1 ha
      cases ha
      simp at hn
    | _ =>
      have ha : addCommitment ret tx = .ok ret := by rw [addCommitment, hp]
      have hq : isQuorumCommitment tx = false := by rw [isQuorumCommitment, hp]
      rw [ha, ok_bind, ih, and_iff_right hq]

/-- No block has commitments before the activation. -/
lemma getCommitmentsFromBlock_inactive (h : nHeight < env.consensus.DIP0003Height) :
    (∃ qcs, getCommitmentsFromBlock env block nHeight = .ok qcs) ↔
      ∀ tx ∈ block.vtx, isQuorumCommitment tx = false := by
  have hi := addCommitments_isEmpty block.vtx ∅
  rw [and_iff_right (by simp)] at hi
  rw [← hi]
  refine exists_congr fun qcs => ?_
  simp [getCommitmentsFromBlock, bind_ok, h]

end

section
variable [PropertyHash] [ChainHash] [CommitmentHash] {env : Env} {blockEnv : BlockEnv}
  {view : ChainView} {checkCbTxMerkleRoots : EvoNode → Run Unit} {pindexPrev : BlockIndex}
  {block : Block} {s s' : ChainState} {vtxundo : List (List Coin)}

omit [CommitmentHash] in
lemma connectBlock_ok
    (h : s.connectBlock env blockEnv view checkCbTxMerkleRoots pindexPrev block =
      .ok (vtxundo, s')) :
    ∃ st, Validation.connectBlock blockEnv block s.view = .ok st ∧ st.vtxundo = vtxundo ∧
      st.view = s'.view ∧ s'.bestBlock = some (pindexPrev.next block).getBlockHash ∧
      s.evo.processSpecialTxsInBlock env view checkCbTxMerkleRoots pindexPrev block false =
        (.ok (), s'.evo) := by
  obtain ⟨_, -, h⟩ := bind_ok.1 h
  obtain ⟨_, -, h⟩ := bind_ok.1 h
  obtain ⟨st, hst, h⟩ := bind_ok.1 h
  split at h
  · cases h
  · next evo he =>
    cases h
    exact ⟨st, hst, rfl, rfl, rfl, he⟩

variable (env) in
/-- With the coins of the block in order, only its special transactions matter. -/
lemma disconnectBlock_iff {st : DisconnectState}
    (hbest : s.bestBlock = some (pindexPrev.next block).getBlockHash)
    (hst : Validation.disconnectBlock (pindexPrev.nHeight + 1) block vtxundo s.view = .ok st) :
    (∃ s', s.disconnectBlock env (pindexPrev.next block) (some vtxundo) = .ok (st.fClean, s') ∧
      s'.view.coins = st.view.coins) ↔
      ∃ evo, s.evo.undoSpecialTxsInBlock env (pindexPrev.next block) = .ok evo := by
  have hl : ¬ (vtxundo.length + 1 ≠ block.vtx.length) := by
    intro hl
    rw [Validation.disconnectBlock, if_pos hl] at hst
    cases hst
  have hv : s.verifyBestBlock (pindexPrev.next block).getBlockHash = .ok true := by
    simp [verifyBestBlock, hbest, Run.ensure, Run.ok_bind, Run.pure_eq]
  rw [disconnectBlock, hv, ok_bind, if_neg (by simp)]
  rw [if_neg (by simpa using hl)]
  constructor
  · rintro ⟨s', h, -⟩
    obtain ⟨evo, he, -⟩ := bind_ok.1 h
    exact ⟨evo, he⟩
  · rintro ⟨evo, he⟩
    refine ⟨⟨st.view, some pindexPrev.getBlockHash, evo⟩, ?_, rfl⟩
    exact bind_ok.2 ⟨evo, he, bind_ok.2 ⟨st, hst, rfl⟩⟩

/-- A block that was connected is disconnected, cleanly and with all coins as before, exactly when
its special transactions can be taken back. -/
theorem disconnects_iff_revertible {evo : EvoNode} {bestBlock : Option Uint256} (utxo : UtxoView)
    (hheights : ∀ o coin, utxo.tip.coins o = some coin → 0 < coin.nHeight)
    (hevo : EvoNode.Reached env pindexPrev evo) (hheight : blockEnv.nHeight = pindexPrev.nHeight + 1)
    (hok : connectBlock env blockEnv view checkCbTxMerkleRoots pindexPrev block
      ⟨utxo.tip, bestBlock, evo⟩ = .ok (vtxundo, s')) :
    (∃ s'', s'.disconnectBlock env (pindexPrev.next block) (some vtxundo) = .ok (true, s'') ∧
      s''.view.coins = utxo.tip.coins) ↔ Revertible env view evo pindexPrev block := by
  obtain ⟨st, hst, rfl, hview, hbest, hprocess⟩ := connectBlock_ok hok
  obtain ⟨st', hst', hclean, hcoins⟩ := disconnectBlock_of_connectBlock blockEnv block utxo
    hheights hst
  rw [hheight, hview] at hst'
  have hundo := disconnectBlock_iff env hbest hst'
  rw [hclean, hcoins] at hundo
  have hcoherent := EvoNode.coherent_of_reached hevo
  rw [hundo, Revertible]
  split_ifs with hactive
  · rw [hcoherent.undo_inactive_iff hprocess hactive]
    exact getCommitmentsFromBlock_inactive hactive
  · rw [(hcoherent.undo_iff hprocess (not_lt.1 hactive)).1]
    simp

end
end ChainState

namespace ReplacedCollateral
open Evo.TwoUpdates (env block0)
open Evo.UndoneRegistrations (registerExternal)
open Std (ExtTreeMap)

def coinbase : Transaction := ⟨2, .normal, [.null], [⟨50, .pubKeyHash 3⟩], 0⟩

/-- Both registrations have the collateral `⟨90, 0⟩`. The second spends the output of the first. -/
def first : Transaction :=
  { registerExternal 0 with vin := [⟨9, 0⟩], vout := [⟨60, .pubKeyHash 7⟩] }
def second : Transaction :=
  { registerExternal 1 with vin := [⟨2, 0⟩], vout := [⟨20, .pubKeyHash 7⟩] }

def idleBlock : Block := ⟨[coinbase], 0⟩
def lastingBlock : Block := ⟨[coinbase, first], 0⟩
def replacingBlock : Block := ⟨[coinbase, first, second], 0⟩

def block1 : BlockIndex := block0.next idleBlock

local instance : PropertyHash := encodingHash
local instance : CommitmentHash := ⟨fun _ => 0⟩
local instance : ChainHash := tableHash [coinbase, first, second]
  [block0, block1, block1.next lastingBlock, block1.next replacingBlock]

def coinMap : ExtTreeMap OutPoint Coin :=
  ((∅ : ExtTreeMap OutPoint Coin).insert ⟨9, 0⟩ ⟨⟨100, .pubKeyHash 1⟩, false, 1⟩).insert ⟨90, 0⟩
    ⟨⟨collateralAmount, .pubKeyHash 60⟩, false, 1⟩

lemma coin_of_coinMap {o : OutPoint} {coin : Coin} (h : coinMap[o]? = some coin) :
    coin.isSpent = false ∧ coin.out.scriptPubKey.isUnspendable = false ∧ 0 < coin.nHeight := by
  rw [coinMap, Maps.getElem?_insert, Maps.getElem?_insert] at h
  split_ifs at h
  · cases h
    decide
  · cases h
    decide
  · simp at h

def coins : CoinsViewDB where
  coins := coinMap
  unspent _ _ h := (coin_of_coinMap h).1

def utxo : UtxoView where
  tip := { base := .db coins }
  wellFlagged := CoinsView.wellFlagged_stack coins 1
  spendable _ _ h := (coin_of_coinMap h).2.1

def view : ChainView where
  getUTXOCoin o := (coinMap[o]?).map Coin.out
  findBlock _ := none
  getListForBlock pindex := { blockHash := pindex.getBlockHash }
  dip0008Active _ := false

def idle : Run Unit × EvoNode :=
  EvoNode.processSpecialTxsInBlock env view (fun _ => .ok ()) block0 idleBlock false {}

def node : EvoNode := idle.2

lemma reached_node : EvoNode.Reached env block1 node := by
  have ho : idle.1 = .ok () := by decide +kernel
  exact .connect view (fun hash pindex h => by simp [view] at h) (fun _ => .ok ()) idleBlock
    (.start block0 (by decide)) (Prod.ext ho rfl)

def blockEnv : BlockEnv := { Sample.env with nHeight := 2, nHeight_pos := by decide }

def connect (block : Block) : Run (List (List Coin) × ChainState) :=
  ChainState.connectBlock env blockEnv view (fun _ => .ok ()) block1 block
    ⟨utxo.tip, some block1.getBlockHash, node⟩

/-- The second registration replaces the first, and the list of the block cannot be read again. -/
theorem replacing_block_not_disconnected : EvoNode.Reached env block1 node ∧
    ∃ vtxundo s', connect replacingBlock = .ok (vtxundo, s') ∧
      s'.disconnectBlock env (block1.next replacingBlock) (some vtxundo) =
        .error (.fault .assertion) := by
  refine ⟨reached_node, ?_⟩
  obtain ⟨⟨vtxundo, s'⟩, hc, hd⟩ := Run.exists_of_map_toOption (b := true)
    (f := fun r : List (List Coin) × ChainState => decide (r.2.disconnectBlock env
      (block1.next replacingBlock) (some r.1) = .error (.fault .assertion)))
    (show (connect replacingBlock).toOption.map _ = _ by decide +kernel)
  exact ⟨vtxundo, s', hc, of_decide_eq_true hd⟩

theorem lasting_block_disconnected : ∃ vtxundo s' s'', connect lastingBlock = .ok (vtxundo, s') ∧
    s'.disconnectBlock env (block1.next lastingBlock) (some vtxundo) = .ok (true, s'') ∧
      s''.view.coins = utxo.tip.coins := by
  obtain ⟨⟨vtxundo, s'⟩, hc, -⟩ := Run.exists_of_map_toOption (b := 1) (f := fun r => r.1.length)
    (show (connect lastingBlock).toOption.map _ = _ by decide +kernel)
  have hr : ChainState.Revertible env view node block1 lastingBlock := by
    rw [ChainState.Revertible, if_neg (by decide)]
    exact EvoNode.rereadable_of_applied (by decide +kernel)
  obtain ⟨s'', hd⟩ := (ChainState.disconnects_iff_revertible utxo
    (fun o coin h => (coin_of_coinMap h).2.2) reached_node rfl hc).2 hr
  exact ⟨vtxundo, s', s'', hc, hd⟩

end ReplacedCollateral
end Trivechain.Validation
