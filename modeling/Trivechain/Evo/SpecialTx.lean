import Trivechain.Llmq.Commitment

/-!
# Special transactions, blocks and the block index

The constructor of a payload is the type of its transaction, and its argument what `GetTxPayload`
returns: `none` when the bytes do not decode.

An entry of the block index is a block with the blocks below it, so its parent and ancestors are
part of it.
-/

namespace Trivechain.Evo
open Bls Llmq List

structure ProRegTx where
  nVersion : Nat := 1
  nType : Nat := 0
  nMode : Nat := 0
  collateralOutpoint : OutPoint
  addr : Service
  keyIDOwner : KeyID
  pubKeyOperator : Option PubKey
  keyIDVoting : KeyID
  nOperatorReward : Nat := 0
  scriptPayout : Script
  inputsHash : Uint256
  vchSig : VchSig := []
deriving DecidableEq

structure ProUpServTx where
  nVersion : Nat := 1
  proTxHash : Uint256
  addr : Service
  scriptOperatorPayout : Script := .empty
  inputsHash : Uint256
  sig : Option Sig
deriving DecidableEq

structure ProUpRegTx where
  nVersion : Nat := 1
  proTxHash : Uint256
  nMode : Nat := 0
  pubKeyOperator : Option PubKey
  keyIDVoting : KeyID
  scriptPayout : Script
  inputsHash : Uint256
  vchSig : VchSig := []
deriving DecidableEq

structure ProUpRevTx where
  nVersion : Nat := 1
  proTxHash : Uint256
  nReason : Nat := 0
  inputsHash : Uint256
  sig : Option Sig
deriving DecidableEq

/-- `CCbTx`, without the Merkle roots that are checked after the block is processed. -/
structure CbTx where
  nVersion : Nat
  nHeight : Nat
deriving DecidableEq

inductive TxPayload where
  | normal
  | providerRegister (ptx : Option ProRegTx)
  | providerUpdateService (ptx : Option ProUpServTx)
  | providerUpdateRegistrar (ptx : Option ProUpRegTx)
  | providerUpdateRevoke (ptx : Option ProUpRevTx)
  | coinbase (cbTx : Option CbTx)
  | quorumCommitment (qcTx : Option FinalCommitmentTxPayload)
  | unknown (nType : Nat)
deriving DecidableEq

/-- `CTransaction`. `rest` stands for the parts that are hashed and not read here. -/
structure Transaction where
  nVersion : Int
  payload : TxPayload
  vin : List OutPoint
  vout : List TxOut
  rest : Nat := 0
deriving DecidableEq

def Transaction.isCoinBase (tx : Transaction) : Bool := tx.vin == [.null]

structure Block where
  vtx : List Transaction
  rest : Nat := 0
deriving DecidableEq

structure BlockIndex where
  block : Block
  /-- The blocks below, the parent first. -/
  below : List Block := []
deriving DecidableEq

namespace BlockIndex
variable (pindex : BlockIndex)

def nHeight : Nat := pindex.below.length

def pprev : Option BlockIndex :=
  match pindex.below with
  | [] => none
  | b :: bs => some ⟨b, bs⟩

def next (block : Block) : BlockIndex := ⟨block, pindex.block :: pindex.below⟩

@[simp] lemma nHeight_next (block : Block) : (pindex.next block).nHeight = pindex.nHeight + 1 := rfl

@[simp] lemma block_next (block : Block) : (pindex.next block).block = block := rfl

@[simp] lemma pprev_next (block : Block) : (pindex.next block).pprev = some pindex := rfl

lemma eq_next_of_pprev {pprev : BlockIndex} (h : pindex.pprev = some pprev) :
    pindex = pprev.next pindex.block := by
  obtain ⟨block, below⟩ := pindex
  cases below with
  | nil => cases h
  | cons b bs => cases h; rfl

def getAncestor (height : Int) : Option BlockIndex :=
  if height < 0 ∨ pindex.nHeight < height then none
  else
    match (pindex.block :: pindex.below).drop (pindex.nHeight - height.toNat) with
    | [] => none
    | b :: bs => some ⟨b, bs⟩

def chain : List Block := pindex.block :: pindex.below

variable {pindex} {anc : BlockIndex}

lemma chain_injective (h : anc.chain = pindex.chain) : anc = pindex := by
  obtain ⟨hl, hb⟩ := cons.inj h
  cases anc; cases pindex; simp_all

@[simp] lemma length_chain : pindex.chain.length = pindex.nHeight + 1 := rfl

lemma getAncestor_eq_some_iff_drop {height : Nat} : pindex.getAncestor height = some anc ↔
    height ≤ pindex.nHeight ∧ pindex.chain.drop (pindex.nHeight - height) = anc.chain := by
  unfold getAncestor chain
  by_cases hl : height ≤ pindex.nHeight
  · rw [if_neg (by omega)]
    simp only [hl, true_and, Int.toNat_natCast]
    cases (pindex.block :: pindex.below).drop (pindex.nHeight - height) with
    | nil => simp
    | cons b bs => cases anc; simp
  · simp [hl]

lemma getAncestor_eq_some : pindex.getAncestor anc.nHeight = some anc ↔
    anc.chain <:+ pindex.chain := by
  rw [getAncestor_eq_some_iff_drop]
  constructor
  · rintro ⟨-, hd⟩
    exact hd ▸ drop_suffix _ _
  · intro hs
    have hl := hs.length_le
    simp only [length_chain] at hl
    refine ⟨by omega, ?_⟩
    rw [suffix_iff_eq_drop.1 hs, length_chain, length_chain]
    congr 1
    omega

variable (pindex) in
lemma exists_getAncestor {height : Nat} (h : height ≤ pindex.nHeight) :
    ∃ anc, pindex.getAncestor height = some anc := by
  cases hd : pindex.chain.drop (pindex.nHeight - height) with
  | nil =>
    have := congrArg length hd
    rw [length_drop, length_chain, length_nil] at this
    omega
  | cons b bs => exact ⟨⟨b, bs⟩, getAncestor_eq_some_iff_drop.2 ⟨h, hd⟩⟩

lemma nHeight_of_getAncestor {height : Nat} (h : pindex.getAncestor height = some anc) :
    anc.nHeight = height := by
  obtain ⟨he, hd⟩ := getAncestor_eq_some_iff_drop.1 h
  have hl := congrArg length hd
  rw [length_drop, length_chain, length_chain] at hl
  omega

lemma getAncestor_next {height : Nat} {block : Block} (h : pindex.getAncestor height = some anc) :
    (pindex.next block).getAncestor height = some anc := by
  obtain rfl := nHeight_of_getAncestor h
  exact getAncestor_eq_some.2 ((getAncestor_eq_some.1 h).trans (suffix_cons ..))

lemma suffix_of_getAncestor {height : Int} (h : pindex.getAncestor height = some anc) :
    anc.chain <:+ pindex.chain := by
  unfold getAncestor at h
  split_ifs at h with hr
  cases hd : (pindex.block :: pindex.below).drop (pindex.nHeight - height.toNat) with
  | nil => simp [hd] at h
  | cons b bs =>
    simp only [hd, Option.some.injEq] at h
    subst h
    rw [chain, ← hd]
    exact drop_suffix _ _

lemma nHeight_le_of_suffix (h : anc.chain <:+ pindex.chain) : anc.nHeight ≤ pindex.nHeight := by
  have hl : anc.chain.length = anc.nHeight + 1 := rfl
  have hl' : pindex.chain.length = pindex.nHeight + 1 := rfl
  have := h.length_le
  omega

end BlockIndex

/-- Hashes of transactions and of entries of the block index. A block commits to its ancestors. -/
class ChainHash where
  txHash : Transaction → Uint256
  txHash_injective : Function.Injective txHash
  txHash_ne_zero : ∀ tx, txHash tx ≠ 0
  /-- `SerializeHash` of a payload, which leaves its signature out. -/
  payloadHash : TxPayload → Uint256
  blockHash : BlockIndex → Uint256
  blockHash_injective : Function.Injective blockHash

def Transaction.getHash [ChainHash] (tx : Transaction) : Uint256 := ChainHash.txHash tx

def BlockIndex.getBlockHash [ChainHash] (pindex : BlockIndex) : Uint256 :=
  ChainHash.blockHash pindex

end Trivechain.Evo
