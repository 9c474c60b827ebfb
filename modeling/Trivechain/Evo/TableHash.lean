import Mathlib.Tactic.DeriveEncodable
import Mathlib.Logic.Encodable.Basic
import Trivechain.Evo.SpecialTx

/-!
# Hashes for concrete chains

A computable injective hash function: the values of a table are hashed to their places in it, and
all others to their codes, moved past the table.
-/

namespace Trivechain.Evo
open Llmq

section Code
variable {α : Type} [DecidableEq α] [Encodable α]

def tableCode (table : List α) (a : α) : Nat :=
  if a ∈ table then table.idxOf a else table.length + Encodable.encode a

lemma tableCode_injective (table : List α) : Function.Injective (tableCode table) := by
  intro a b hab
  unfold tableCode at hab
  split_ifs at hab with ha hb hb
  · exact (List.idxOf_inj ha).1 hab
  · have := List.idxOf_lt_length_of_mem ha
    omega
  · have := List.idxOf_lt_length_of_mem hb
    omega
  · exact Encodable.encode_injective (Nat.add_left_cancel hab)

end Code

instance encodableUInt8 :
  Encodable UInt8 := .ofLeftInverse UInt8.toNat UInt8.ofNat fun _ => UInt8.ofNat_toNat

deriving instance Encodable for OutPoint, Service, Script, TxOut
deriving instance Encodable for FinalCommitment, FinalCommitmentTxPayload
deriving instance Encodable for ProRegTx, ProUpServTx, ProUpRegTx, ProUpRevTx, CbTx
deriving instance Encodable for TxPayload, Transaction, Block, BlockIndex

@[reducible] def tableHash (txs : List Transaction) (blocks : List BlockIndex) : ChainHash where
  txHash tx := tableCode txs tx + 1
  txHash_injective _ _ h := tableCode_injective txs (Nat.add_right_cancel h)
  txHash_ne_zero _ := Nat.succ_ne_zero _
  payloadHash := Encodable.encode
  blockHash := tableCode blocks
  blockHash_injective := tableCode_injective blocks

end Trivechain.Evo
