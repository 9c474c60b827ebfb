import Trivechain.Coins.View
import Trivechain.Evo.SpecialTx

/-!
# Address and spent indexes

Three optional indexes of the block tree database: what happened to an address, which outputs of an
address are unspent, and by which input an output was spent. Connecting and disconnecting a block
collect a batch for each of them.

Outputs that pay to a public key are indexed under the hash of the key, with the type of those that
pay to the hash.
-/

namespace Trivechain.Validation
open Evo Coins Function

structure AddressIndexKey where
  type : Nat
  hashBytes : Nat
  blockHeight : Nat
  txindex : Nat
  txhash : Uint256
  index : Nat
  spending : Bool
deriving DecidableEq

structure AddressUnspentKey where
  type : Nat
  hashBytes : Nat
  txhash : Uint256
  index : Nat
deriving DecidableEq

structure AddressUnspentValue where
  satoshis : Amount
  script : Script
  blockHeight : Nat
deriving DecidableEq

def AddressUnspentValue.null : AddressUnspentValue := ⟨-1, .empty, 0⟩

structure SpentIndexValue where
  txid : Uint256
  inputIndex : Nat
  blockHeight : Nat
  satoshis : Amount
  addressType : Nat
  addressHash : Nat
deriving DecidableEq

def SpentIndexValue.null : SpentIndexValue := ⟨0, 0, 0, 0, 0, 0⟩

structure IndexBatches where
  addressIndex : List (AddressIndexKey × Amount) := []
  addressUnspentIndex : List (AddressUnspentKey × AddressUnspentValue) := []
  spentIndex : List (OutPoint × SpentIndexValue) := []

def addressOf : Script → Option (Nat × Nat)
  | .scriptHash id => some (2, id)
  | .pubKeyHash id => some (1, id)
  | .pubKey id => some (1, id)
  | _ => none

def isPayToPublicKey : Script → Bool
  | .pubKey _ => true
  | _ => false

namespace IndexBatches
variable (b : IndexBatches)

def addSpend (nHeight i : Nat) (txhash : Uint256) (j : Nat) (prevout : OutPoint) (coin : Coin) :
    IndexBatches :=
  let out := coin.out
  let (addressType, hashBytes) := (addressOf out.scriptPubKey).getD (0, 0)
  let spent : SpentIndexValue := ⟨txhash, j, nHeight, out.nValue, addressType, hashBytes⟩
  let b := { b with spentIndex := b.spentIndex ++ [(prevout, spent)] }
  if addressType > 0 then
    { b with
      addressIndex := b.addressIndex ++
        [(⟨addressType, hashBytes, nHeight, i, txhash, j, true⟩, out.nValue * -1)]
      addressUnspentIndex := b.addressUnspentIndex ++
        [(⟨addressType, hashBytes, prevout.hash, prevout.n⟩, .null)] }
  else b

def addOutput (nHeight i : Nat) (txhash : Uint256) (k : Nat) (out : TxOut) : IndexBatches :=
  match addressOf out.scriptPubKey with
  | none => b
  | some (type, hashBytes) =>
    { b with
      addressIndex := b.addressIndex ++
        [(⟨type, hashBytes, nHeight, i, txhash, k, false⟩, out.nValue)]
      addressUnspentIndex := b.addressUnspentIndex ++
        [(⟨type, hashBytes, txhash, k⟩, ⟨out.nValue, out.scriptPubKey, nHeight⟩)] }

def undoOutput (nHeight i : Nat) (txhash : Uint256) (k : Nat) (out : TxOut) : IndexBatches :=
  match addressOf out.scriptPubKey with
  | none => b
  | some (type, hashBytes) =>
    { b with
      addressIndex := b.addressIndex ++
        [(⟨type, hashBytes, nHeight, i, txhash, k, false⟩, out.nValue)]
      addressUnspentIndex := b.addressUnspentIndex ++ [(⟨type, hashBytes, txhash, k⟩, .null)] }

/-- An input of a disconnected transaction. Coins paid to a public key are treated as its outputs.
-/
def undoSpend (nHeight i : Nat) (txhash : Uint256) (j : Nat) (prevout : OutPoint)
    (undoHeight : Nat) (out : TxOut) : IndexBatches :=
  let b := { b with spentIndex := b.spentIndex ++ [(prevout, .null)] }
  match addressOf out.scriptPubKey with
  | none => b
  | some (type, hashBytes) =>
    if isPayToPublicKey out.scriptPubKey then
      { b with
        addressIndex := b.addressIndex ++
          [(⟨type, hashBytes, nHeight, i, txhash, j, false⟩, out.nValue)]
        addressUnspentIndex := b.addressUnspentIndex ++ [(⟨type, hashBytes, txhash, j⟩, .null)] }
    else
      { b with
        addressIndex := b.addressIndex ++
          [(⟨type, hashBytes, nHeight, i, txhash, j, true⟩, out.nValue * -1)]
        addressUnspentIndex := b.addressUnspentIndex ++
          [(⟨type, hashBytes, prevout.hash, prevout.n⟩,
            ⟨out.nValue, out.scriptPubKey, undoHeight⟩)] }

end IndexBatches

section Batch
variable {K V W : Type} [DecidableEq K]

/-- A batch is written in order. An entry erases if there is no value for it. -/
def applyBatch (value : V → Option W) (vect : List (K × V)) (f : K → Option W) : K → Option W :=
  vect.foldl (fun f e => update f e.1 (value e.2)) f

lemma applyBatch_cases (value : V → Option W) (vect : List (K × V)) (f : K → Option W) (k : K) :
    (k ∉ vect.map Prod.fst ∧ applyBatch value vect f k = f k) ∨
      ∃ e ∈ vect, e.1 = k ∧ applyBatch value vect f k = value e.2 := by
  induction vect generalizing f with
  | nil => exact .inl ⟨by simp, rfl⟩
  | cons a vect ih =>
    have hc : applyBatch value (a :: vect) f =
      applyBatch value vect (update f a.1 (value a.2)) := rfl
    rw [hc]
    rcases ih (update f a.1 (value a.2)) with ⟨hn, hv⟩ | ⟨e, he, hy, hv⟩
    · by_cases hk : k = a.1
      · exact .inr ⟨a, by simp, hk.symm, by rw [hv, hk, update_self]⟩
      · exact .inl ⟨by simp_all, by rw [hv, update_of_ne hk]⟩
    · exact .inr ⟨e, by simp [he], hy, hv⟩

lemma applyBatch_restored {value value' : V → Option W} {vect vect' : List (K × V)}
    {f : K → Option W} (hk : ∀ k, k ∈ vect'.map Prod.fst ↔ k ∈ vect.map Prod.fst)
    (hl : ∀ e ∈ vect', value' e.2 = none) (hn : ∀ k ∈ vect.map Prod.fst, f k = none) :
    applyBatch value' vect' (applyBatch value vect f) = f := by
  funext k
  rcases applyBatch_cases value' vect' (applyBatch value vect f) k with
    ⟨ht, hv⟩ | ⟨e, he, rfl, hv⟩
  · rw [hv]
    rcases applyBatch_cases value vect f k with ⟨-, hv'⟩ | ⟨e, he, rfl, -⟩
    · exact hv'
    · exact absurd ((hk e.1).2 (List.mem_map_of_mem he)) ht
  · rw [hv, hl e he, hn e.1 ((hk e.1).1 (List.mem_map_of_mem he))]

end Batch

@[ext] structure IndexDb where
  addressIndex : AddressIndexKey → Option Amount := fun _ => none
  addressUnspentIndex : AddressUnspentKey → Option AddressUnspentValue := fun _ => none
  spentIndex : OutPoint → Option SpentIndexValue := fun _ => none

namespace IndexDb
variable (db : IndexDb)

def writeAddressIndex (vect : List (AddressIndexKey × Amount)) : IndexDb :=
  { db with addressIndex := applyBatch some vect db.addressIndex }

def eraseAddressIndex (vect : List (AddressIndexKey × Amount)) : IndexDb :=
  { db with addressIndex := applyBatch (fun _ => none) vect db.addressIndex }

def updateAddressUnspentIndex (vect : List (AddressUnspentKey × AddressUnspentValue)) : IndexDb :=
  { db with addressUnspentIndex :=
      applyBatch (fun v => if v.satoshis = -1 then none else some v) vect db.addressUnspentIndex }

def updateSpentIndex (vect : List (OutPoint × SpentIndexValue)) : IndexDb :=
  { db with spentIndex :=
      applyBatch (fun v => if v.txid = 0 then none else some v) vect db.spentIndex }

def connect (b : IndexBatches) : IndexDb :=
  ((db.writeAddressIndex b.addressIndex).updateAddressUnspentIndex
    b.addressUnspentIndex).updateSpentIndex b.spentIndex

/-- The writes at the end of `DisconnectBlock`. The batch for the spent index is not written. -/
def disconnect (b : IndexBatches) : IndexDb :=
  (db.eraseAddressIndex b.addressIndex).updateAddressUnspentIndex b.addressUnspentIndex

/-! What is left of a connected and disconnected block. -/

lemma disconnect_addressIndex (b b' : IndexBatches) :
    ((db.connect b).disconnect b').addressIndex = applyBatch (fun _ => none) b'.addressIndex
      (applyBatch some b.addressIndex db.addressIndex) := rfl

lemma disconnect_addressUnspentIndex (b b' : IndexBatches) :
    ((db.connect b).disconnect b').addressUnspentIndex =
      applyBatch (fun v => if v.satoshis = -1 then none else some v) b'.addressUnspentIndex
        (applyBatch (fun v => if v.satoshis = -1 then none else some v) b.addressUnspentIndex
          db.addressUnspentIndex) := rfl

lemma disconnect_spentIndex (b b' : IndexBatches) : ((db.connect b).disconnect b').spentIndex =
      applyBatch (fun v => if v.txid = 0 then none else some v) b.spentIndex db.spentIndex := rfl

end IndexDb
end Trivechain.Validation
