import Trivechain.Evo.TableHash
import Trivechain.Lib.SecondaryIndex
import Trivechain.Mempool.Operations

/-!
# The indexes of provider transactions

Provider transactions in the pool are indexed by the addresses, keys, collaterals and masternodes of
their payloads. Removing a transaction erases its keys, whoever holds them, so the indexes stay
right only if no two transactions share a key. The check for conflicts lets an update share the key
of the registration it updates while both are in the pool, and `_clear` leaves three of the indexes
alone. The references also get entries for external collaterals, which are no references to a
masternode.
-/

namespace Trivechain.Mempool
open Evo
open Std (ExtTreeMap ExtTreeSet)
open Run Maps Function
open Option

section Keys
variable [PropertyHash]

def addressOf (tx : Transaction) : Option Service :=
  match tx.payload with
  | .providerRegister (some proTx) => some proTx.addr
  | .providerUpdateService (some proTx) => some proTx.addr
  | _ => none

def ownerKeyOf (tx : Transaction) : Option KeyID :=
  match tx.payload with
  | .providerRegister (some proTx) => some proTx.keyIDOwner
  | _ => none

def operatorKeyOf (tx : Transaction) : Option Uint256 :=
  match tx.payload with
  | .providerRegister (some proTx) => some (keyHash proTx.pubKeyOperator)
  | .providerUpdateRegistrar (some proTx) => some (keyHash proTx.pubKeyOperator)
  | _ => none

def collateralOf (tx : Transaction) : Option OutPoint :=
  match tx.payload with
  | .providerRegister (some proTx) =>
    if proTx.collateralOutpoint.hash ≠ 0 then some proTx.collateralOutpoint else none
  | _ => none

def masternodeOf (tx : Transaction) : Option Uint256 :=
  match tx.payload with
  | .providerUpdateService (some proTx) => some proTx.proTxHash
  | .providerUpdateRegistrar (some proTx) => some proTx.proTxHash
  | .providerUpdateRevoke (some proTx) => some proTx.proTxHash
  | _ => none

end Keys

namespace TxMemPool
variable {pool pool' pool'' : TxMemPool}

def txs (pool : TxMemPool) (h : Uint256) : Option Transaction :=
  (pool.mapTx[h]?).map TxMemPoolEntry.tx

structure SameProTxs (pool pool' : TxMemPool) : Prop where
  txs : pool'.txs = pool.txs
  mapProTxRefs : pool'.mapProTxRefs = pool.mapProTxRefs
  mapProTxAddresses : pool'.mapProTxAddresses = pool.mapProTxAddresses
  mapProTxPubKeyIDs : pool'.mapProTxPubKeyIDs = pool.mapProTxPubKeyIDs
  mapProTxBlsPubKeyHashes : pool'.mapProTxBlsPubKeyHashes = pool.mapProTxBlsPubKeyHashes
  mapProTxCollaterals : pool'.mapProTxCollaterals = pool.mapProTxCollaterals

namespace SameProTxs

lemma refl (pool : TxMemPool) : SameProTxs pool pool := ⟨rfl, rfl, rfl, rfl, rfl, rfl⟩

lemma trans (h : SameProTxs pool pool') (h' : SameProTxs pool' pool'') : SameProTxs pool pool'' :=
  ⟨h'.txs.trans h.txs, h'.mapProTxRefs.trans h.mapProTxRefs,
    h'.mapProTxAddresses.trans h.mapProTxAddresses,
    h'.mapProTxPubKeyIDs.trans h.mapProTxPubKeyIDs,
    h'.mapProTxBlsPubKeyHashes.trans h.mapProTxBlsPubKeyHashes,
    h'.mapProTxCollaterals.trans h.mapProTxCollaterals⟩

variable {α : Type}

lemma foldlM {f : TxMemPool → α → Run TxMemPool}
    (hf : ∀ pool a pool', f pool a = .ok pool' → SameProTxs pool pool') {l : List α}
    (h : l.foldlM f pool = .ok pool') : SameProTxs pool pool' :=
  foldlM_invariant (SameProTxs pool) (fun b a b' hb hs => hb.trans (hf b a b' hs)) l pool
    pool' (.refl pool) h

lemma foldl {f : TxMemPool → α → TxMemPool} (hf : ∀ pool a, SameProTxs pool (f pool a))
    (l : List α) :
    SameProTxs pool (l.foldl f pool) :=
  List.foldlRecOn l f (.refl pool) fun b hb a _ => hb.trans (hf b a)

end SameProTxs

open SameProTxs
variable {e : TxMemPoolEntry} {it : Uint256}
variable {h : Uint256} {e' : TxMemPoolEntry} {size count : Int} {fee : Amount64} {s : SetEntries}

lemma txs_insert : txs { pool with mapTx := pool.mapTx.insert h e } =
      Function.update pool.txs h (some e.tx) := by
  funext k
  rw [txs, getElem?_insert, update_apply]
  split_ifs <;> rfl

lemma sameProTxs_modify {f : TxMemPoolEntry → Run TxMemPoolEntry}
    (hf : ∀ e e', f e = .ok e' → e'.tx = e.tx) (h : pool.modify it f = .ok pool') :
    SameProTxs pool pool' := by
  obtain ⟨e, he, h⟩ := bind_ok.1 h
  obtain ⟨e', he', h⟩ := bind_ok.1 h
  cases h
  rw [demand_ok] at he
  refine ⟨?_, rfl, rfl, rfl, rfl, rfl⟩
  rw [txs_insert, hf e e' he', update_eq_self_iff, txs, he]
  rfl

lemma sameProTxs_updateChild (pool : TxMemPool) (entry child : Uint256) (add : Bool) :
    SameProTxs pool (pool.updateChild entry child add) :=
  ⟨rfl, rfl, rfl, rfl, rfl, rfl⟩

lemma sameProTxs_updateParent (pool : TxMemPool) (entry parent : Uint256) (add : Bool) :
    SameProTxs pool (pool.updateParent entry parent add) :=
  ⟨rfl, rfl, rfl, rfl, rfl, rfl⟩

lemma tx_updateDescendantState (h : e.updateDescendantState size fee count = .ok e') :
    e'.tx = e.tx := by
  obtain ⟨_, -, h⟩ := bind_ok.1 h
  obtain ⟨_, -, h⟩ := bind_ok.1 h
  cases h
  rfl

lemma tx_updateAncestorState {sigOps : Int}
    (h : e.updateAncestorState size fee count sigOps = .ok e') :
    e'.tx = e.tx := by
  iterate 3 obtain ⟨_, -, h⟩ := bind_ok.1 h
  cases h
  rfl

lemma sameProTxs_updateAncestorsOf {add : Bool} (h : pool.updateAncestorsOf add it s = .ok pool')
    : SameProTxs pool pool' := by
  obtain ⟨parents, -, h⟩ := bind_ok.1 h
  obtain ⟨e, -, h⟩ := bind_ok.1 h
  have hl : SameProTxs pool (parents.toList.foldl
      (fun pool piter => pool.updateChild piter it add) pool) :=
    foldl (fun pool piter => sameProTxs_updateChild pool piter it add) _
  exact hl.trans (foldlM
    (fun pool a pool' => sameProTxs_modify fun e e' => tx_updateDescendantState) h)

lemma sameProTxs_updateEntryForAncestors (h : pool.updateEntryForAncestors it s = .ok pool') :
    SameProTxs pool pool' := by
  obtain ⟨ancestors, -, h⟩ := bind_ok.1 h
  exact sameProTxs_modify (fun e e' => tx_updateAncestorState) h

lemma sameProTxs_updateDescendantsOf (h : pool.updateDescendantsOf it = .ok pool') :
    SameProTxs pool pool' := by
  obtain ⟨descendants, -, h⟩ := bind_ok.1 h
  obtain ⟨e, -, h⟩ := bind_ok.1 h
  exact foldlM
    (fun pool a pool' => sameProTxs_modify fun e e' => tx_updateAncestorState) h

lemma sameProTxs_applyDelta (ho : pool.applyDelta h = .ok pool') :
    SameProTxs pool pool' := by
  unfold applyDelta at ho
  split at ho
  · split_ifs at ho
    · refine sameProTxs_modify (fun e e' he => ?_) ho
      cases he
      rfl
    · cases ho
      exact .refl pool
  · cases ho
    exact .refl pool

section Frames
variable [ChainHash]

lemma sameProTxs_updateForRemoveFromMempool {stage : SetEntries} {updateDescendants : Bool}
    (h : pool.updateForRemoveFromMempool stage updateDescendants = .ok pool') :
    SameProTxs pool pool' := by
  obtain ⟨pool1, h1, h⟩ := bind_ok.1 h
  obtain ⟨pool2, h2, h⟩ := bind_ok.1 h
  have hf : SameProTxs pool pool1 := by
    unfold updateDescendantStates at h1
    split_ifs at h1
    · exact foldlM (fun _ _ _ => sameProTxs_updateDescendantsOf) h1
    · cases h1
      exact .refl pool
  have hc : SameProTxs pool1 pool2 := by
    refine foldlM (fun pool it pool' hs => ?_) h2
    obtain ⟨entry, -, hs⟩ := bind_ok.1 hs
    obtain ⟨found, -, hs⟩ := bind_ok.1 hs
    exact sameProTxs_updateAncestorsOf hs
  have ht : SameProTxs pool2 pool' := by
    refine foldlM (fun pool it pool' hs => ?_) h
    obtain ⟨children, -, hs⟩ := bind_ok.1 hs
    cases hs
    exact foldl (fun pool updateIt => sameProTxs_updateParent pool updateIt it false) _
  exact (hf.trans hc).trans ht

lemma sameProTxs_prioritiseTransaction {hash : Uint256} {nFeeDelta : Amount64}
    (h : pool.prioritiseTransaction hash nFeeDelta = .ok pool') : SameProTxs pool pool' := by
  unfold prioritiseTransaction at h
  dsimp only at h
  split_ifs at h
  · obtain ⟨pool1, h1, h⟩ := bind_ok.1 h
    obtain ⟨e, -, h⟩ := bind_ok.1 h
    obtain ⟨ancestors, -, h⟩ := bind_ok.1 h
    obtain ⟨pool2, h2, h⟩ := bind_ok.1 h
    obtain ⟨descendants, -, h⟩ := bind_ok.1 h
    have hf : SameProTxs pool pool1 := by
      have hs := sameProTxs_modify (fun e e' he => by cases he; rfl) h1
      exact ⟨hs.txs, hs.mapProTxRefs, hs.mapProTxAddresses, hs.mapProTxPubKeyIDs,
        hs.mapProTxBlsPubKeyHashes, hs.mapProTxCollaterals⟩
    refine (hf.trans (foldlM (fun _ _ _ => sameProTxs_modify
      fun e e' => tx_updateDescendantState) h2)).trans ?_
    exact foldlM (fun _ _ _ => sameProTxs_modify fun e e' => tx_updateAncestorState) h
  · cases h
    exact ⟨rfl, rfl, rfl, rfl, rfl, rfl⟩

end Frames

section Removal
variable [ChainHash] [PropertyHash]

/-- Kept when an entry is removed, and when a reference is dropped whose transaction is not in the
pool. -/
structure KeptByRemoval (I : TxMemPool → Prop) : Prop where
  same : ∀ pool pool', I pool → SameProTxs pool pool' → I pool'
  remove : ∀ pool pool' it, I pool → pool.removeUnchecked it = .ok pool' → I pool'
  dropRef : ∀ pool (ref : Uint256 × Uint256), I pool → ref ∈ pool.mapProTxRefs →
    pool.mapTx[ref.2]? = none → I { pool with mapProTxRefs := pool.mapProTxRefs.erase ref }

namespace KeptByRemoval
variable {I : TxMemPool → Prop} (hI : KeptByRemoval I)
include hI

lemma removeStaged {stage : SetEntries} {updateDescendants : Bool} (h : I pool)
    (ho : pool.removeStaged stage updateDescendants = .ok pool') : I pool' := by
  obtain ⟨pool1, h1, ho⟩ := bind_ok.1 ho
  have hs := hI.same _ _ h (sameProTxs_updateForRemoveFromMempool h1)
  exact foldlM_invariant I (fun _ _ _ => hI.remove _ _ _) _ _ _ hs ho

lemma removeRecursive {origTx : Transaction} (h : I pool)
    (ho : pool.removeRecursive origTx = .ok pool') : I pool' := by
  obtain ⟨roots, -, ho⟩ := bind_ok.1 ho
  obtain ⟨removes, -, ho⟩ := bind_ok.1 ho
  exact hI.removeStaged h ho

lemma clearPrioritisation {hash : Uint256} (h : I pool) : I (pool.clearPrioritisation hash) :=
  hI.same _ _ h ⟨rfl, rfl, rfl, rfl, rfl, rfl⟩

variable {tx : Transaction}

lemma removeConflicts (h : I pool) (ho : pool.removeConflicts tx = .ok pool') : I pool' := by
  refine foldlM_invariant I (fun pool prevout pool' h hs => ?_) _ _ _ h ho
  split at hs
  · cases hs
    exact h
  · split_ifs at hs
    · exact hI.removeRecursive (hI.clearPrioritisation h) hs
    · cases hs
      exact h

lemma removeHolder {holder : Option Uint256} (h : I pool)
    (ho : pool.removeHolder tx holder = .ok pool') : I pool' := by
  unfold TxMemPool.removeHolder at ho
  split at ho
  · cases ho
    exact h
  · split at ho
    · cases ho
      exact h
    · split_ifs at ho
      · exact hI.removeRecursive h ho
      · cases ho
        exact h

lemma removeRef {ref : Uint256 × Uint256} (h : I pool) (hr : ref ∈ pool.mapProTxRefs)
    (ho : pool.removeRef ref = .ok pool') : I pool' := by
  unfold TxMemPool.removeRef at ho
  split at ho
  · exact hI.removeRecursive h ho
  · rename_i hn
    cases ho
    exact hI.dropRef _ _ h hr hn

variable {proTxHash : Uint256} {fuel : Nat} {mnList : DeterministicMNList}

lemma removeSpentCollateralConflict (h : I pool)
    (ho : removeSpentCollateralConflict proTxHash fuel pool = .ok pool') : I pool' := by
  induction fuel generalizing pool with
  | zero =>
    unfold TxMemPool.removeSpentCollateralConflict at ho
    split at ho
    · cases ho
      exact h
    · cases ho
    · rename_i he
      cases he
  | succ fuel ih =>
    unfold TxMemPool.removeSpentCollateralConflict at ho
    split at ho
    · cases ho
      exact h
    · rename_i he
      cases he
    · rename_i ref fuel' hf he
      cases he
      obtain ⟨pool1, h1, ho⟩ := bind_ok.1 ho
      exact ih (hI.removeRef h (List.mem_of_find?_eq_some hf) h1) ho

lemma removeReferringTo {proTxHash : Option Uint256} (h : I pool)
    (ho : pool.removeReferringTo proTxHash = .ok pool') : I pool' := by
  cases proTxHash with
  | none =>
    cases ho
    exact h
  | some proTxHash => exact hI.removeSpentCollateralConflict h ho

lemma removeProTxKeyChangedConflicts {newKeyHash : Uint256} (h : I pool)
    (ho : pool.removeProTxKeyChangedConflicts proTxHash newKeyHash = .ok pool') : I pool' := by
  refine foldlM_invariant I (fun pool txHash pool' h hs => ?_) _ _ _ h ho
  obtain ⟨e, -, hs⟩ := bind_ok.1 hs
  exact hI.removeRecursive h hs

lemma removePayloadConflicts (h : I pool) (ho : pool.removePayloadConflicts tx = .ok pool') :
    I pool' := by
  unfold TxMemPool.removePayloadConflicts at ho
  split at ho
  · obtain ⟨pool1, h1, ho⟩ := bind_ok.1 ho
    obtain ⟨pool2, h2, ho⟩ := bind_ok.1 ho
    obtain ⟨pool3, h3, ho⟩ := bind_ok.1 ho
    have ht := hI.removeHolder (hI.removeHolder (hI.removeHolder h h1) h2) h3
    split_ifs at ho
    · exact hI.removeHolder ht ho
    · cases ho
      exact ht
  · exact hI.removeHolder h ho
  · obtain ⟨pool1, h1, ho⟩ := bind_ok.1 ho
    exact hI.removeProTxKeyChangedConflicts (hI.removeHolder h h1) ho
  · exact hI.removeProTxKeyChangedConflicts h ho
  · cases ho
    exact h

lemma removeProTxConflicts (h : I pool) (ho : pool.removeProTxConflicts mnList tx = .ok pool') :
    I pool' := by
  obtain ⟨pool1, h1, ho⟩ := bind_ok.1 ho
  refine hI.removePayloadConflicts ?_ ho
  refine foldlM_invariant I (fun pool prevout pool' h hs => ?_) _ _ _ h h1
  obtain ⟨pool2, h2, hs⟩ := bind_ok.1 hs
  exact hI.removeReferringTo (hI.removeReferringTo h h2) hs

lemma removeForBlock {vtx : List Transaction} (h : I pool)
    (ho : pool.removeForBlock mnList vtx = .ok pool') : I pool' := by
  refine foldlM_invariant I (fun pool tx pool' h hs => ?_) _ _ _ h ho
  obtain ⟨pool1, h1, hs⟩ := bind_ok.1 hs
  obtain ⟨pool2, h2, hs⟩ := bind_ok.1 hs
  obtain ⟨pool3, h3, hs⟩ := bind_ok.1 hs
  cases hs
  have hc : I pool1 := by
    unfold removeConfirmed at h1
    split_ifs at h1
    · exact hI.removeStaged h h1
    · cases h1
      exact h
  exact hI.clearPrioritisation (hI.removeProTxConflicts (hI.removeConflicts hc h2) h3)

lemma expire {time : Int} {isLocked : Uint256 → Bool} (h : I pool)
    (ho : pool.expire time isLocked = .ok pool') : I pool' := by
  obtain ⟨stage, -, ho⟩ := bind_ok.1 ho
  exact hI.removeStaged h ho

lemma trimLoop {policy : TrimPolicy} {sizelimit : Nat} (h : I pool)
    (ho : trimLoop policy sizelimit fuel pool = .ok pool') : I pool' := by
  induction fuel generalizing pool with
  | zero =>
    unfold TxMemPool.trimLoop at ho
    split_ifs at ho
    cases ho
    exact h
  | succ fuel ih =>
    unfold TxMemPool.trimLoop at ho
    split_ifs at ho
    · cases ho
      exact h
    · obtain ⟨stage, -, ho⟩ := bind_ok.1 ho
      obtain ⟨pool1, h1, ho⟩ := bind_ok.1 ho
      exact ih (hI.removeStaged h h1) ho

end KeptByRemoval
end Removal

section Exact
variable [ChainHash] [PropertyHash] {tx : Transaction}

/-- The maps lead from the keys of the transactions in the pool to their hashes. -/
structure MapsExact (pool : TxMemPool) : Prop where
  keyed : ∀ h tx, pool.txs h = some tx → tx.getHash = h
  addresses : ExactIndex (fun tx k => addressOf tx = some k) pool.txs
    fun k : Service => pool.mapProTxAddresses[k]?
  ownerKeys : ExactIndex (fun tx k => ownerKeyOf tx = some k) pool.txs
    fun k : KeyID => pool.mapProTxPubKeyIDs[k]?
  operatorKeys : ExactIndex (fun tx k => operatorKeyOf tx = some k) pool.txs
    fun k : Uint256 => pool.mapProTxBlsPubKeyHashes[k]?
  collaterals : ExactIndex (fun tx k => collateralOf tx = some k) pool.txs
    fun k : OutPoint => pool.mapProTxCollaterals[k]?

def RefsExact (pool : TxMemPool) : Prop :=
  ∀ proTxHash h, (proTxHash, h) ∈ pool.mapProTxRefs ↔
    ∃ tx, pool.txs h = some tx ∧ masternodeOf tx = some proTxHash

def refErased (tx : Transaction) : Option (Uint256 × Uint256) :=
  match tx.payload with
  | .providerRegister (some proTx) =>
    if proTx.collateralOutpoint ≠ .null then some (tx.getHash, proTx.collateralOutpoint.hash)
    else none
  | _ => (masternodeOf tx).map fun proTxHash => (proTxHash, tx.getHash)

def refAdded (tx : Transaction) : Option (Uint256 × Uint256) :=
  match tx.payload with
  | .providerRegister (some proTx) =>
    if proTx.collateralOutpoint.hash ≠ 0 then some (tx.getHash, proTx.collateralOutpoint.hash)
    else none
  | _ => (masternodeOf tx).map fun proTxHash => (proTxHash, tx.getHash)

structure Erased (pool pool' : TxMemPool) (tx : Transaction) : Prop where
  mapTx : pool'.mapTx = pool.mapTx
  addresses : ∀ (k : Service) h, pool'.mapProTxAddresses[k]? = some h ↔
    pool.mapProTxAddresses[k]? = some h ∧ addressOf tx ≠ some k
  ownerKeys : ∀ (k : KeyID) h, pool'.mapProTxPubKeyIDs[k]? = some h ↔
    pool.mapProTxPubKeyIDs[k]? = some h ∧ ownerKeyOf tx ≠ some k
  operatorKeys : ∀ (k : Uint256) h, pool'.mapProTxBlsPubKeyHashes[k]? = some h ↔
    pool.mapProTxBlsPubKeyHashes[k]? = some h ∧ operatorKeyOf tx ≠ some k
  collaterals : ∀ (k : OutPoint) h, pool'.mapProTxCollaterals[k]? = some h ↔
    pool.mapProTxCollaterals[k]? = some h ∧ collateralOf tx ≠ some k
  refs : ∀ ref, ref ∈ pool'.mapProTxRefs ↔ ref ∈ pool.mapProTxRefs ∧ refErased tx ≠ some ref

omit [ChainHash] [PropertyHash] in
lemma getElem?_erase_iff {K : Type} [Ord K] [Std.TransOrd K] [Std.LawfulEqOrd K] [DecidableEq K]
    (m : ExtTreeMap K Uint256) (k a : K) (h : Uint256) :
    (m.erase k)[a]? = some h ↔ m[a]? = some h ∧ some k ≠ some a := by
  rw [getElem?_erase]
  by_cases hk : a = k
  · simp [hk]
  · simp [hk, Ne.symm hk]

variable {proTxHash it : Uint256} {ref : Uint256 × Uint256} {mnList : DeterministicMNList}
  {entry : TxMemPoolEntry} {setAncestors : SetEntries}

omit [ChainHash] [PropertyHash] in
lemma mem_eraseProTxRef {h : Uint256} : ref ∈ (pool.eraseProTxRef proTxHash h).mapProTxRefs ↔
      ref ∈ pool.mapProTxRefs ∧ some (proTxHash, h) ≠ some ref := by
  rw [eraseProTxRef, List.mem_filter, decide_eq_true_eq, Ne, Ne, some_inj, eq_comm]

lemma removeProTx_erased (he : ∀ (k : OutPoint) h,
      pool.mapProTxCollaterals[k]? = some h → k.hash ≠ 0)
    (ho : pool.removeProTx tx = .ok pool') : Erased pool pool' tx := by
  unfold removeProTx at ho
  split at ho
  · rename_i ptx hy
    obtain ⟨proTx, ht, ho⟩ := bind_ok.1 ho
    rw [demand_ok] at ht
    subst ht
    cases ho
    have hc : ∀ (k : OutPoint) h,
        (pool.mapProTxCollaterals.erase proTx.collateralOutpoint)[k]? = some h ↔
          pool.mapProTxCollaterals[k]? = some h ∧ collateralOf tx ≠ some k := by
      intro k h
      rw [getElem?_erase_iff, collateralOf, hy]
      dsimp only
      split_ifs with hh
      · rfl
      · -- an internal collateral is in no index
        refine and_congr_right fun hk => ?_
        simp only [ne_eq, some_inj, reduceCtorEq, not_false_eq_true, iff_true]
        rintro rfl
        exact he _ _ hk (not_not.1 hh)
    refine ⟨?_, fun k h => ?_, fun k h => ?_, fun k h => ?_, fun k h => ?_, fun ref => ?_⟩
    · split_ifs <;> rfl
    · rw [addressOf, hy]
      split_ifs <;> exact getElem?_erase_iff ..
    · rw [ownerKeyOf, hy]
      split_ifs <;> exact getElem?_erase_iff ..
    · rw [operatorKeyOf, hy]
      split_ifs <;> exact getElem?_erase_iff ..
    · split_ifs <;> exact hc k h
    · rw [refErased, hy]
      dsimp only
      split_ifs
      · exact mem_eraseProTxRef
      · simp
  -- the three updates
  iterate 3
    · rename_i ptx hy
      obtain ⟨proTx, ht, ho⟩ := bind_ok.1 ho
      rw [demand_ok] at ht
      subst ht
      cases ho
      refine ⟨rfl, fun k h => ?_, fun k h => ?_, fun k h => ?_, fun k h => ?_, fun ref => ?_⟩
      all_goals simp only [addressOf, ownerKeyOf, operatorKeyOf, collateralOf, refErased,
        masternodeOf, hy]
      all_goals first
        | exact getElem?_erase_iff ..
        | exact mem_eraseProTxRef
        | simp [eraseProTxRef]
  · -- other transactions have no keys
    cases ho
    refine ⟨rfl, fun k h => ?_, fun k h => ?_, fun k h => ?_, fun k h => ?_, fun ref => ?_⟩
    all_goals cases hp : tx.payload <;> simp_all [addressOf, ownerKeyOf, operatorKeyOf,
      collateralOf, refErased, masternodeOf]

lemma MapsExact.external (h : MapsExact pool) (k : OutPoint) (hash : Uint256)
    (hk : pool.mapProTxCollaterals[k]? = some hash) : k.hash ≠ 0 := by
  obtain ⟨tx, -, hy⟩ := (h.collaterals k hash).1 hk
  unfold collateralOf at hy
  split at hy
  · split_ifs at hy with hh
    exact Option.some.inj hy ▸ hh
  · cases hy

lemma removeUnchecked_erased (h : MapsExact pool) (ho : pool.removeUnchecked it = .ok pool') :
    ∃ tx pool1, pool.txs it = some tx ∧ Erased pool pool1 tx ∧ pool' = { pool1 with
        mapLinks := pool1.mapLinks.erase it
        mapTx := pool1.mapTx.erase it } ∧
      pool'.txs = Function.update pool.txs it none := by
  obtain ⟨e, he, ho⟩ := bind_ok.1 ho
  obtain ⟨pool1, h1, ho⟩ := bind_ok.1 ho
  rw [demand_ok] at he
  cases ho
  have hs : Erased { pool with
      mapNextTx := e.tx.vin.foldl (fun m prevout => m.erase prevout) pool.mapNextTx } pool1 e.tx :=
    removeProTx_erased (fun k hash hk => h.external k hash hk) h1
  refine ⟨e.tx, pool1, by rw [txs, he]; rfl, ⟨hs.mapTx, hs.addresses, hs.ownerKeys,
    hs.operatorKeys, hs.collaterals, hs.refs⟩, rfl, ?_⟩
  funext k
  rw [txs, hs.mapTx, getElem?_erase, update_apply]
  split_ifs <;> rfl

lemma MapsExact.removeUnchecked (h : MapsExact pool) (ho : pool.removeUnchecked it = .ok pool') :
    MapsExact pool' := by
  obtain ⟨tx, pool1, hx, he, hq, ht⟩ := removeUnchecked_erased h ho
  refine ⟨fun k tx' ht' => ?_, ?_, ?_, ?_, ?_⟩
  · rw [ht, update_apply] at ht'
    split_ifs at ht'
    exact h.keyed k tx' ht'
  · rw [ht, hq]
    exact h.addresses.update_none hx he.addresses
  · rw [ht, hq]
    exact h.ownerKeys.update_none hx he.ownerKeys
  · rw [ht, hq]
    exact h.operatorKeys.update_none hx he.operatorKeys
  · rw [ht, hq]
    exact h.collaterals.update_none hx he.collaterals

structure Free (pool : TxMemPool) (tx : Transaction) : Prop where
  addresses : ∀ k, addressOf tx = some k → pool.mapProTxAddresses[k]? = none
  ownerKeys : ∀ k, ownerKeyOf tx = some k → pool.mapProTxPubKeyIDs[k]? = none
  operatorKeys : ∀ k, operatorKeyOf tx = some k → pool.mapProTxBlsPubKeyHashes[k]? = none
  collaterals : ∀ k, collateralOf tx = some k → pool.mapProTxCollaterals[k]? = none

structure Indexed (pool pool' : TxMemPool) (tx : Transaction) : Prop where
  txs : pool'.txs = pool.txs
  addresses : ∀ (k : Service) h, pool'.mapProTxAddresses[k]? = some h ↔
    (addressOf tx = some k ∧ h = tx.getHash) ∨
      (¬ addressOf tx = some k ∧ pool.mapProTxAddresses[k]? = some h)
  ownerKeys : ∀ (k : KeyID) h, pool'.mapProTxPubKeyIDs[k]? = some h ↔
    (ownerKeyOf tx = some k ∧ h = tx.getHash) ∨
      (¬ ownerKeyOf tx = some k ∧ pool.mapProTxPubKeyIDs[k]? = some h)
  operatorKeys : ∀ (k : Uint256) h, pool'.mapProTxBlsPubKeyHashes[k]? = some h ↔
    (operatorKeyOf tx = some k ∧ h = tx.getHash) ∨
      (¬ operatorKeyOf tx = some k ∧ pool.mapProTxBlsPubKeyHashes[k]? = some h)
  collaterals : ∀ (k : OutPoint) h, pool'.mapProTxCollaterals[k]? = some h ↔
    (collateralOf tx = some k ∧ h = tx.getHash) ∨
      (¬ collateralOf tx = some k ∧ pool.mapProTxCollaterals[k]? = some h)
  refs : ∀ ref, ref ∈ pool'.mapProTxRefs ↔ ref ∈ pool.mapProTxRefs ∨ refAdded tx = some ref

omit [ChainHash] [PropertyHash] in
lemma getElem?_insertIfNew_iff {K : Type} [Ord K] [Std.TransOrd K] [Std.LawfulEqOrd K]
    [DecidableEq K] {m : ExtTreeMap K Uint256} {k : K} (hf : m[k]? = none) (a : K)
    (h hash : Uint256) : (m.insertIfNew k hash)[a]? = some h ↔
      (some k = some a ∧ h = hash) ∨ (¬ some k = some a ∧ m[a]? = some h) := by
  rw [getElem?_insertIfNew, some_inj]
  by_cases hk : a = k
  · subst hk
    simp [hf, eq_comm]
  · simp [hk, Ne.symm hk]

omit [ChainHash] in
lemma sameProTxs_markKeyChange {hash : Uint256} {pubKeyOperator : Option Bls.PubKey}
    (ho : pool.markKeyChange mnList hash proTxHash pubKeyOperator = .ok pool') :
    SameProTxs pool pool' := by
  obtain ⟨dmn, -, ho⟩ := bind_ok.1 ho
  refine sameProTxs_modify (fun e e' he => ?_) ho
  cases he
  rfl

omit [PropertyHash] in
lemma Indexed.same [PropertyHash] (h : Indexed pool pool' tx) (hs : SameProTxs pool' pool'') :
    Indexed pool pool'' tx := by
  refine ⟨hs.txs.trans h.txs, ?_, ?_, ?_, ?_, ?_⟩
  · rw [hs.mapProTxAddresses]
    exact h.addresses
  · rw [hs.mapProTxPubKeyIDs]
    exact h.ownerKeys
  · rw [hs.mapProTxBlsPubKeyHashes]
    exact h.operatorKeys
  · rw [hs.mapProTxCollaterals]
    exact h.collaterals
  · rw [hs.mapProTxRefs]
    exact h.refs

lemma addProTx_indexed (hf : Free pool tx) (hk : pool.addProTx mnList tx = .ok pool') :
    Indexed pool pool' tx := by
  unfold addProTx at hk
  dsimp only at hk
  split at hk
  · rename_i ptx hy
    obtain ⟨proTx, ht, hk⟩ := bind_ok.1 hk
    rw [demand_ok] at ht
    subst ht
    cases hk
    refine ⟨rfl, fun k h => ?_, fun k h => ?_, fun k h => ?_, fun k h => ?_, fun ref => ?_⟩
    · have hn := hf.addresses proTx.addr (by rw [addressOf, hy])
      rw [addressOf, hy]
      exact getElem?_insertIfNew_iff hn ..
    · have hn := hf.ownerKeys proTx.keyIDOwner (by rw [ownerKeyOf, hy])
      rw [ownerKeyOf, hy]
      exact getElem?_insertIfNew_iff hn ..
    · have hn := hf.operatorKeys (keyHash proTx.pubKeyOperator) (by rw [operatorKeyOf, hy])
      rw [operatorKeyOf, hy]
      exact getElem?_insertIfNew_iff hn ..
    · have hn := hf.collaterals
      rw [collateralOf, hy] at hn ⊢
      dsimp only at hn ⊢
      split_ifs at hn ⊢ with he
      · exact getElem?_insertIfNew_iff (hn _ rfl) ..
      · simp
    · rw [refAdded, hy]
      dsimp only
      split_ifs
      · rw [List.mem_append, List.mem_singleton, some_inj, eq_comm]
      · simp
  -- the three updates
  iterate 3
    · rename_i ptx hy
      obtain ⟨proTx, ht, hk⟩ := bind_ok.1 hk
      rw [demand_ok] at ht
      subst ht
      have ha := hf.addresses
      have ho := hf.operatorKeys
      simp only [addressOf, operatorKeyOf, hy] at ha ho
      first
        | cases hk
        | refine Indexed.same ?_ (sameProTxs_markKeyChange hk)
      refine ⟨rfl, fun k h => ?_, fun k h => ?_, fun k h => ?_, fun k h => ?_, fun ref => ?_⟩
      all_goals simp only [addressOf, ownerKeyOf, operatorKeyOf, collateralOf, refAdded,
        masternodeOf, hy]
      all_goals first
        | exact getElem?_insertIfNew_iff (ha _ rfl) ..
        | exact getElem?_insertIfNew_iff (ho _ rfl) ..
        | simp [eq_comm]
  · cases hk
    refine ⟨rfl, fun k h => ?_, fun k h => ?_, fun k h => ?_, fun k h => ?_, fun ref => ?_⟩
    all_goals cases hp : tx.payload <;> simp_all [addressOf, ownerKeyOf, operatorKeyOf,
      collateralOf, refAdded, masternodeOf]

lemma MapsExact.same (h : MapsExact pool) (hs : SameProTxs pool pool') : MapsExact pool' := by
  refine ⟨?_, ?_, ?_, ?_, ?_⟩
  · rw [hs.txs]
    exact h.keyed
  · rw [hs.txs, hs.mapProTxAddresses]
    exact h.addresses
  · rw [hs.txs, hs.mapProTxPubKeyIDs]
    exact h.ownerKeys
  · rw [hs.txs, hs.mapProTxBlsPubKeyHashes]
    exact h.operatorKeys
  · rw [hs.txs, hs.mapProTxCollaterals]
    exact h.collaterals

omit [PropertyHash] in
lemma insertEntry_same (ho : pool.insertEntry entry = .ok pool') :
    SameProTxs { pool with mapTx := pool.mapTx.insertIfNew entry.tx.getHash entry } pool' := by
  obtain ⟨pool1, h1, ho⟩ := bind_ok.1 ho
  cases ho
  have hd := sameProTxs_applyDelta h1
  have hs : SameProTxs { pool with mapTx := pool.mapTx.insertIfNew entry.tx.getHash entry }
      { pool1 with
        mapNextTx := entry.tx.vin.foldl (fun m prevout => m.insertIfNew prevout entry.tx)
          pool1.mapNextTx } :=
    ⟨hd.txs, hd.mapProTxRefs, hd.mapProTxAddresses, hd.mapProTxPubKeyIDs,
      hd.mapProTxBlsPubKeyHashes, hd.mapProTxCollaterals⟩
  refine hs.trans (foldl (fun pool a => ?_) _)
  split_ifs
  · exact ⟨rfl, rfl, rfl, rfl, rfl, rfl⟩
  · exact .refl pool

lemma addUnchecked_indexed (hn : pool.mapTx[entry.tx.getHash]? = none)
    (hf : Free pool entry.tx) (ho : pool.addUnchecked mnList entry setAncestors = .ok pool') :
    ∃ pool1, SameProTxs { pool with mapTx := pool.mapTx.insertIfNew entry.tx.getHash entry } pool1 ∧
      Indexed pool1 pool' entry.tx ∧
      pool'.txs = Function.update pool.txs entry.tx.getHash (some entry.tx) := by
  obtain ⟨pool1, h1, ho⟩ := bind_ok.1 ho
  obtain ⟨pool2, h2, ho⟩ := bind_ok.1 ho
  obtain ⟨pool3, h3, ho⟩ := bind_ok.1 ho
  have hs := ((insertEntry_same h1).trans (sameProTxs_updateAncestorsOf h2)).trans
    (sameProTxs_updateEntryForAncestors h3)
  have hi : Indexed pool3 pool' entry.tx := by
    refine addProTx_indexed ⟨?_, ?_, ?_, ?_⟩ ho
    · rw [hs.mapProTxAddresses]
      exact hf.addresses
    · rw [hs.mapProTxPubKeyIDs]
      exact hf.ownerKeys
    · rw [hs.mapProTxBlsPubKeyHashes]
      exact hf.operatorKeys
    · rw [hs.mapProTxCollaterals]
      exact hf.collaterals
  refine ⟨pool3, hs, hi, ?_⟩
  rw [hi.txs, hs.txs]
  funext k
  rw [txs, getElem?_insertIfNew, update_apply]
  by_cases hk : k = entry.tx.getHash
  · rw [if_pos ⟨hk, hn⟩, if_pos hk]
    rfl
  · rw [if_neg fun h => hk h.1, if_neg hk]
    rfl

lemma MapsExact.addUnchecked (h : MapsExact pool) (hw : pool.mapTx[entry.tx.getHash]? = none)
    (hf : Free pool entry.tx) (hok : pool.addUnchecked mnList entry setAncestors = .ok pool') :
    MapsExact pool' := by
  obtain ⟨pool1, hs, hi, ht⟩ := addUnchecked_indexed hw hf hok
  have hn : pool.txs entry.tx.getHash = none := by
    rw [txs, hw]
    rfl
  have ha := hi.addresses
  have hon := hi.ownerKeys
  have ho := hi.operatorKeys
  have hc := hi.collaterals
  rw [hs.mapProTxAddresses] at ha
  rw [hs.mapProTxPubKeyIDs] at hon
  rw [hs.mapProTxBlsPubKeyHashes] at ho
  rw [hs.mapProTxCollaterals] at hc
  -- a key that is free is a key of no transaction
  have hu : ∀ {K : Type} {Has : Transaction → K → Prop} {index : K → Option Uint256},
      ExactIndex Has pool.txs index → (∀ k, Has entry.tx k → index k = none) →
      ∀ p r k, pool.txs p = some r → Has entry.tx k → ¬ Has r k := by
    intro K Has index he hf p r k hr hy hk'
    have hm := (he k p).2 ⟨r, hr, hk'⟩
    rw [hf k hy] at hm
    cases hm
  refine ⟨fun k tx hx => ?_, ?_, ?_, ?_, ?_⟩
  · rw [ht, update_apply] at hx
    split_ifs at hx with hk
    · rw [← Option.some.inj hx, hk]
    · exact h.keyed k tx hx
  · rw [ht]
    exact h.addresses.update_some hn (hu h.addresses hf.addresses) ha
  · rw [ht]
    exact h.ownerKeys.update_some hn (hu h.ownerKeys hf.ownerKeys) hon
  · rw [ht]
    exact h.operatorKeys.update_some hn (hu h.operatorKeys hf.operatorKeys)
      ho
  · rw [ht]
    exact h.collaterals.update_some hn (hu h.collaterals hf.collaterals) hc

lemma keptByRemoval_mapsExact : KeptByRemoval MapsExact where
  same _ _ h hs := h.same hs
  remove _ _ _ h ho := h.removeUnchecked ho
  dropRef _ _ h _ _ := ⟨h.keyed, h.addresses, h.ownerKeys, h.operatorKeys, h.collaterals⟩

def OnlyInternal (pool : TxMemPool) : Prop := ∀ h tx, pool.txs h = some tx → collateralOf tx = none

structure IndexesExact (pool : TxMemPool) : Prop where
  maps : MapsExact pool
  refs : RefsExact pool
  internal : OnlyInternal pool

section

omit [PropertyHash]

lemma refErased_of_masternodeOf (h : masternodeOf tx = some proTxHash) :
    refErased tx = some (proTxHash, tx.getHash) ∧ refAdded tx = some (proTxHash, tx.getHash) := by
  unfold refErased refAdded
  cases hp : tx.payload with
  | providerRegister ptx =>
    rw [masternodeOf, hp] at h
    cases h
  | _ => exact ⟨by rw [h]; rfl, by rw [h]; rfl⟩

/-- Without an external collateral only an update has a reference, apart from an impossible one. -/
lemma refErased_internal (hi : collateralOf tx = none) (h : refErased tx = some ref) :
    ref.2 = 0 ∨ masternodeOf tx = some ref.1 ∧ ref.2 = tx.getHash := by
  unfold refErased at h
  split at h
  · rename_i proTx hp
    split_ifs at h
    rw [collateralOf, hp] at hi
    dsimp only at hi
    split_ifs at hi with hh
    cases h
    exact .inl (not_not.1 hh)
  · obtain ⟨proTxHash, hm, rfl⟩ := map_eq_some_iff.1 h
    exact .inr ⟨hm, rfl⟩

lemma refAdded_internal (hi : collateralOf tx = none) :
    refAdded tx = some ref ↔ masternodeOf tx = some ref.1 ∧ ref.2 = tx.getHash := by
  constructor
  · intro h
    unfold refAdded at h
    split at h
    · rename_i proTx hp
      split_ifs at h with hh
      rw [collateralOf, hp] at hi
      dsimp only at hi
      rw [if_pos hh] at hi
      cases hi
    · obtain ⟨proTxHash, hm, rfl⟩ := map_eq_some_iff.1 h
      exact ⟨hm, rfl⟩
  · rintro ⟨hm, hh⟩
    rw [(refErased_of_masternodeOf hm).2, ← hh]

end

lemma IndexesExact.removeUnchecked (h : IndexesExact pool)
    (ho : pool.removeUnchecked it = .ok pool') : IndexesExact pool' := by
  obtain ⟨tx, pool1, hx, he, hq, ht⟩ := removeUnchecked_erased h.maps ho
  refine ⟨h.maps.removeUnchecked ho, fun r k => ?_, fun k tx' ht' => ?_⟩
  · have hr : (r, k) ∈ pool'.mapProTxRefs ↔
        (r, k) ∈ pool.mapProTxRefs ∧ refErased tx ≠ some (r, k) := by
      rw [hq]
      exact he.refs (r, k)
    rw [hr, h.refs r k, ht]
    constructor
    · rintro ⟨⟨tx', ht', hm⟩, hn⟩
      refine ⟨tx', ?_, hm⟩
      rw [update_apply, if_neg]
      · exact ht'
      · -- the reference of the removed transaction is gone
        rintro rfl
        obtain rfl := Option.some.inj (hx.symm.trans ht')
        exact hn (by rw [(refErased_of_masternodeOf hm).1, h.maps.keyed k tx hx])
    · rintro ⟨tx', ht', hm⟩
      rw [update_apply] at ht'
      split_ifs at ht' with hk
      refine ⟨⟨tx', ht', hm⟩, fun hn => ?_⟩
      rcases refErased_internal (h.internal it tx hx) hn with hz | ⟨-, hh⟩
      · dsimp only at hz
        have := h.maps.keyed k tx' ht'
        rw [hz] at this
        exact ChainHash.txHash_ne_zero tx' this
      · exact hk (hh.trans (h.maps.keyed it tx hx))
  · rw [ht, update_apply] at ht'
    split_ifs at ht'
    exact h.internal k tx' ht'

lemma keptByRemoval_indexesExact : KeptByRemoval IndexesExact where
  same pool pool' h hs := by
    refine ⟨h.maps.same hs, fun r k => ?_, ?_⟩
    · rw [hs.mapProTxRefs, hs.txs]
      exact h.refs r k
    · rw [OnlyInternal, hs.txs]
      exact h.internal
  remove _ _ _ h ho := h.removeUnchecked ho
  dropRef pool ref h hr hn := by
    -- every reference is to a transaction in the pool
    obtain ⟨tx, ht, -⟩ := (h.refs ref.1 ref.2).1 hr
    rw [txs, hn] at ht
    cases ht

lemma IndexesExact.addUnchecked (h : IndexesExact pool)
    (hn : pool.mapTx[entry.tx.getHash]? = none) (hf : Free pool entry.tx)
    (hi : collateralOf entry.tx = none)
    (ho : pool.addUnchecked mnList entry setAncestors = .ok pool') : IndexesExact pool' := by
  obtain ⟨pool1, hs, hin, ht⟩ := addUnchecked_indexed hn hf ho
  have hnn : pool.txs entry.tx.getHash = none := by
    rw [txs, hn]
    rfl
  refine ⟨h.maps.addUnchecked hn hf ho, fun r k => ?_, fun k tx hx => ?_⟩
  · rw [hin.refs, hs.mapProTxRefs, refAdded_internal hi, ht]
    rw [show (r, k) ∈ pool.mapProTxRefs ↔ _ from h.refs r k]
    by_cases hk : k = entry.tx.getHash
    · subst hk
      simp [hnn]
    · simp [hk]
  · rw [ht, update_apply] at hx
    split_ifs at hx
    · rw [← Option.some.inj hx]
      exact hi
    · exact h.internal k tx hx

end Exact
end TxMemPool

open TxMemPool

inductive ProTxEvent where
  | addUnchecked (mnList : DeterministicMNList) (entry : TxMemPoolEntry) (setAncestors : SetEntries)
  | removeRecursive (origTx : Transaction)
  | removeForBlock (mnList : DeterministicMNList) (vtx : List Transaction)
  | expire (time : Int) (isLocked : Uint256 → Bool)
  | trimToSize (policy : TxMemPool.TrimPolicy) (sizelimit : Nat)
  | prioritiseTransaction (hash : Uint256) (nFeeDelta : Amount64)
  | clear

def ProTxEvent.Internal : ProTxEvent → Prop
  | .addUnchecked _ entry _ => collateralOf entry.tx = none
  | _ => True

namespace TxMemPool
variable [ChainHash] [PropertyHash] {pool pool' : TxMemPool}

def handleProTx (pool : TxMemPool) : ProTxEvent → Run TxMemPool
  | .addUnchecked mnList entry setAncestors => pool.addUnchecked mnList entry setAncestors
  | .removeRecursive origTx => pool.removeRecursive origTx
  | .removeForBlock mnList vtx => pool.removeForBlock mnList vtx
  | .expire time isLocked => pool.expire time isLocked
  | .trimToSize policy sizelimit => pool.trimToSize policy sizelimit
  | .prioritiseTransaction hash nFeeDelta => pool.prioritiseTransaction hash nFeeDelta
  | .clear => .ok pool.clear

def Accepted (pool : TxMemPool) : ProTxEvent → Prop
  | .addUnchecked mnList entry _ => pool.mapTx[entry.tx.getHash]? = none ∧
      pool.existsProviderTxConflict mnList entry.tx = false
  | _ => True

/-- An update shares no key with a transaction in the pool, not even with its registration, and the
pool is cleared only if the indexes are empty that `_clear` leaves. -/
def Unshared (pool : TxMemPool) : ProTxEvent → Prop
  | .addUnchecked _ entry _ => masternodeOf entry.tx ≠ none →
      (∀ k, addressOf entry.tx = some k → pool.mapProTxAddresses[k]? = none) ∧
        ∀ k, operatorKeyOf entry.tx = some k → pool.mapProTxBlsPubKeyHashes[k]? = none
  | .clear => pool.mapProTxRefs = [] ∧ pool.mapProTxBlsPubKeyHashes = ∅ ∧
      pool.mapProTxCollaterals = ∅
  | _ => True

omit [ChainHash] in
/-- The check for conflicts compares registrations with all keys, and updates up to the
registration that they update. -/
lemma free_of_not_conflict {mnList : DeterministicMNList} {tx : Transaction}
    (hc : pool.existsProviderTxConflict mnList tx = false)
    (hu : masternodeOf tx ≠ none →
      (∀ k, addressOf tx = some k → pool.mapProTxAddresses[k]? = none) ∧
        ∀ k, operatorKeyOf tx = some k → pool.mapProTxBlsPubKeyHashes[k]? = none) :
    Free pool tx := by
  cases hp : tx.payload with
  | providerRegister ptx =>
    cases ptx with
    | none => simp [existsProviderTxConflict, hp] at hc
    | some proTx =>
      simp only [existsProviderTxConflict, hp] at hc
      split_ifs at hc with hy he
      all_goals
        simp only [Bool.or_eq_true, not_or, isSome_iff_ne_none, ne_eq, not_not] at hy
        refine ⟨fun k hk => ?_, fun k hk => ?_, fun k hk => ?_, fun k hk => ?_⟩
        · simp only [addressOf, hp, some_inj] at hk
          exact hk ▸ hy.1.1
        · simp only [ownerKeyOf, hp, some_inj] at hk
          exact hk ▸ hy.1.2
        · simp only [operatorKeyOf, hp, some_inj] at hk
          exact hk ▸ hy.2
      · simp only [Bool.or_eq_false_iff, isSome_eq_false_iff, isNone_iff_eq_none]
          at hc
        simp only [collateralOf, hp, if_pos he, some_inj] at hk
        exact hk ▸ hc.1
      · simp only [collateralOf, hp, if_neg he] at hk
        cases hk
  | providerUpdateService ptx | providerUpdateRegistrar ptx =>
    cases ptx with
    | none => simp [existsProviderTxConflict, hp] at hc
    | some proTx =>
      obtain ⟨ha, hke⟩ := hu (by simp [masternodeOf, hp])
      exact ⟨ha, by simp [ownerKeyOf, hp], hke, by simp [collateralOf, hp]⟩
  | providerUpdateRevoke ptx =>
    exact ⟨by simp [addressOf, hp], by simp [ownerKeyOf, hp], by simp [operatorKeyOf, hp],
      by simp [collateralOf, hp]⟩
  | _ =>
    exact ⟨by simp [addressOf, hp], by simp [ownerKeyOf, hp], by simp [operatorKeyOf, hp],
      by simp [collateralOf, hp]⟩

variable {ev : ProTxEvent}

lemma KeptByRemoval.handleProTx {I : TxMemPool → Prop} (hI : KeptByRemoval I)
    (hr : ∀ mnList entry s, ev ≠ .addUnchecked mnList entry s) (hc : ev ≠ .clear)
    (h : I pool) (ho : pool.handleProTx ev = .ok pool') :
    I pool' := by
  cases ev with
  | addUnchecked mnList entry s => exact absurd rfl (hr mnList entry s)
  | removeRecursive origTx => exact hI.removeRecursive h ho
  | removeForBlock mnList vtx => exact hI.removeForBlock h ho
  | expire time isLocked => exact hI.expire h ho
  | trimToSize policy sizelimit => exact hI.trimLoop h ho
  | prioritiseTransaction hash nFeeDelta =>
    exact hI.same _ _ h (sameProTxs_prioritiseTransaction ho)
  | clear => exact absurd rfl hc

omit [ChainHash] [PropertyHash] in
lemma txs_clear (h : Uint256) : pool.clear.txs h = none := by
  simp [txs, clear]

lemma MapsExact.clear (hk : pool.mapProTxBlsPubKeyHashes = ∅)
    (hc : pool.mapProTxCollaterals = ∅) : MapsExact pool.clear := by
  -- nothing is stored and nothing is indexed
  have he : ∀ {K : Type} {Has : Transaction → K → Prop} {index : K → Option Uint256},
      (∀ k, index k = none) → ExactIndex Has pool.clear.txs index := by
    intro K Has index hi k p
    simp [hi k, txs_clear]
  refine ⟨fun h tx ht => ?_, he fun k => ?_, he fun k => ?_, he fun k => ?_, he fun k => ?_⟩
  · rw [txs_clear] at ht
    cases ht
  · simp [TxMemPool.clear]
  · simp [TxMemPool.clear]
  · simp [TxMemPool.clear, hk]
  · simp [TxMemPool.clear, hc]

lemma MapsExact.handleProTx (h : MapsExact pool) (ha : pool.Accepted ev)
    (hu : pool.Unshared ev) (ho : pool.handleProTx ev = .ok pool') :
    MapsExact pool' := by
  cases ev with
  | addUnchecked mnList entry s =>
    exact h.addUnchecked ha.1 (free_of_not_conflict ha.2 hu) ho
  | clear =>
    cases ho
    exact .clear hu.2.1 hu.2.2
  | _ => exact keptByRemoval_mapsExact.handleProTx (by simp) (by simp) h ho

lemma IndexesExact.handleProTx (h : IndexesExact pool) (ha : pool.Accepted ev)
    (hu : pool.Unshared ev) (hi : ev.Internal) (ho : pool.handleProTx ev = .ok pool') :
    IndexesExact pool' := by
  cases ev with
  | addUnchecked mnList entry s =>
    exact h.addUnchecked ha.1 (free_of_not_conflict ha.2 hu) hi ho
  | clear =>
    cases ho
    refine ⟨.clear hu.2.1 hu.2.2, fun r k => ?_, fun k tx ht => ?_⟩
    · rw [show pool.clear.mapProTxRefs = [] from hu.1]
      simp [txs_clear]
    · rw [txs_clear] at ht
      cases ht
  | _ => exact keptByRemoval_indexesExact.handleProTx (by simp) (by simp) h ho

lemma mapsExact_empty : MapsExact ({} : TxMemPool) :=
  have hc : MapsExact (clear {}) := MapsExact.clear rfl rfl
  hc

lemma indexesExact_empty : IndexesExact ({} : TxMemPool) :=
  ⟨mapsExact_empty, fun r k => by simp [txs], fun h tx ht => by simp [txs] at ht⟩

/-- The four maps are exact in every run in which updates share no keys and the pool is cleared only
without provider transactions; the references if also all collaterals are internal. -/
theorem indexes_of_run {events : List ProTxEvent}
    (haccepted : Run.Guarded handleProTx Accepted ({} : TxMemPool) events)
    (hunshared : Run.Guarded handleProTx Unshared ({} : TxMemPool) events)
    (hrun : events.foldlM handleProTx ({} : TxMemPool) = .ok pool) :
    MapsExact pool ∧ ((∀ event ∈ events, event.Internal) → RefsExact pool) := by
  have ht : Run.Guarded handleProTx (fun pool event => pool.Accepted event ∧ pool.Unshared event)
      ({} : TxMemPool) events :=
    fun pre a post he b hb => ⟨haccepted pre a post he b hb, hunshared pre a post he b hb⟩
  constructor
  · exact ht.invariant MapsExact (fun _ _ _ h hg ho => h.handleProTx hg.1 hg.2 ho)
      mapsExact_empty hrun
  · intro hi
    have ha : Run.Guarded handleProTx
        (fun pool event => (pool.Accepted event ∧ pool.Unshared event) ∧ event.Internal)
        ({} : TxMemPool) events :=
      fun pre a post he b hb => ⟨ht pre a post he b hb, hi a (by simp [he])⟩
    exact (ha.invariant IndexesExact
      (fun _ _ _ h hg ho => h.handleProTx hg.1.1 hg.1.2 hg.2 ho)
      indexesExact_empty hrun).refs

end TxMemPool

namespace Registrations

def register (collateralOutpoint : OutPoint) : Transaction where
  nVersion := 3
  payload := .providerRegister (some {
    collateralOutpoint, addr := ⟨10, 19999⟩, keyIDOwner := 20, pubKeyOperator := some 30
    keyIDVoting := 20, scriptPayout := .pubKeyHash 40, inputsHash := 0 })
  vin := [⟨50, 0⟩]
  vout := []

def update : Transaction where
  nVersion := 3
  payload := .providerUpdateService (some {
    proTxHash := 1, addr := ⟨10, 19999⟩, inputsHash := 0, sig := none })
  vin := [⟨51, 0⟩]
  vout := []

def move : Transaction :=
  { update with payload := .providerUpdateService (some {
      proTxHash := 1, addr := ⟨11, 19999⟩, inputsHash := 0, sig := none }) }

local instance chainHash : ChainHash :=
  tableHash [register ⟨0, 0⟩, register ⟨90, 0⟩, update, move] []
local instance propertyHash : PropertyHash := encodingHash

def add (tx : Transaction) : ProTxEvent :=
  .addUnchecked {} (.new tx 100 0 1 ⟨300, by decide⟩) ∅

lemma accepted_register {tx : Transaction} (h : existsProviderTxConflict {} {} tx = false) :
    Run.Guarded handleProTx TxMemPool.Accepted {} ([] ++ [add tx]) := by
  refine Run.Guarded.concat (.of_forall fun a ha => absurd ha List.not_mem_nil) fun pool hp => ?_
  cases hp
  exact ⟨by simp, h⟩

lemma accepted_update {tx : Transaction} {pool : TxMemPool}
    (ha : ([add (register ⟨0, 0⟩)].foldlM handleProTx {}).toOption.map (fun pool =>
      (pool.mapTx[tx.getHash]?.isNone, pool.existsProviderTxConflict {} tx)) = some (true, false))
    (hp : [add (register ⟨0, 0⟩)].foldlM handleProTx {} = .ok pool) : pool.Accepted (add tx) := by
  rw [hp] at ha
  obtain ⟨hn, hc⟩ := Prod.mk.inj (Option.some.inj ha)
  exact ⟨isNone_iff_eq_none.1 hn, hc⟩

/-- The reference of a registration with an external collateral leads to the transaction of the
collateral; clearing the pool leaves an operator key; an update to the address of its registration
is not indexed. -/
theorem indexes_not_exact :
    (∃ pool, Run.Guarded handleProTx TxMemPool.Accepted {} [add (register ⟨90, 0⟩)] ∧
      [add (register ⟨90, 0⟩)].foldlM handleProTx {} = .ok pool ∧
      ¬ pool.RefsExact) ∧
    (∃ pool, Run.Guarded handleProTx TxMemPool.Accepted {} [add (register ⟨0, 0⟩), .clear] ∧
      [add (register ⟨0, 0⟩), .clear].foldlM handleProTx {} = .ok pool ∧
      ¬ pool.MapsExact) ∧
    ∃ pool, Run.Guarded handleProTx TxMemPool.Accepted {} [add (register ⟨0, 0⟩), add update] ∧
      [add (register ⟨0, 0⟩), add update].foldlM handleProTx {} = .ok pool ∧
      ¬ pool.MapsExact := by
  refine ⟨?_, ?_, ?_⟩
  · have hr : ([add (register ⟨90, 0⟩)].foldlM handleProTx {}).toOption.map
        (fun pool => (pool.mapProTxRefs, (pool.txs 90).isNone)) = some ([(2, 90)], true) := by
      decide +kernel
    obtain ⟨pool, hp, hq⟩ := Run.exists_of_map_toOption hr
    obtain ⟨hf, hn⟩ := Prod.mk.inj hq
    refine ⟨pool, accepted_register (by decide +kernel), hp, fun he => ?_⟩
    obtain ⟨tx, hx, -⟩ := (he 2 90).1 (by simp [hf])
    simp [hx] at hn
  · have hr : ([add (register ⟨0, 0⟩), .clear].foldlM handleProTx {}).toOption.map
        (fun pool => (pool.mapProTxBlsPubKeyHashes[keyHash (some 30)]?, (pool.txs 1).isNone)) =
        some (some 1, true) := by decide +kernel
    obtain ⟨pool, hp, hq⟩ := Run.exists_of_map_toOption hr
    obtain ⟨hk, hn⟩ := Prod.mk.inj hq
    refine ⟨pool, (accepted_register (by decide +kernel)).concat fun _ _ => trivial, hp,
      fun he => ?_⟩
    obtain ⟨tx, hx, -⟩ := (he.operatorKeys _ 1).1 hk
    simp [hx] at hn
  · have hr : ([add (register ⟨0, 0⟩), add update].foldlM handleProTx {}).toOption.map
        (fun pool => (pool.mapProTxAddresses[(⟨10, 19999⟩ : Service)]?,
          (pool.txs 3).map addressOf)) =
        some (some 1, some (some ⟨10, 19999⟩)) := by decide +kernel
    obtain ⟨pool, hp, hq⟩ := Run.exists_of_map_toOption hr
    obtain ⟨hi, hs⟩ := Prod.mk.inj hq
    refine ⟨pool, (accepted_register (by decide +kernel)).concat fun _ h =>
        accepted_update (by decide +kernel) h,
      hp, fun he => ?_⟩
    obtain ⟨tx, hx, ha⟩ := Option.map_eq_some_iff.1 hs
    have ht := (he.addresses _ 3).2 ⟨tx, hx, ha⟩
    cases hi.symm.trans ht

lemma unshared_register : Run.Guarded handleProTx TxMemPool.Unshared {}
    ([] ++ [add (register ⟨0, 0⟩)]) :=
  .of_forall fun a ha b => by
    rw [List.nil_append, List.mem_singleton] at ha
    exact ha ▸ fun hm => absurd rfl hm

lemma unshared_move {pool : TxMemPool}
    (hp : [add (register ⟨0, 0⟩)].foldlM handleProTx {} = .ok pool) :
    pool.Unshared (add move) := by
  have ha : ([add (register ⟨0, 0⟩)].foldlM handleProTx {}).toOption.map (fun pool =>
      pool.mapProTxAddresses[(⟨11, 19999⟩ : Service)]?) = some none := by decide +kernel
  rw [hp] at ha
  refine fun _ => ⟨fun k hk => ?_, fun k hk => by cases hk⟩
  cases hk
  exact Option.some.inj ha

/-- A registration, an update to another address, and the removal of the update. -/
theorem indexes_of_registration : ∃ pool, ([add (register ⟨0, 0⟩), add move] ++
      [ProTxEvent.removeRecursive move]).foldlM handleProTx {} = .ok pool ∧
    (pool.txs 1).isSome ∧ pool.MapsExact ∧ pool.RefsExact := by
  obtain ⟨pool, hp, hs⟩ := Run.exists_of_map_toOption (b := true)
    (f := fun pool : TxMemPool => (pool.txs 1).isSome)
    (show (([add (register ⟨0, 0⟩), add move] ++ [ProTxEvent.removeRecursive move]).foldlM handleProTx
      {}).toOption.map _ = _ by decide +kernel)
  have ha : Run.Guarded handleProTx TxMemPool.Accepted {} ([add (register ⟨0, 0⟩)] ++ [add move]) :=
    (accepted_register (by decide +kernel)).concat fun _ h => accepted_update (by decide +kernel) h
  have hu : Run.Guarded handleProTx TxMemPool.Unshared {} ([add (register ⟨0, 0⟩)] ++ [add move]) :=
    unshared_register.concat fun _ h => unshared_move h
  have hc := indexes_of_run (ha.concat fun _ _ => by exact trivial)
    (hu.concat fun _ _ => by exact trivial) hp
  refine ⟨pool, hp, hs, hc.1, hc.2 fun event he => ?_⟩
  simp only [List.cons_append, List.nil_append, List.mem_cons, List.not_mem_nil, or_false] at he
  rcases he with rfl | rfl | rfl
  · exact (by decide : collateralOf (register ⟨0, 0⟩) = none)
  · exact (by decide : collateralOf move = none)
  · trivial

end Registrations
end Trivechain.Mempool
