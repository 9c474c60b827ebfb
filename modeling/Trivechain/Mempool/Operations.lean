import Trivechain.Mempool.Pool

/-!
# Operations of the memory pool

Adding a transaction, removing sets of them, and what a connected block does to the pool. Provider
transactions are indexed when they are added and taken out of the indexes when they are removed;
`GetListAtChainTip` is the argument `mnList`.
-/

namespace Trivechain.Mempool
open Evo Bls Run
open Std (ExtTreeMap ExtTreeSet)

/-- `GetHash` and `SerializeHash` of an operator key. -/
def keyHash [PropertyHash] (pubKey : Option PubKey) : Uint256 :=
  PropertyHash.serializeHash (.pubKeyOperator pubKey)

namespace TxMemPool
variable [ChainHash] [PropertyHash] (pool : TxMemPool) (mnList : DeterministicMNList)

/-- The key for which a registrar update or a revocation is valid, and whether it changes it. -/
def markKeyChange (hash proTxHash : Uint256) (pubKeyOperator : Option PubKey) :
    Run TxMemPool := do
  let dmn ← demand .assertion (mnList.getMN proTxHash)
  pool.modify hash fun e => .ok { e with
    validForProTxKey := keyHash dmn.pdmnState.pubKeyOperator
    isKeyChangeProTx :=
      if dmn.pdmnState.pubKeyOperator ≠ pubKeyOperator then true else e.isKeyChangeProTx }

def addProTx (tx : Transaction) : Run TxMemPool :=
  let hash := tx.getHash
  match tx.payload with
  | .providerRegister ptx => do
    let proTx ← demand .assertion ptx
    let external := proTx.collateralOutpoint.hash ≠ 0
    return { pool with
      mapProTxRefs := if external then
          pool.mapProTxRefs ++ [(hash, proTx.collateralOutpoint.hash)]
        else pool.mapProTxRefs
      mapProTxAddresses := pool.mapProTxAddresses.insertIfNew proTx.addr hash
      mapProTxPubKeyIDs := pool.mapProTxPubKeyIDs.insertIfNew proTx.keyIDOwner hash
      mapProTxBlsPubKeyHashes :=
        pool.mapProTxBlsPubKeyHashes.insertIfNew (keyHash proTx.pubKeyOperator) hash
      mapProTxCollaterals := if external then
          pool.mapProTxCollaterals.insertIfNew proTx.collateralOutpoint hash
        else pool.mapProTxCollaterals }
  | .providerUpdateService ptx => do
    let proTx ← demand .assertion ptx
    return { pool with
      mapProTxRefs := pool.mapProTxRefs ++ [(proTx.proTxHash, hash)]
      mapProTxAddresses := pool.mapProTxAddresses.insertIfNew proTx.addr hash }
  | .providerUpdateRegistrar ptx => do
    let proTx ← demand .assertion ptx
    let pool := { pool with
      mapProTxRefs := pool.mapProTxRefs ++ [(proTx.proTxHash, hash)]
      mapProTxBlsPubKeyHashes :=
        pool.mapProTxBlsPubKeyHashes.insertIfNew (keyHash proTx.pubKeyOperator) hash }
    pool.markKeyChange mnList hash proTx.proTxHash proTx.pubKeyOperator
  | .providerUpdateRevoke ptx => do
    let proTx ← demand .assertion ptx
    let pool := { pool with mapProTxRefs := pool.mapProTxRefs ++ [(proTx.proTxHash, hash)] }
    pool.markKeyChange mnList hash proTx.proTxHash none
  | _ => .ok pool

def applyDelta (hash : Uint256) : Run TxMemPool :=
  match pool.mapDeltas[hash]? with
  | some delta => if delta ≠ 0 then pool.modify hash fun e => .ok (e.updateFeeDelta delta) else .ok pool
  | none => .ok pool

def insertEntry (entry : TxMemPoolEntry) : Run TxMemPool := do
  let hash := entry.tx.getHash
  let pool := { pool with
    mapTx := pool.mapTx.insertIfNew hash entry
    mapLinks := pool.mapLinks.insertIfNew hash {} }
  let pool ← pool.applyDelta hash
  let pool := { pool with
    mapNextTx := entry.tx.vin.foldl (fun m prevout => m.insertIfNew prevout entry.tx)
      pool.mapNextTx }
  let setParentTransactions : SetEntries := ExtTreeSet.ofList (entry.tx.vin.map OutPoint.hash)
  return setParentTransactions.toList.foldl
    (fun pool phash => if pool.exists_ phash then pool.updateParent hash phash true else pool) pool

def addUnchecked (entry : TxMemPoolEntry) (setAncestors : SetEntries) : Run TxMemPool := do
  let hash := entry.tx.getHash
  let pool ← pool.insertEntry entry
  let pool ← pool.updateAncestorsOf true hash setAncestors
  let pool ← pool.updateEntryForAncestors hash setAncestors
  pool.addProTx mnList entry.tx

def eraseProTxRef (proTxHash txHash : Uint256) : TxMemPool :=
  { pool with mapProTxRefs := pool.mapProTxRefs.filter fun ref => ref ≠ (proTxHash, txHash) }

def removeProTx (tx : Transaction) : Run TxMemPool :=
  match tx.payload with
  | .providerRegister ptx => do
    let proTx ← demand .assertion ptx
    let pool := if proTx.collateralOutpoint ≠ .null then
        pool.eraseProTxRef tx.getHash proTx.collateralOutpoint.hash
      else pool
    return { pool with
      mapProTxAddresses := pool.mapProTxAddresses.erase proTx.addr
      mapProTxPubKeyIDs := pool.mapProTxPubKeyIDs.erase proTx.keyIDOwner
      mapProTxBlsPubKeyHashes := pool.mapProTxBlsPubKeyHashes.erase (keyHash proTx.pubKeyOperator)
      mapProTxCollaterals := pool.mapProTxCollaterals.erase proTx.collateralOutpoint }
  | .providerUpdateService ptx => do
    let proTx ← demand .assertion ptx
    let pool := pool.eraseProTxRef proTx.proTxHash tx.getHash
    return { pool with mapProTxAddresses := pool.mapProTxAddresses.erase proTx.addr }
  | .providerUpdateRegistrar ptx => do
    let proTx ← demand .assertion ptx
    let pool := pool.eraseProTxRef proTx.proTxHash tx.getHash
    return { pool with
      mapProTxBlsPubKeyHashes := pool.mapProTxBlsPubKeyHashes.erase (keyHash proTx.pubKeyOperator) }
  | .providerUpdateRevoke ptx => do
    let proTx ← demand .assertion ptx
    return pool.eraseProTxRef proTx.proTxHash tx.getHash
  | _ => .ok pool

def removeUnchecked (it : Uint256) : Run TxMemPool := do
  let e ← demand .undefined pool.mapTx[it]?
  let pool := { pool with
    mapNextTx := e.tx.vin.foldl (fun m prevout => m.erase prevout) pool.mapNextTx }
  let pool ← pool.removeProTx e.tx
  return { pool with
    mapLinks := pool.mapLinks.erase it
    mapTx := pool.mapTx.erase it }

def removeStaged (stage : SetEntries) (updateDescendants : Bool) : Run TxMemPool := do
  let pool ← pool.updateForRemoveFromMempool stage updateDescendants
  stage.toList.foldlM (fun pool it => pool.removeUnchecked it) pool

/-- What `removeRecursive` starts from: the transaction, or its children when it is not here. -/
def removalRoots (origTx : Transaction) : Run SetEntries :=
  let hash := origTx.getHash
  if pool.exists_ hash then .ok (ExtTreeSet.empty.insert hash)
  else (List.range origTx.vout.length).foldlM
    (fun txToRemove i =>
      match pool.mapNextTx[(⟨hash, i⟩ : OutPoint)]? with
      | none => .ok txToRemove
      | some next => do
        ensure (pool.exists_ next.getHash)
        return txToRemove.insert next.getHash)
    (∅ : SetEntries)

def allDescendants (its : SetEntries) : Run SetEntries :=
  its.toList.foldlM (fun setAllRemoves it => pool.calculateDescendants it setAllRemoves) ∅

def removeRecursive (origTx : Transaction) : Run TxMemPool := do
  let txToRemove ← pool.removalRoots origTx
  let setAllRemoves ← pool.allDescendants txToRemove
  pool.removeStaged setAllRemoves false

def clearPrioritisation (hash : Uint256) : TxMemPool :=
  { pool with mapDeltas := pool.mapDeltas.erase hash }

def removeConflicts (tx : Transaction) : Run TxMemPool :=
  tx.vin.foldlM
    (fun pool prevout =>
      match pool.mapNextTx[prevout]? with
      | none => .ok pool
      | some txConflict =>
        if txConflict ≠ tx then
          (pool.clearPrioritisation txConflict.getHash).removeRecursive txConflict
        else .ok pool)
    pool

def removeHolder (tx : Transaction) (holder : Option Uint256) : Run TxMemPool :=
  match holder with
  | none => .ok pool
  | some conflictHash =>
    match pool.mapTx[conflictHash]? with
    | none => .ok pool
    | some e => if conflictHash ≠ tx.getHash then pool.removeRecursive e.tx else .ok pool

def removeProTxAddressConflicts (tx : Transaction) (addr : Service) : Run TxMemPool :=
  pool.removeHolder tx pool.mapProTxAddresses[addr]?

def removeProTxOwnerKeyConflicts (tx : Transaction) (keyId : KeyID) : Run TxMemPool :=
  pool.removeHolder tx pool.mapProTxPubKeyIDs[keyId]?

def removeProTxPubKeyConflicts (tx : Transaction) (pubKey : Option PubKey) : Run TxMemPool :=
  pool.removeHolder tx pool.mapProTxBlsPubKeyHashes[keyHash pubKey]?

def removeProTxCollateralConflicts (tx : Transaction) (collateralOutpoint : OutPoint) :
    Run TxMemPool :=
  pool.removeHolder tx pool.mapProTxCollaterals[collateralOutpoint]?

/-- A transaction that refers to a masternode is removed; a reference to one not in the pool is
dropped. -/
def removeRef (ref : Uint256 × Uint256) : Run TxMemPool :=
  match pool.mapTx[ref.2]? with
  | some e => pool.removeRecursive e.tx
  | none => .ok { pool with mapProTxRefs := pool.mapProTxRefs.erase ref }

/-- `removeSpentCollateralConflict`. A round takes an entry from the pool or from the multimap. -/
def removeSpentCollateralConflict (proTxHash : Uint256) : Nat → TxMemPool → Run TxMemPool
  | fuel, pool =>
    match pool.mapProTxRefs.find? fun ref => ref.1 = proTxHash, fuel with
    | none, _ => .ok pool
    | some _, 0 => .error (.fault .undefined)
    | some ref, fuel + 1 => do
      let pool ← pool.removeRef ref
      removeSpentCollateralConflict proTxHash fuel pool

def removeReferring (proTxHash : Uint256) : Run TxMemPool :=
  removeSpentCollateralConflict proTxHash (pool.mapTx.size + pool.mapProTxRefs.length) pool

def removeReferringTo (proTxHash : Option Uint256) : Run TxMemPool :=
  match proTxHash with
  | some proTxHash => pool.removeReferring proTxHash
  | none => .ok pool

def removeProTxSpentCollateralConflicts (tx : Transaction) : Run TxMemPool :=
  tx.vin.foldlM
    (fun pool prevout => do
      -- ProRegTxs that are not mined yet, and then masternodes
      let pool ← pool.removeReferringTo pool.mapProTxCollaterals[prevout]?
      pool.removeReferringTo ((mnList.getMNByCollateral prevout).map (·.proTxHash)))
    pool

def keyChangeConflicts (proTxHash newKeyHash : Uint256) : SetEntries :=
  ExtTreeSet.ofList <| (pool.mapProTxRefs.filter fun ref => ref.1 = proTxHash).filterMap fun ref =>
    match pool.mapTx[ref.2]? with
    | none => none
    | some e => if e.validForProTxKey ≠ newKeyHash then some ref.2 else none

def removeProTxKeyChangedConflicts (proTxHash newKeyHash : Uint256) : Run TxMemPool :=
  (pool.keyChangeConflicts proTxHash newKeyHash).toList.foldlM
    (fun pool txHash => do
      -- the iterator is used without a check that it is not at the end
      let e ← demand .undefined pool.mapTx[txHash]?
      pool.removeRecursive e.tx)
    pool

def removePayloadConflicts (tx : Transaction) : Run TxMemPool :=
  match tx.payload with
  | .providerRegister (some proTx) => do
    let pool ← pool.removeProTxAddressConflicts tx proTx.addr
    let pool ← pool.removeProTxOwnerKeyConflicts tx proTx.keyIDOwner
    let pool ← pool.removeProTxPubKeyConflicts tx proTx.pubKeyOperator
    if proTx.collateralOutpoint.hash ≠ 0 then
      pool.removeProTxCollateralConflicts tx proTx.collateralOutpoint
    else .ok pool
  | .providerUpdateService (some proTx) => pool.removeProTxAddressConflicts tx proTx.addr
  | .providerUpdateRegistrar (some proTx) => do
    let pool ← pool.removeProTxPubKeyConflicts tx proTx.pubKeyOperator
    pool.removeProTxKeyChangedConflicts proTx.proTxHash (keyHash proTx.pubKeyOperator)
  | .providerUpdateRevoke (some proTx) =>
    pool.removeProTxKeyChangedConflicts proTx.proTxHash (keyHash none)
  | _ => .ok pool

def removeProTxConflicts (tx : Transaction) : Run TxMemPool := do
  let pool ← pool.removeProTxSpentCollateralConflicts mnList tx
  pool.removePayloadConflicts tx

def removeConfirmed (hash : Uint256) : Run TxMemPool :=
  if pool.exists_ hash then pool.removeStaged (ExtTreeSet.empty.insert hash) true else .ok pool

def removeMined (tx : Transaction) : Run TxMemPool := do
  let hash := tx.getHash
  let pool ← pool.removeConfirmed hash
  let pool ← pool.removeConflicts tx
  let pool ← pool.removeProTxConflicts mnList tx
  return pool.clearPrioritisation hash

def removeForBlock (vtx : List Transaction) : Run TxMemPool :=
  vtx.foldlM (fun pool tx => pool.removeMined mnList tx) pool

def clear : TxMemPool :=
  { pool with
    mapLinks := ∅
    mapTx := ∅
    mapNextTx := ∅
    mapProTxAddresses := ∅
    mapProTxPubKeyIDs := ∅ }

/-- `isLocked` is the state of transaction locks. -/
def expire (time : Int) (isLocked : Uint256 → Bool) : Run TxMemPool := do
  let toremove : SetEntries := ExtTreeSet.ofList <|
    (pool.mapTx.toList.filter fun p => p.2.nTime < time && !isLocked p.1).map Prod.fst
  let stage ← pool.allDescendants toremove
  pool.removeStaged stage false

/-- What `TrimToSize` looks at: the estimate of memory, and the first entry by descendant score. -/
structure TrimPolicy where
  dynamicMemoryUsage : TxMemPool → Nat
  worst : TxMemPool → Uint256

def trimLoop (policy : TrimPolicy) (sizelimit : Nat) : Nat → TxMemPool → Run TxMemPool
  | fuel, pool =>
    if pool.mapTx.isEmpty || policy.dynamicMemoryUsage pool ≤ sizelimit then .ok pool
    else match fuel with
      | 0 => .error (.fault .undefined)
      | fuel + 1 => do
        let stage ← pool.calculateDescendants (policy.worst pool) ∅
        let pool ← pool.removeStaged stage false
        trimLoop policy sizelimit fuel pool

def trimToSize (policy : TrimPolicy) (sizelimit : Nat) : Run TxMemPool :=
  trimLoop policy sizelimit pool.mapTx.size pool

def prioritiseTransaction (hash : Uint256) (nFeeDelta : Amount64) : Run TxMemPool := do
  let delta := (pool.mapDeltas[hash]?).getD 0 + nFeeDelta
  let pool := { pool with mapDeltas := pool.mapDeltas.insert hash delta }
  if pool.exists_ hash then do
    let pool ← pool.modify hash fun e => .ok (e.updateFeeDelta delta)
    let e ← demand .undefined pool.mapTx[hash]?
    let (setAncestors, _) ← pool.calculateMemPoolAncestors e {} false
    let pool ← setAncestors.toList.foldlM
      (fun pool ancestorIt => pool.modify ancestorIt (·.updateDescendantState 0 nFeeDelta 0)) pool
    let setDescendants ← pool.calculateDescendants hash ∅
    (setDescendants.erase hash).toList.foldlM
      (fun pool descendantIt => pool.modify descendantIt (·.updateAncestorState 0 nFeeDelta 0 0))
      pool
  else return pool

def hasKeyChangeInMempool (proTxHash : Uint256) : Bool :=
  pool.mapProTxRefs.any fun ref =>
    ref.1 = proTxHash && ((pool.mapTx[ref.2]?).map (·.isKeyChangeProTx)).getD false

def existsProviderTxConflict (tx : Transaction) : Bool :=
  match tx.payload with
  | .providerRegister none => true
  | .providerRegister (some proTx) =>
    if (pool.mapProTxAddresses[proTx.addr]?).isSome ||
        (pool.mapProTxPubKeyIDs[proTx.keyIDOwner]?).isSome ||
        (pool.mapProTxBlsPubKeyHashes[keyHash proTx.pubKeyOperator]?).isSome then true
    else if proTx.collateralOutpoint.hash ≠ 0 then
      (pool.mapProTxCollaterals[proTx.collateralOutpoint]?).isSome ||
        (pool.mapNextTx[proTx.collateralOutpoint]?).isSome
    else false
  | .providerUpdateService none => true
  | .providerUpdateService (some proTx) =>
    match pool.mapProTxAddresses[proTx.addr]? with
    | none => false
    | some txid => txid ≠ proTx.proTxHash
  | .providerUpdateRegistrar none => true
  | .providerUpdateRegistrar (some proTx) =>
    match mnList.getMN proTx.proTxHash with
    | none => true
    | some dmn =>
      if dmn.pdmnState.pubKeyOperator ≠ proTx.pubKeyOperator ∧
          pool.hasKeyChangeInMempool proTx.proTxHash then true
      else match pool.mapProTxBlsPubKeyHashes[keyHash proTx.pubKeyOperator]? with
        | none => false
        | some txid => txid ≠ proTx.proTxHash
  | .providerUpdateRevoke none => true
  | .providerUpdateRevoke (some proTx) =>
    match mnList.getMN proTx.proTxHash with
    | none => true
    | some dmn =>
      decide (dmn.pdmnState.pubKeyOperator ≠ none) && pool.hasKeyChangeInMempool proTx.proTxHash
  | _ => false

end TxMemPool
end Trivechain.Mempool
