import Trivechain.Mempool.Entry

/-!
# The memory pool

`CTxMemPool` with the maps that it keeps by hand: the links between parents and children, the
spenders of outpoints, the fee deltas, and the indexes of provider transactions. An iterator into
`mapTx` is the hash of its entry; sets of iterators are ordered by hash, as in the source.

Loops that visit a graph have the number of entries as a bound on their rounds: a round moves an
entry into the set that is computed.
-/

namespace Trivechain

namespace Service

instance : Ord Service := ⟨compareLex (compareOn Service.ip) (compareOn Service.port)⟩

instance : Std.TransOrd Service :=
  inferInstanceAs (Std.TransCmp (compareLex (compareOn Service.ip) (compareOn Service.port)))

instance : Std.LawfulEqOrd Service where
  eq_of_compare {a b} h := by
    have h : compareLex (compareOn Service.ip) (compareOn Service.port) a b = .eq := h
    rw [compareLex, Ordering.then_eq_eq] at h
    cases a
    cases b
    simp_all [compareOn]

end Service

namespace Mempool
open Evo Run
open Std (ExtTreeMap ExtTreeSet)

abbrev SetEntries := ExtTreeSet Uint256

structure TxLinks where
  parents : SetEntries := ∅
  children : SetEntries := ∅

structure TxMemPool where
  mapTx : ExtTreeMap Uint256 TxMemPoolEntry := ∅
  mapLinks : ExtTreeMap Uint256 TxLinks := ∅
  mapNextTx : ExtTreeMap OutPoint Transaction := ∅
  mapDeltas : ExtTreeMap Uint256 Amount64 := ∅
  /-- A multimap, in the order in which its entries were made. -/
  mapProTxRefs : List (Uint256 × Uint256) := []
  mapProTxAddresses : ExtTreeMap Service Uint256 := ∅
  mapProTxPubKeyIDs : ExtTreeMap KeyID Uint256 := ∅
  mapProTxBlsPubKeyHashes : ExtTreeMap Uint256 Uint256 := ∅
  mapProTxCollaterals : ExtTreeMap OutPoint Uint256 := ∅

/-- Limits on the package of a new transaction; `none` is `nNoLimit`, which no 64 bit number
exceeds. -/
structure Limits where
  ancestorCount : Option Nat := none
  ancestorSize : Option Nat := none
  descendantCount : Option Nat := none
  descendantSize : Option Nat := none

def exceeds (n : Int) : Option Nat → Bool
  | none => false
  | some limit => (limit : Int) < n

inductive LimitError where
  | unconfirmedParents (limit : Nat)
  | descendantSize (txid : Uint256) (limit : Nat)
  | descendants (txid : Uint256) (limit : Nat)
  | ancestorSize (limit : Nat)
  | unconfirmedAncestors (limit : Nat)
deriving DecidableEq

namespace TxMemPool
variable (pool : TxMemPool)

def exists_ (hash : Uint256) : Bool := (pool.mapTx[hash]?).isSome

def modify (it : Uint256) (f : TxMemPoolEntry → Run TxMemPoolEntry) : Run TxMemPool := do
  let e ← demand .undefined pool.mapTx[it]?
  let e' ← f e
  return { pool with mapTx := pool.mapTx.insert it e' }

def getMemPoolParents (entry : Uint256) : Run SetEntries :=
  TxLinks.parents <$> demand .assertion pool.mapLinks[entry]?

def getMemPoolChildren (entry : Uint256) : Run SetEntries :=
  TxLinks.children <$> demand .assertion pool.mapLinks[entry]?

def links (entry : Uint256) : TxLinks := (pool.mapLinks[entry]?).getD {}

def updateChild (entry child : Uint256) (add : Bool) : TxMemPool :=
  let l := pool.links entry
  let children := if add then l.children.insert child else l.children.erase child
  { pool with mapLinks := pool.mapLinks.insert entry { l with children } }

def updateParent (entry parent : Uint256) (add : Bool) : TxMemPool :=
  let l := pool.links entry
  let parents := if add then l.parents.insert parent else l.parents.erase parent
  { pool with mapLinks := pool.mapLinks.insert entry { l with parents } }

def searchParents (limitAncestorCount : Option Nat) :
    List OutPoint → SetEntries → SetEntries × Option LimitError
  | [], parentHashes => (parentHashes, none)
  | prevout :: vin, parentHashes =>
    if pool.exists_ prevout.hash then
      let parentHashes := parentHashes.insert prevout.hash
      if exceeds (parentHashes.size + 1) limitAncestorCount then
        (parentHashes, some (.unconfirmedParents (limitAncestorCount.getD 0)))
      else searchParents limitAncestorCount vin parentHashes
    else searchParents limitAncestorCount vin parentHashes

def stageParents (limitAncestorCount : Option Nat) (setAncestors : SetEntries) :
    List Uint256 → SetEntries → SetEntries × Option LimitError
  | [], parentHashes => (parentHashes, none)
  | phash :: rest, parentHashes =>
    let parentHashes := if phash ∈ setAncestors then parentHashes else parentHashes.insert phash
    if exceeds (parentHashes.size + setAncestors.size + 1) limitAncestorCount then
      (parentHashes, some (.unconfirmedAncestors (limitAncestorCount.getD 0)))
    else stageParents limitAncestorCount setAncestors rest parentHashes

def ancestorExceeds (entry : TxMemPoolEntry) (limits : Limits) (stageit : Uint256)
    (stage : TxMemPoolEntry) (totalSizeWithAncestors : Int) : Option LimitError :=
  if exceeds (stage.nSizeWithDescendants + entry.nTxSize) limits.descendantSize then
    some (.descendantSize stageit (limits.descendantSize.getD 0))
  else if exceeds (stage.nCountWithDescendants + 1) limits.descendantCount then
    some (.descendants stageit (limits.descendantCount.getD 0))
  else if exceeds totalSizeWithAncestors limits.ancestorSize then
    some (.ancestorSize (limits.ancestorSize.getD 0))
  else none

/-- The loop of `CalculateMemPoolAncestors`. What is found so far is returned also when a limit is
exceeded. -/
def ancestorLoop (entry : TxMemPoolEntry) (limits : Limits) :
    Nat → SetEntries → SetEntries → Int → Run (SetEntries × Option LimitError)
  | fuel, parentHashes, setAncestors, totalSizeWithAncestors =>
    match parentHashes.toList.head?, fuel with
    | none, _ => .ok (setAncestors, none)
    | some _, 0 => .error (.fault .undefined)
    | some stageit, fuel + 1 => do
      let setAncestors := setAncestors.insert stageit
      let parentHashes := parentHashes.erase stageit
      let stage ← demand .undefined pool.mapTx[stageit]?
      let totalSizeWithAncestors := totalSizeWithAncestors + stage.nTxSize
      match ancestorExceeds entry limits stageit stage totalSizeWithAncestors with
      | some err => return (setAncestors, some err)
      | none =>
        let setMemPoolParents ← pool.getMemPoolParents stageit
        match stageParents limits.ancestorCount setAncestors setMemPoolParents.toList
            parentHashes with
        | (_, some err) => return (setAncestors, some err)
        | (parentHashes, none) =>
          ancestorLoop entry limits fuel parentHashes setAncestors totalSizeWithAncestors

variable [ChainHash]

def calculateMemPoolAncestors (entry : TxMemPoolEntry) (limits : Limits)
    (fSearchForParents : Bool) : Run (SetEntries × Option LimitError) :=
  if fSearchForParents then
    match pool.searchParents limits.ancestorCount entry.tx.vin ∅ with
    | (_, some err) => .ok (∅, some err)
    | (parentHashes, none) =>
      pool.ancestorLoop entry limits pool.mapTx.size parentHashes ∅ entry.nTxSize
  else do
    let parentHashes ← pool.getMemPoolParents entry.tx.getHash
    pool.ancestorLoop entry limits pool.mapTx.size parentHashes ∅ entry.nTxSize

def descendantLoop : Nat → SetEntries → SetEntries → Run SetEntries
  | fuel, stage, setDescendants =>
    match stage.toList.head?, fuel with
    | none, _ => .ok setDescendants
    | some _, 0 => .error (.fault .undefined)
    | some it, fuel + 1 => do
      let setDescendants := setDescendants.insert it
      let setChildren ← pool.getMemPoolChildren it
      let stage := setChildren.toList.foldl
        (fun stage childiter =>
          if childiter ∈ setDescendants then stage else stage.insert childiter)
        (stage.erase it)
      descendantLoop fuel stage setDescendants

def calculateDescendants (entryit : Uint256) (setDescendants : SetEntries) : Run SetEntries :=
  pool.descendantLoop pool.mapTx.size
    (if entryit ∈ setDescendants then ∅ else ExtTreeSet.empty.insert entryit) setDescendants

def updateAncestorsOf (add : Bool) (it : Uint256) (setAncestors : SetEntries) :
    Run TxMemPool := do
  let parentIters ← pool.getMemPoolParents it
  let pool := parentIters.toList.foldl (fun pool piter => pool.updateChild piter it add) pool
  let e ← demand .undefined pool.mapTx[it]?
  let updateCount : Int := if add then 1 else -1
  let updateSize := updateCount * e.nTxSize
  let updateFee := .ofInt 64 updateCount * e.getModifiedFee
  setAncestors.toList.foldlM
    (fun pool ancestorIt =>
      pool.modify ancestorIt (·.updateDescendantState updateSize updateFee updateCount))
    pool

def updateEntryForAncestors (it : Uint256) (setAncestors : SetEntries) : Run TxMemPool := do
  let ancestors ← setAncestors.toList.mapM fun ancestorIt =>
    demand .undefined pool.mapTx[ancestorIt]?
  let updateCount : Int := setAncestors.size
  let updateSize : Int := (ancestors.map fun e => (e.nTxSize : Int)).sum
  let updateFee := (ancestors.map (·.getModifiedFee)).sum
  let updateSigOps : Int := (ancestors.map fun e => (e.sigOpCount : Int)).sum
  pool.modify it (·.updateAncestorState updateSize updateFee updateCount updateSigOps)

def updateChildrenForRemoval (it : Uint256) : Run TxMemPool := do
  let setMemPoolChildren ← pool.getMemPoolChildren it
  return setMemPoolChildren.toList.foldl
    (fun pool updateIt => pool.updateParent updateIt it false) pool

def updateDescendantsOf (removeIt : Uint256) : Run TxMemPool := do
  let setDescendants ← pool.calculateDescendants removeIt ∅
  let e ← demand .undefined pool.mapTx[removeIt]?
  (setDescendants.erase removeIt).toList.foldlM
    (fun pool dit =>
      pool.modify dit (·.updateAncestorState (-e.nTxSize) (-e.getModifiedFee) (-1) (-e.sigOpCount)))
    pool

def updateAncestorsForRemoval (removeIt : Uint256) : Run TxMemPool := do
  let entry ← demand .undefined pool.mapTx[removeIt]?
  let (setAncestors, _) ← pool.calculateMemPoolAncestors entry {} false
  pool.updateAncestorsOf false removeIt setAncestors

def updateDescendantStates (entriesToRemove : SetEntries) (updateDescendants : Bool) :
    Run TxMemPool :=
  if updateDescendants then
    entriesToRemove.toList.foldlM (fun pool removeIt => pool.updateDescendantsOf removeIt) pool
  else .ok pool

def updateForRemoveFromMempool (entriesToRemove : SetEntries) (updateDescendants : Bool) :
    Run TxMemPool := do
  let pool ← pool.updateDescendantStates entriesToRemove updateDescendants
  let pool ← entriesToRemove.toList.foldlM
    (fun pool removeIt => pool.updateAncestorsForRemoval removeIt) pool
  entriesToRemove.toList.foldlM (fun pool removeIt => pool.updateChildrenForRemoval removeIt) pool

end TxMemPool
end Mempool
end Trivechain
