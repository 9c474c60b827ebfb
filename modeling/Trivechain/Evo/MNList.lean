import Trivechain.Lib.Index
import Trivechain.Evo.MNState

/-!
# The deterministic masternode list

`CDeterministicMNList` with the operations that change it. Next to the map of
masternodes it keeps two indexes by hand: from internal ids, and from the hashes of
properties that no two masternodes may share.
-/

namespace Trivechain.Evo
open Bls Nat Run
open Std (ExtTreeMap)

structure DeterministicMN where
  proTxHash : Uint256
  internalId : Nat
  collateralOutpoint : OutPoint
  nOperatorReward : Nat
  pdmnState : DeterministicMNState
deriving DecidableEq

inductive UniqueProperty where
  | collateralOutpoint (o : OutPoint)
  | addr (s : Service)
  | keyIDOwner (k : KeyID)
  | pubKeyOperator (p : Option PubKey)
deriving DecidableEq

def UniqueProperty.isNull : UniqueProperty → Bool
  | .collateralOutpoint o => o == .null
  | .addr s => s == .null
  | .keyIDOwner k => k == 0
  | .pubKeyOperator p => p.isNone

/-- `SerializeHash` of these values. They serialise to strings of different lengths, so one
injective function stands for it. -/
class PropertyHash where
  serializeHash : UniqueProperty → Uint256
  injective : Function.Injective serializeHash

def UniqueProperty.encode : UniqueProperty → Nat
  | .collateralOutpoint o => 4 * pair o.hash o.n
  | .addr s => 4 * pair s.ip s.port + 1
  | .keyIDOwner k => 4 * k + 2
  | .pubKeyOperator none => 3
  | .pubKeyOperator (some p) => 4 * p + 7

lemma UniqueProperty.encode_injective : Function.Injective encode := by
  intro v w he
  rcases v with ⟨h, n⟩ | ⟨i, p⟩ | k | _ | p <;> rcases w with ⟨h', n'⟩ | ⟨i', p'⟩ | k' | _ | p' <;>
    simp only [encode] at he <;> try (exfalso; omega)
  · obtain ⟨rfl, rfl⟩ := pair_eq_pair.1 (show pair h n = pair h' n' by omega)
    rfl
  · obtain ⟨rfl, rfl⟩ := pair_eq_pair.1 (show pair i p = pair i' p' by omega)
    rfl
  · rw [show @Eq Nat k k' by omega]
  · rfl
  · rw [show @Eq Nat p p' by omega]

@[reducible] def encodingHash : PropertyHash := ⟨UniqueProperty.encode, UniqueProperty.encode_injective⟩

open PropertyHash (serializeHash)

structure DeterministicMNList where
  blockHash : Uint256 := 0
  nHeight : Int := -1
  nTotalRegisteredCount : Nat := 0
  mnMap : ExtTreeMap Uint256 DeterministicMN := ∅
  mnInternalIdMap : ExtTreeMap Nat Uint256 := ∅
  mnUniquePropertyMap : OwnerIndex Uint256 Uint256 := ∅

def DeterministicMN.isPoSeBanned (dmn : DeterministicMN) : Bool :=
  dmn.pdmnState.nPoSeBanHeight != -1

def DeterministicMN.isValid (dmn : DeterministicMN) : Bool := !dmn.isPoSeBanned

namespace DeterministicMNList
variable [PropertyHash] (l : DeterministicMNList)

def getMN (proTxHash : Uint256) : Option DeterministicMN := l.mnMap[proTxHash]?

/-- `ForEachMN(false)`, in the order of the model's map. -/
def allMNs : List DeterministicMN := Maps.values l.mnMap

/-- `ForEachMN(true)` -/
def validMNs : List DeterministicMN := l.allMNs.filter DeterministicMN.isValid

def getAllMNsCount : Nat := l.mnMap.size

def getValidMNsCount : Nat := l.validMNs.length

def getMNByInternalId (internalId : Nat) : Option DeterministicMN :=
  (l.mnInternalIdMap[internalId]?).bind l.getMN

def hasUniqueProperty (v : UniqueProperty) : Bool :=
  (l.mnUniquePropertyMap[serializeHash v]?).isSome

def getUniquePropertyMN (v : UniqueProperty) : Option DeterministicMN :=
  (l.mnUniquePropertyMap[serializeHash v]?).bind fun p => l.getMN p.1

def getMNByCollateral (o : OutPoint) : Option DeterministicMN :=
  l.getUniquePropertyMN (.collateralOutpoint o)

def addUniqueProperty (proTxHash : Uint256) (v : UniqueProperty) : Run DeterministicMNList := do
  ensure (v.isNull = false)
  let idx ← l.mnUniquePropertyMap.add (serializeHash v) proTxHash
  return { l with mnUniquePropertyMap := idx }

def deleteUniqueProperty (proTxHash : Uint256) (oldValue : UniqueProperty) :
    Run DeterministicMNList := do
  ensure (oldValue.isNull = false)
  let idx ← l.mnUniquePropertyMap.delete (serializeHash oldValue) proTxHash
  return { l with mnUniquePropertyMap := idx }

/-- `if (v != nullValue) AddUniqueProperty(dmn, v)` -/
def addIfSet (proTxHash : Uint256) (v : UniqueProperty) : Run DeterministicMNList :=
  if v.isNull then .ok l else l.addUniqueProperty proTxHash v

/-- `if (v != nullValue) DeleteUniqueProperty(dmn, v)` -/
def deleteIfSet (proTxHash : Uint256) (v : UniqueProperty) : Run DeterministicMNList :=
  if v.isNull then .ok l else l.deleteUniqueProperty proTxHash v

def updateUniqueProperty (proTxHash : Uint256) (oldValue newValue : UniqueProperty) :
    Run DeterministicMNList :=
  if oldValue = newValue then .ok l
  else do
    let l ← l.deleteIfSet proTxHash oldValue
    l.addIfSet proTxHash newValue

def addMN (dmn : DeterministicMN) : Run DeterministicMNList := do
  ensure (l.mnMap[dmn.proTxHash]? = none)
  let l := { l with
    mnMap := l.mnMap.insert dmn.proTxHash dmn
    mnInternalIdMap := l.mnInternalIdMap.insert dmn.internalId dmn.proTxHash }
  let l ← l.addUniqueProperty dmn.proTxHash (.collateralOutpoint dmn.collateralOutpoint)
  let l ← l.addIfSet dmn.proTxHash (.addr dmn.pdmnState.addr)
  let l ← l.addUniqueProperty dmn.proTxHash (.keyIDOwner dmn.pdmnState.keyIDOwner)
  l.addIfSet dmn.proTxHash (.pubKeyOperator dmn.pdmnState.pubKeyOperator)

/-- The calls of `UpdateUniqueProperty` that end `UpdateMN`. -/
def updateUniqueProperties (proTxHash : Uint256) (oldState pdmnState : DeterministicMNState) :
    Run DeterministicMNList := do
  let l ← l.updateUniqueProperty proTxHash (.addr oldState.addr) (.addr pdmnState.addr)
  let l ← l.updateUniqueProperty proTxHash (.keyIDOwner oldState.keyIDOwner)
    (.keyIDOwner pdmnState.keyIDOwner)
  l.updateUniqueProperty proTxHash (.pubKeyOperator oldState.pubKeyOperator)
    (.pubKeyOperator pdmnState.pubKeyOperator)

/-- The overload for a masternode object. -/
def updateMNOf (oldDmn : DeterministicMN) (pdmnState : DeterministicMNState) :
    Run DeterministicMNList :=
  let l := { l with mnMap := l.mnMap.insert oldDmn.proTxHash { oldDmn with pdmnState } }
  l.updateUniqueProperties oldDmn.proTxHash oldDmn.pdmnState pdmnState

/-- The overload for a registration hash. -/
def updateMN (proTxHash : Uint256) (pdmnState : DeterministicMNState) :
    Run DeterministicMNList := do
  let oldDmn ← demand .assertion (l.mnMap[proTxHash]?)
  l.updateMNOf oldDmn pdmnState

/-- The overload for a masternode object, which may be missing, and a difference of states. -/
def updateMNDiff (oldDmn : Option DeterministicMN) (stateDiff : DeterministicMNStateDiff) :
    Run DeterministicMNList := do
  let oldDmn ← demand .assertion oldDmn
  l.updateMNOf oldDmn (stateDiff.applyToState oldDmn.pdmnState)

def removeMN (proTxHash : Uint256) : Run DeterministicMNList := do
  let dmn ← demand .assertion (l.getMN proTxHash)
  let l ← l.deleteUniqueProperty dmn.proTxHash (.collateralOutpoint dmn.collateralOutpoint)
  let l ← l.deleteIfSet dmn.proTxHash (.addr dmn.pdmnState.addr)
  let l ← l.deleteUniqueProperty dmn.proTxHash (.keyIDOwner dmn.pdmnState.keyIDOwner)
  let l ← l.deleteIfSet dmn.proTxHash (.pubKeyOperator dmn.pdmnState.pubKeyOperator)
  return { l with
    mnMap := l.mnMap.erase proTxHash
    mnInternalIdMap := l.mnInternalIdMap.erase dmn.internalId }

def calcMaxPoSePenalty : Int := max 100 l.getAllMNsCount

def calcPenalty (percent : Int) : Run Int := do
  ensure (0 < percent)
  return l.calcMaxPoSePenalty * percent / 100

/-- The state that `PoSePunish` gives to a masternode. -/
def punishedState (s : DeterministicMNState) (penalty : Int) : DeterministicMNState :=
  let maxPenalty := l.calcMaxPoSePenalty
  let newState := { s with nPoSePenalty := min maxPenalty (s.nPoSePenalty + penalty) }
  if maxPenalty ≤ newState.nPoSePenalty ∧ newState.nPoSeBanHeight = -1 then
    { newState with nPoSeBanHeight := l.nHeight }
  else newState

def poSePunish (proTxHash : Uint256) (penalty : Int) : Run DeterministicMNList := do
  ensure (0 < penalty)
  let dmn ← demand .assertion (l.getMN proTxHash)
  l.updateMN proTxHash (l.punishedState dmn.pdmnState penalty)

def poSeDecrease (proTxHash : Uint256) : Run DeterministicMNList := do
  let dmn ← demand .assertion (l.getMN proTxHash)
  ensure (0 < dmn.pdmnState.nPoSePenalty ∧ dmn.pdmnState.nPoSeBanHeight = -1)
  l.updateMN proTxHash { dmn.pdmnState with nPoSePenalty := dmn.pdmnState.nPoSePenalty - 1 }

end DeterministicMNList
end Trivechain.Evo
