import Trivechain.Evo.BuildList
import Trivechain.Llmq.MinedCommitments

/-!
# The Merkle root of the active quorums

`CalcCbTxMerkleRootQuorums` hashes the commitments of the active quorums and of the block. The
hashes of the mined ones are kept in a static cache with their quorums, which is used again whenever
the active quorums are the same. This does not change the root as long as the cache is `Current`:
for no cached quorum the database has another commitment than the one that was hashed.
-/

namespace Trivechain.Evo
open Bls Llmq CommitmentHash Option
open Run (demand ensure)
open Std (ExtTreeMap)

/-- `ComputeMerkleRoot`, with the flag for a mutated list. -/
class MerkleRoot where
  computeMerkleRoot : List Uint256 → Uint256 × Bool

section QuorumRoots
variable [ChainHash] [CommitmentHash] [MerkleRoot] (env : Env)

structure QcHashCache where
  quorumsCached : ExtTreeMap LLMQType (List BlockIndex) := ∅
  qcHashesCached : ExtTreeMap LLMQType (List Uint256) := ∅

def minedHash (t : MinedTables) (llmqType : LLMQType) (quorum : BlockIndex) : Run Uint256 := do
  let (qc, _) ← demand .assertion t.mined[(llmqType, quorum.getBlockHash)]?
  return serializeHash qc

def minedHashes (t : MinedTables) (quorums : ExtTreeMap LLMQType (List BlockIndex)) :
    Run (ExtTreeMap LLMQType (List Uint256)) :=
  quorums.toList.foldlM (fun qcHashes p => do
    let v ← p.2.mapM (minedHash t p.1)
    return qcHashes.insert p.1 v) ∅

def addBlockHash (qcHashes : ExtTreeMap LLMQType (List Uint256)) (tx : Transaction) :
    Run (ExtTreeMap LLMQType (List Uint256)) :=
  match tx.nVersion, tx.payload with
  | 3, .quorumCommitment payload => do
    let qc ← demand .assertion payload
    if qc.commitment.isNull then return qcHashes
    else
      let qcHash := serializeHash qc.commitment
      let params ← env.consensus.getLLMQ qc.commitment.llmqType
      let v := qcHashes.getD params.type []
      let v := (if v.length = params.signingActiveQuorumCount then v.dropLast else v) ++ [qcHash]
      ensure (v.length ≤ params.signingActiveQuorumCount)
      return qcHashes.insert params.type v
  | _, _ => .ok qcHashes

/-- The end of `CalcCbTxMerkleRootQuorums`, from the hashes of the mined commitments on. -/
def rootOfHashes (block : Block) (qcHashes : ExtTreeMap LLMQType (List Uint256)) :
    Run (Uint256 × Bool) := do
  let qcHashes ← block.txs.foldlM (addBlockHash env) qcHashes
  let qcHashesVec := (Maps.values qcHashes).flatten.mergeSort
  let (root, mutated) := MerkleRoot.computeMerkleRoot qcHashesVec
  return (root, !mutated)

def calcCbTxMerkleRootQuorums (t : MinedTables) (cache : QcHashCache) (block : Block)
    (pindexPrev : BlockIndex) : Run ((Uint256 × Bool) × QcHashCache) := do
  let quorums ← t.getMinedAndActiveCommitmentsUntilBlock env pindexPrev
  if quorums.toList = cache.quorumsCached.toList then
    let root ← rootOfHashes env block cache.qcHashesCached
    return (root, cache)
  else
    let qcHashes ← minedHashes t quorums
    let root ← rootOfHashes env block qcHashes
    return (root, ⟨quorums, qcHashes⟩)

/-- The root without the cache: every mined commitment is read. -/
def freshRootQuorums (t : MinedTables) (block : Block) (pindexPrev : BlockIndex) :
    Run (Uint256 × Bool) := do
  let quorums ← t.getMinedAndActiveCommitmentsUntilBlock env pindexPrev
  let qcHashes ← minedHashes t quorums
  rootOfHashes env block qcHashes

section Cache
variable {env} {t t' : MinedTables} {cache cache' : QcHashCache} {block : Block}
  {tip : BlockIndex} {quorums : ExtTreeMap LLMQType (List BlockIndex)}

/-- The cached hashes are those of commitments that were `known` for the cached quorums; if the
database has one for such a quorum, it is the same. -/
def QcHashCache.Current (cache : QcHashCache) (t : MinedTables) : Prop :=
  ∃ known : LLMQType → BlockIndex → Uint256,
    cache.qcHashesCached = cache.quorumsCached.map (fun type l => l.map (known type)) ∧
    ∀ (type : LLMQType) (l : List BlockIndex), cache.quorumsCached[type]? = some l →
      ∀ quorum ∈ l, ∀ e : FinalCommitment × Uint256,
        t.mined[(type, quorum.getBlockHash)]? = some e →
        serializeHash e.1 = known type quorum

omit [MerkleRoot] in
lemma QcHashCache.Current.mono (h : cache.Current t)
    (hs : ∀ (type : LLMQType) (l : List BlockIndex), cache.quorumsCached[type]? = some l →
      ∀ quorum ∈ l, ∀ e : FinalCommitment × Uint256,
        t'.mined[(type, quorum.getBlockHash)]? = some e →
        t.mined[(type, quorum.getBlockHash)]? = some e) : cache.Current t' := by
  obtain ⟨known, hh, hk⟩ := h
  refine ⟨known, hh, fun type l hl quorum hq e he => ?_⟩
  exact hk type l hl quorum hq e (hs type l hl quorum hq e he)

def AllMined (t : MinedTables) (quorums : ExtTreeMap LLMQType (List BlockIndex)) : Prop :=
  ∀ (type : LLMQType) (l : List BlockIndex), quorums[type]? = some l → ∀ quorum ∈ l,
    (t.mined[(type, quorum.getBlockHash)]?).isSome

def hashIn (t : MinedTables) (type : LLMQType) (quorum : BlockIndex) : Uint256 :=
  (t.mined[(type, quorum.getBlockHash)]?).elim 0 fun e => serializeHash e.1

omit [MerkleRoot] in
lemma minedHashes_eq (h : AllMined t quorums) :
    minedHashes t quorums = .ok (quorums.map fun type l => l.map (hashIn t type)) := by
  refine Maps.foldlM_insert_toList (m := Run) (t := quorums)
    (f := fun type l => l.mapM (minedHash t type)) fun type l hl =>
    Run.mapM_eq_ok fun quorum hq => ?_
  obtain ⟨e, he⟩ := isSome_iff_exists.1 (h type l hl quorum hq)
  simp [minedHash, hashIn, he]

omit [MerkleRoot] in
lemma map_hashIn_eq (h : AllMined t quorums) {known : LLMQType → BlockIndex → Uint256}
    (hk : ∀ (type : LLMQType) (l : List BlockIndex), quorums[type]? = some l →
      ∀ quorum ∈ l, ∀ e : FinalCommitment × Uint256,
        t.mined[(type, quorum.getBlockHash)]? = some e → serializeHash e.1 = known type quorum) :
    quorums.map (fun type l => l.map (hashIn t type)) =
      quorums.map fun type l => l.map (known type) := by
  refine ExtTreeMap.ext_getElem? fun type => ?_
  rw [ExtTreeMap.getElem?_map, ExtTreeMap.getElem?_map]
  cases hl : quorums[type]? with
  | none => rfl
  | some l =>
    refine congrArg some (List.map_congr_left fun quorum hq => ?_)
    obtain ⟨e, he⟩ := isSome_iff_exists.1 (h type l hl quorum hq)
    rw [hashIn, he, elim_some]
    exact hk type l hl quorum hq e he

/-- With a current cache the root is the fresh one, and the cache is current again and holds the
active quorums. -/
lemma calc_spec (hs : Stored env tip t) (hc : cache.Current t) :
    (calcCbTxMerkleRootQuorums env t cache block tip).map Prod.fst =
      freshRootQuorums env t block tip ∧
    ∀ root cache', calcCbTxMerkleRootQuorums env t cache block tip = .ok (root, cache') →
      cache'.Current t ∧ AllMined t cache'.quorumsCached := by
  unfold calcCbTxMerkleRootQuorums freshRootQuorums
  cases hr : t.getMinedAndActiveCommitmentsUntilBlock env tip with
  | error e => exact ⟨rfl, fun _ _ h => by cases h⟩
  | ok quorums =>
    have hm : AllMined t quorums := fun type l hl quorum hq =>
      hs.active_mined hr hl hq
    simp only [Run.ok_bind, minedHashes_eq hm]
    split_ifs with ht
    · obtain rfl : quorums = cache.quorumsCached := ExtTreeMap.ext_toList (ht ▸ .refl _)
      obtain ⟨known, hh, hk⟩ := hc
      rw [map_hashIn_eq hm hk, ← hh]
      refine ⟨by cases rootOfHashes env block cache.qcHashesCached <;> rfl, fun root cache' h => ?_⟩
      obtain ⟨_, -, h⟩ := Run.bind_ok.1 h
      obtain ⟨-, rfl⟩ := Prod.mk.inj (Except.ok.inj h)
      exact ⟨⟨known, hh, hk⟩, hm⟩
    · refine ⟨by cases rootOfHashes env block _ <;> rfl, fun root cache' h => ?_⟩
      obtain ⟨_, -, h⟩ := Run.bind_ok.1 h
      obtain ⟨-, rfl⟩ := Prod.mk.inj (Except.ok.inj h)
      refine ⟨⟨hashIn t, rfl, fun type l hl quorum hq e he => ?_⟩, hm⟩
      rw [hashIn, he, elim_some]

variable (cache block) in
/-- The root is the same from the tables with the commitments of the block and from those before. -/
lemma calc_congr (hs : Stored env tip t)
    (hb : ∀ (type : LLMQType) (height : Nat), height ≤ tip.nHeight →
      t'.byHeight[(type, height)]? = t.byHeight[(type, height)]?)
    (hm : ∀ (k : LLMQType × Uint256) (e : FinalCommitment × Uint256), t.mined[k]? = some e →
      t'.mined[k]? = some e) :
    calcCbTxMerkleRootQuorums env t' cache block tip =
      calcCbTxMerkleRootQuorums env t cache block tip ∧
    freshRootQuorums env t' block tip = freshRootQuorums env t block tip := by
  unfold calcCbTxMerkleRootQuorums freshRootQuorums
  rw [MinedTables.getMinedAndActiveCommitmentsUntilBlock_congr hb]
  cases hr : t.getMinedAndActiveCommitmentsUntilBlock env tip with
  | error e => exact ⟨rfl, rfl⟩
  | ok quorums =>
    have ha : AllMined t quorums := fun type l hl quorum hq =>
      hs.active_mined hr hl hq
    have ha' : AllMined t' quorums := by
      intro type l hl quorum hq
      obtain ⟨e, he⟩ := isSome_iff_exists.1 (ha type l hl quorum hq)
      rw [hm _ e he, isSome_some]
    have hh : minedHashes t' quorums = minedHashes t quorums := by
      rw [minedHashes_eq ha, minedHashes_eq ha', map_hashIn_eq ha fun type l hl quorum _ e he => ?_]
      rw [hashIn, hm _ e he, elim_some]
    simp only [Run.ok_bind, hh, and_self]

end Cache
end QuorumRoots
end Trivechain.Evo
