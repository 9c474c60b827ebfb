import Trivechain.Llmq.BlockProcessor

/-!
# Mined commitments of a chain

What the tables of mined commitments hold after the blocks of a chain, and how they are read. Blocks
up to height 465000 leave no trace in them; above it each block adds the commitments it brings,
under keys that were free. So an undone block leaves the tables as they were, and every quorum found
under a height has its commitment.
-/

namespace Trivechain.Evo

/-- `mapBlockIndex` has its entries under their hashes. -/
def ChainView.Keyed [ChainHash] (view : ChainView) : Prop :=
  ∀ hash pindex, view.findBlock hash = some pindex → pindex.getBlockHash = hash

lemma BlockIndex.eq_of_getBlockHash_eq [ChainHash] {p q : BlockIndex}
    (h : p.getBlockHash = q.getBlockHash) : p = q := ChainHash.blockHash_injective h

end Trivechain.Evo

namespace Trivechain.Llmq
open Bls Evo Run Maps BlockIndex Option QuorumBlockProcessor
open Std (ExtTreeMap)

namespace MinedTables
variable (t : MinedTables)

/-- What the iterator of `GetMinedCommitmentsUntilBlock` meets: the entries of the type from the
height of the block down to 1. -/
def minedUntil (llmqType : LLMQType) (nHeight : Nat) : List ((LLMQType × Nat) × Nat) :=
  (t.byHeight.toList.filter fun p =>
    p.1.1 = llmqType ∧ 0 < p.1.2 ∧ p.1.2 ≤ nHeight).reverse

def getMinedCommitmentsUntilBlock (llmqType : LLMQType) (pindex : BlockIndex) (maxCount : Nat) :
    Run (List BlockIndex) :=
  ((t.minedUntil llmqType pindex.nHeight).take maxCount).mapM fun p =>
    demand .assertion (pindex.getAncestor p.2)

def getMinedAndActiveCommitmentsUntilBlock (env : Env) (pindex : BlockIndex) :
    Run (ExtTreeMap LLMQType (List BlockIndex)) :=
  env.consensus.llmqs.foldlM (fun ret params => do
    let commitments ← t.getMinedCommitmentsUntilBlock params.type pindex
      params.signingActiveQuorumCount
    return ret.insert params.type commitments) ∅

end MinedTables

open MinedTables
variable [ChainHash] {env : Env}

section Block
variable {view : ChainView} {chainActive prev : BlockIndex} {nHeight : Nat}
  {hash : Uint256} {qcs : List FinalCommitment} {t t' : MinedTables}

lemma ProcessedAll.keeps (h : ProcessedAll env view chainActive nHeight hash t qcs t') :
    (∀ (type : LLMQType) (height : Nat), height ≠ nHeight →
      t'.byHeight[(type, height)]? = t.byHeight[(type, height)]?) ∧
    ∀ (k : LLMQType × Uint256) (e : FinalCommitment × Uint256), t.mined[k]? = some e →
      t'.mined[k]? = some e := by
  induction h with
  | nil => exact ⟨fun _ _ _ => rfl, fun _ _ h => h⟩
  | snoc hi hl ih =>
    obtain ⟨hb, hm⟩ := ih
    cases hl with
    | unchecked | null => exact ⟨hb, hm⟩
    | @stored params quorumIndex members hs hnl hn =>
      refine ⟨fun type height he => ?_, fun k e hk => ?_⟩
      · rw [store, getElem?_insert, if_neg (by simp [he])]
        exact hb type height he
      · have hk := hm k e hk
        rw [store, getElem?_insert, if_neg ?_]
        · exact hk
        · rintro rfl
          exact hn (ExtTreeMap.mem_iff_isSome_getElem?.2 (by simp [hk]))

lemma ProcessedAll.byHeight_some (hv : view.Keyed)
    (h : ProcessedAll env view chainActive nHeight hash t qcs t') {type : LLMQType}
    {height quorumHeight : Nat} (hen : t'.byHeight[(type, height)]? = some quorumHeight) :
    t.byHeight[(type, height)]? = some quorumHeight ∨
    (commitmentCheckHeight < nHeight ∧ height = nHeight ∧
      ∃ anc, chainActive.getAncestor quorumHeight = some anc ∧
        (t'.mined[(type, anc.getBlockHash)]?).isSome) := by
  induction h with
  | nil => exact .inl hen
  | @snoc qcs qc t1 t2 hin hl ih =>
    have hkp : ∀ (k : LLMQType × Uint256), (t1.mined[k]?).isSome → (t2.mined[k]?).isSome := by
      intro k hk
      obtain ⟨e, he⟩ := isSome_iff_exists.1 hk
      rw [(ProcessedAll.snoc .nil hl).keeps.2 k e he, isSome_some]
    have hold : t1.byHeight[(type, height)]? = some quorumHeight →
        t.byHeight[(type, height)]? = some quorumHeight ∨
        (commitmentCheckHeight < nHeight ∧ height = nHeight ∧
          ∃ anc, chainActive.getAncestor quorumHeight = some anc ∧
            (t2.mined[(type, anc.getBlockHash)]?).isSome) := by
      intro hen
      rcases ih hen with h | ⟨hc, hg, anc, ha, hm⟩
      · exact .inl h
      · exact .inr ⟨hc, hg, anc, ha, hkp _ hm⟩
    cases hl with
    | unchecked | null => exact hold hen
    | @stored params quorumIndex members hs hn hw hp hi =>
      rw [store, getElem?_insert] at hen
      split_ifs at hen with hy
      · obtain ⟨rfl, rfl⟩ := Prod.mk.inj hy
        obtain ⟨anc, ha, hh⟩ := hs.quorum
        obtain rfl : quorumIndex = anc := eq_of_getBlockHash_eq ((hv _ _ hi).trans hh.symm)
        cases hen
        refine .inr ⟨hs.checked, rfl, quorumIndex, ?_, ?_⟩
        · rw [nHeight_of_getAncestor ha]
          exact ha
        · rw [hh, store, getElem?_insert, if_pos rfl, isSome_some]
      · exact hold hen

lemma ProcessedAll.eq_of_le (h : ProcessedAll env view chainActive nHeight hash t qcs t')
    (hh : nHeight ≤ commitmentCheckHeight) : t' = t := by
  induction h with
  | nil => rfl
  | snoc hi hl ih =>
    cases hl with
    | unchecked => exact ih
    | null hs | stored hs => exact absurd hs.checked (by omega)

lemma ProcessedAll.eq_of_null (h : ProcessedAll env view chainActive nHeight hash t qcs t')
    (hn : ∀ qc ∈ qcs, qc.isNull = true) : t' = t := by
  induction h with
  | nil => rfl
  | snoc hi hl ih =>
    have hi := ih fun qc hq => hn qc (List.mem_append_left _ hq)
    cases hl with
    | unchecked | null => exact hi
    | stored _ he => simp [hn _ (List.mem_append_right _ (List.mem_singleton_self _))] at he

def MinedTables.removeAll (t : MinedTables) (nHeight : Nat) (qcs : List FinalCommitment) :
    MinedTables :=
  qcs.foldl (fun t qc => if qc.isNull then t else t.remove nHeight qc) t

section

omit [ChainHash]

@[simp] lemma MinedTables.remove_mined (t : MinedTables) (qc : FinalCommitment) :
    (t.remove nHeight qc).mined = t.mined.erase (qc.llmqType, qc.quorumHash) := rfl

@[simp] lemma MinedTables.remove_byHeight (t : MinedTables) (qc : FinalCommitment) :
    (t.remove nHeight qc).byHeight = t.byHeight.erase (qc.llmqType, nHeight) := rfl

lemma MinedTables.removeAll_eq (t : MinedTables) (qcs : List FinalCommitment) :
    t.removeAll nHeight qcs =
      ⟨((qcs.filter (!·.isNull)).map fun qc => (qc.llmqType, qc.quorumHash)).foldl
        (fun m k => m.erase k) t.mined,
      ((qcs.filter (!·.isNull)).map fun qc => (qc.llmqType, nHeight)).foldl
        (fun m k => m.erase k) t.byHeight⟩ := by
  unfold removeAll
  induction qcs generalizing t with
  | nil => rfl
  | cons qc qcs ih => by_cases hn : qc.isNull <;> simp [hn, ih]

lemma MinedTables.removeAll_empty (qcs : List FinalCommitment) :
    ({} : MinedTables).removeAll nHeight qcs = {} := by
  induction qcs with
  | nil => rfl
  | cons qc qcs ih =>
    have hr : ({} : MinedTables).remove nHeight qc = {} := by simp [remove]
    rw [removeAll, List.foldl_cons, hr, ite_self]
    exact ih

end

variable (h : ProcessedAll env view chainActive nHeight hash t qcs t')
include h

lemma ProcessedAll.mined_eq (hh : commitmentCheckHeight < nHeight) :
    (∀ qc ∈ qcs, qc.isNull = false → t.mined[(qc.llmqType, qc.quorumHash)]? = none) ∧
    (∀ k : LLMQType × Uint256,
      k ∉ (qcs.filter (!·.isNull)).map (fun qc => (qc.llmqType, qc.quorumHash)) →
      t'.mined[k]? = t.mined[k]?) ∧ ∀ k : LLMQType × Nat,
      k ∉ (qcs.filter (!·.isNull)).map (fun qc => (qc.llmqType, nHeight)) →
      t'.byHeight[k]? = t.byHeight[k]? := by
  induction h with
  | nil => simp
  | @snoc qcs qc t1 t2 hi hl ih =>
    obtain ⟨hf, hm, hb⟩ := ih
    simp only [List.filter_append, List.map_append, List.mem_append, not_or]
    cases hl with
    | unchecked hle => exact absurd hh (by omega)
    | null hs hn =>
      refine ⟨fun qc' hq' hne => ?_, fun k hk => hm k hk.1, fun k hk => hb k hk.1⟩
      rcases hq' with hq' | hq'
      · exact hf qc' hq' hne
      · obtain rfl := List.mem_singleton.1 hq'
        simp [hn] at hne
    | stored hs hn hw =>
      refine ⟨fun qc' hq' hne => ?_, fun k hk => ?_, fun k hk => ?_⟩
      · rcases hq' with hq' | hq'
        · exact hf qc' hq' hne
        · obtain rfl := List.mem_singleton.1 hq'
          by_contra hsm
          obtain ⟨e, he⟩ := ne_none_iff_exists'.1 hsm
          exact hw (ExtTreeMap.mem_iff_isSome_getElem?.2 (by simp [hi.keeps.2 _ e he]))
      · have hne : k ≠ (qc.llmqType, qc.quorumHash) := by simpa [hn] using hk.2
        rw [store, getElem?_insert, if_neg hne]
        exact hm k hk.1
      · have hne : k ≠ (qc.llmqType, nHeight) := by simpa [hn] using hk.2
        rw [store, getElem?_insert, if_neg hne]
        exact hb k hk.1

lemma ProcessedAll.mined_some {k : LLMQType × Uint256} {e : FinalCommitment × Uint256}
    (he : t'.mined[k]? = some e) : t.mined[k]? = some e ∨ (commitmentCheckHeight < nHeight ∧
      ∃ qc ∈ qcs, qc.isNull = false ∧ k = (qc.llmqType, qc.quorumHash) ∧ e = (qc, hash)) := by
  induction h with
  | nil => exact .inl he
  | @snoc qcs qc t1 t2 hi hl ih =>
    have hold : t1.mined[k]? = some e → t.mined[k]? = some e ∨ (commitmentCheckHeight < nHeight ∧
        ∃ qc' ∈ qcs ++ [qc], qc'.isNull = false ∧ k = (qc'.llmqType, qc'.quorumHash) ∧
          e = (qc', hash)) := by
      intro he
      rcases ih he with h | ⟨hc, qc', hq', hw⟩
      · exact .inl h
      · exact .inr ⟨hc, qc', List.mem_append_left _ hq', hw⟩
    cases hl with
    | unchecked | null => exact hold he
    | stored hs hn =>
      rw [store, getElem?_insert] at he
      split_ifs at he with hk
      · exact .inr ⟨hs.checked, qc, by simp, hn, hk, (some.inj he).symm⟩
      · exact hold he

lemma ProcessedAll.removeAll (hh : commitmentCheckHeight < nHeight)
    (hf : ∀ type : LLMQType, t.byHeight[(type, nHeight)]? = none) :
    t'.removeAll nHeight qcs = t := by
  obtain ⟨hr, hm, hb⟩ := h.mined_eq hh
  have hm' : (t'.removeAll nHeight qcs).mined = t.mined := by
    refine ExtTreeMap.ext_getElem? fun k => ?_
    rw [removeAll_eq, getElem?_foldl_erase]
    split_ifs with hk
    · obtain ⟨qc, hq, rfl⟩ := List.mem_map.1 hk
      obtain ⟨hq, hn⟩ := List.mem_filter.1 hq
      exact (hr qc hq (by simpa using hn)).symm
    · exact hm k hk
  have hb' : (t'.removeAll nHeight qcs).byHeight = t.byHeight := by
    refine ExtTreeMap.ext_getElem? fun k => ?_
    rw [removeAll_eq, getElem?_foldl_erase]
    split_ifs with hk
    · obtain ⟨qc, -, rfl⟩ := List.mem_map.1 hk
      exact (hf qc.llmqType).symm
    · exact hb k hk
  rw [show t = ⟨t.mined, t.byHeight⟩ from rfl, ← hm', ← hb']

end Block

omit [ChainHash] in
variable (env) in
def Quiet (nHeight : Nat) : Prop :=
  nHeight ≤ commitmentCheckHeight ∨ nHeight < env.consensus.DIP0003Height

omit [ChainHash] in
lemma Quiet.mono {h h' : Nat} (hq : Quiet env h') (hl : h ≤ h') : Quiet env h := by
  unfold Quiet at *
  omega

lemma BlockProcessed.eq_of_quiet {view : ChainView} {chainActive prev : BlockIndex}
    {block : Block} {t t' : MinedTables}
    (h : BlockProcessed env view chainActive prev block t t')
    (hq : Quiet env (prev.nHeight + 1)) : t' = t := by
  cases h with
  | inactive => rfl
  | active ha hc hl => exact hl.eq_of_le (hq.resolve_right (not_lt.2 ha))

variable (env) in
inductive Stored : BlockIndex → MinedTables → Prop
  | start (pindex : BlockIndex) (hquiet : Quiet env pindex.nHeight) : Stored pindex {}
  | next {pindexPrev : BlockIndex} {t t' : MinedTables} {view : ChainView} {block : Block}
    {qcs : ExtTreeMap LLMQType FinalCommitment} (hprev : Stored pindexPrev t) (hview : view.Keyed)
    (hloud : ¬ Quiet env (pindexPrev.nHeight + 1))
    (hqcs : getCommitmentsFromBlock env block (pindexPrev.nHeight + 1) = .ok qcs)
    (hall : ProcessedAll env view pindexPrev (pindexPrev.nHeight + 1)
      (pindexPrev.next block).getBlockHash t (Maps.values qcs) t') :
    Stored (pindexPrev.next block) t'

namespace Stored
variable {tip prev : BlockIndex} {t t' : MinedTables} {view : ChainView} {block : Block}

lemma eq_empty (h : Stored env tip t) (hq : Quiet env tip.nHeight) : t = {} := by
  cases h with
  | start => rfl
  | next _ _ hl => exact absurd hq hl

lemma of_next (h : Stored env (prev.next block) t) : (Quiet env (prev.nHeight + 1) ∧ t = {}) ∨
    ∃ t0 view qcs, Stored env prev t0 ∧ ¬ Quiet env (prev.nHeight + 1) ∧
      getCommitmentsFromBlock env block (prev.nHeight + 1) = .ok qcs ∧
      ProcessedAll env view prev (prev.nHeight + 1)
        (prev.next block).getBlockHash t0 (Maps.values qcs) t := by
  generalize hp : prev.next block = pindex at h
  cases h with
  | start _ hq =>
    subst hp
    exact .inl ⟨hq, rfl⟩
  | @next pindexPrev' t0 _ view block' qcs hr hv hl hc ha =>
    obtain ⟨rfl, rfl⟩ : block = block' ∧ prev = pindexPrev' := by
      obtain ⟨hbl, hb⟩ := BlockIndex.mk.inj hp
      exact ⟨hbl, chain_injective hb⟩
    exact .inr ⟨t0, view, qcs, hr, hl, hc, ha⟩

lemma byHeight_some (h : Stored env tip t) {type : LLMQType} {height quorumHeight : Nat}
    (hn : t.byHeight[(type, height)]? = some quorumHeight) :
    height ≤ tip.nHeight ∧ ∃ anc, tip.getAncestor quorumHeight = some anc ∧
      (t.mined[(type, anc.getBlockHash)]?).isSome := by
  induction h with
  | start => simp at hn
  | next hp hv hl hq hal ih =>
    rcases hal.byHeight_some hv hn with hold | ⟨-, rfl, anc, ha, hm⟩
    · obtain ⟨hle, anc, ha, hm⟩ := ih hold
      obtain ⟨e, he⟩ := isSome_iff_exists.1 hm
      refine ⟨Nat.le_succ_of_le hle, anc, getAncestor_next ha, ?_⟩
      rw [hal.keeps.2 _ e he, isSome_some]
    · exact ⟨le_rfl, anc, getAncestor_next ha, hm⟩

lemma byHeight_above (h : Stored env tip t) (type : LLMQType) {height : Nat}
    (hh : tip.nHeight < height) : t.byHeight[(type, height)]? = none := by
  by_contra hs
  obtain ⟨quorumHeight, he⟩ := ne_none_iff_exists'.1 hs
  have := (h.byHeight_some he).1
  omega

lemma blockProcessed (h : Stored env prev t) (hv : view.Keyed)
    (hb : BlockProcessed env view prev prev block t t') :
    Stored env (prev.next block) t' := by
  by_cases hq : Quiet env (prev.nHeight + 1)
  · have hp : t = {} := h.eq_empty (hq.mono (Nat.le_succ _))
    rw [hb.eq_of_quiet hq, hp]
    exact .start _ hq
  · cases hb with
    | inactive hl => exact absurd (.inr hl) hq
    | active hac hc ha => exact .next h hv hq hc ha

end Stored

variable {view : ChainView} {chainActive prev : BlockIndex} {block : Block}
  {t t' : MinedTables}

section
variable (h : BlockProcessed env view chainActive prev block t t')
include h

lemma BlockProcessed.keeps : (∀ (type : LLMQType) (height : Nat), height ≤ prev.nHeight →
      t'.byHeight[(type, height)]? = t.byHeight[(type, height)]?) ∧
    ∀ (k : LLMQType × Uint256) (e : FinalCommitment × Uint256), t.mined[k]? = some e →
      t'.mined[k]? = some e := by
  cases h with
  | inactive => exact ⟨fun _ _ _ => rfl, fun _ _ h => h⟩
  | active _ _ ha =>
    exact ⟨fun type height hl => ha.keeps.1 type height (by omega), ha.keeps.2⟩

lemma BlockProcessed.mined_some {k : LLMQType × Uint256} {e : FinalCommitment × Uint256}
    (he : t'.mined[k]? = some e) : t.mined[k]? = some e ∨ (¬ Quiet env (prev.nHeight + 1) ∧
      ∃ tx ∈ block.vtx, ∃ qc, tx.payload = .quorumCommitment (some qc) ∧
        qc.commitment.isNull = false ∧ k = (qc.commitment.llmqType, qc.commitment.quorumHash) ∧
        e = (qc.commitment, (prev.next block).getBlockHash)) := by
  cases h with
  | inactive => exact .inl he
  | active hac hq ha =>
    rcases ha.mined_some he with hold | ⟨hc, qc, hqc, hn, hk, he⟩
    · exact .inl hold
    · obtain ⟨type, ht⟩ := mem_values.1 hqc
      obtain ⟨-, tx, hx, qcTx, hp, rfl⟩ := exists_of_getCommitmentsFromBlock hq ht
      refine .inr ⟨?_, tx, hx, qcTx, hp, hn, hk, he⟩
      unfold Quiet
      omega

lemma BlockProcessed.eq_of_null (hn : ∀ tx ∈ block.vtx, ∀ qc,
    tx.payload = .quorumCommitment (some qc) → qc.commitment.isNull = true) : t' = t := by
  cases h with
  | inactive => rfl
  | active _ hq ha =>
    refine ha.eq_of_null fun qc hc => ?_
    obtain ⟨type, ht⟩ := mem_values.1 hc
    obtain ⟨-, tx, hx, qcTx, hp, rfl⟩ := exists_of_getCommitmentsFromBlock hq ht
    exact hn tx hx qcTx hp

end

namespace QuorumBlockProcessor
variable [CommitmentHash]
variable {s s' : QuorumBlockProcessor} {nHeight : Nat}

omit [ChainHash]

lemma addMinableCommitment_ok {fqc : FinalCommitment} (h : s.addMinableCommitment fqc = .ok s') :
    s'.evoDb = s.evoDb ∧ s'.hasMinedCommitmentCache = s.hasMinedCommitmentCache := by
  unfold addMinableCommitment at h
  dsimp only at h
  split at h
  · cases h
    exact ⟨rfl, rfl⟩
  · obtain ⟨oldFqc, -, h⟩ := bind_ok.1 h
    split_ifs at h <;> obtain rfl := Except.ok.inj h <;> exact ⟨rfl, rfl⟩

/-- What is remembered after the loop of `UndoBlock` was remembered before, and is not about undone
commitments. -/
lemma foldlM_undoCommitment {qcs : List FinalCommitment}
    (h : qcs.foldlM (undoCommitment nHeight) s = .ok s') :
    s'.evoDb = s.evoDb.removeAll nHeight qcs ∧ ∀ t : MinedTables, s.Remembers t →
        s'.Remembers t ∧ s'.Remembers (t.removeAll nHeight qcs) := by
  induction qcs generalizing s with
  | nil => cases h; exact ⟨rfl, fun t hs => ⟨hs, hs⟩⟩
  | cons qc qcs ih =>
    obtain ⟨s1, hu, h⟩ := bind_ok.1 h
    obtain ⟨hd, hrs⟩ := ih h
    unfold undoCommitment at hu
    simp only [removeAll, List.foldl_cons]
    split_ifs at hu ⊢ with hn
    · cases hu
      exact ⟨hd, hrs⟩
    · obtain ⟨he, hc⟩ := addMinableCommitment_ok hu
      have hr : ∀ t : MinedTables, s.Remembers t →
          s1.Remembers t ∧ s1.Remembers (t.remove nHeight qc) := by
        refine fun t hs => ⟨fun k b hk => ?_, fun k b hk => ?_⟩ <;>
          rw [hc, getElem?_erase] at hk <;> split_ifs at hk with hne
        · exact hs k b hk
        · rw [hs k b hk]
          simp [ExtTreeMap.contains_erase, Ne.symm hne]
      refine ⟨by rw [hd, he, removeAll], fun t hs => ?_⟩
      obtain ⟨hp, hm⟩ := hr t hs
      exact ⟨(hrs t hp).1, (hrs _ hm).2⟩

lemma undoBlock_remembers {block : Block} (h : s.undoBlock env nHeight block = .ok s') :
    (s.Remembers s.evoDb → s'.Remembers s'.evoDb) ∧ ∀ t, s.Remembers t → s'.Remembers t := by
  obtain ⟨qcs, -, h⟩ := bind_ok.1 h
  obtain ⟨he, hr⟩ := foldlM_undoCommitment h
  exact ⟨fun hs => he ▸ (hr _ hs).2, fun t hs => (hr t hs).1⟩

lemma mined_of_undoBlock {block : Block} (h : s.undoBlock env nHeight block = .ok s')
    {k : LLMQType × Uint256} {e : FinalCommitment × Uint256} (he : s'.evoDb.mined[k]? = some e) :
    s.evoDb.mined[k]? = some e := by
  obtain ⟨qcs, -, h⟩ := bind_ok.1 h
  rw [(foldlM_undoCommitment h).1, removeAll_eq, getElem?_foldl_erase] at he
  split_ifs at he
  exact he

end QuorumBlockProcessor

lemma Stored.undoBlock [CommitmentHash] {prev : BlockIndex} {block : Block}
    {s s' : QuorumBlockProcessor} (h : Stored env (prev.next block) s.evoDb)
    (hs : s.Remembers s.evoDb) (hu : s.undoBlock env (prev.nHeight + 1) block = .ok s') :
    Stored env prev s'.evoDb ∧ s'.Remembers s'.evoDb ∧
      ∀ (k : LLMQType × Uint256) (e : FinalCommitment × Uint256), s'.evoDb.mined[k]? = some e →
        s.evoDb.mined[k]? = some e := by
  have hr := (undoBlock_remembers hu).1 hs
  have hb := fun k e => mined_of_undoBlock hu (k := k) (e := e)
  obtain ⟨qcs, hc, hu⟩ := bind_ok.1 hu
  obtain ⟨he, -⟩ := foldlM_undoCommitment hu
  refine ⟨?_, hr, hb⟩
  rcases h.of_next with ⟨hq, hm⟩ | ⟨t0, view, qcs', hp, hl, hq', ha⟩
  · rw [he, hm, removeAll_empty]
    exact .start _ (hq.mono (Nat.le_succ _))
  · obtain rfl : qcs' = qcs := Except.ok.inj (hq'.symm.trans hc)
    have hh : commitmentCheckHeight < prev.nHeight + 1 := not_le.1 fun hle => hl (.inl hle)
    rw [he, ha.removeAll hh fun type => hp.byHeight_above type (Nat.lt_succ_self _)]
    exact hp

namespace MinedTables
variable {t t' : MinedTables} {pindex : BlockIndex}

omit [ChainHash]

lemma minedUntil_congr {nHeight : Nat} (h : ∀ (type : LLMQType) (height : Nat),
      height ≤ nHeight → t'.byHeight[(type, height)]? = t.byHeight[(type, height)]?)
    (llmqType : LLMQType) : t'.minedUntil llmqType nHeight = t.minedUntil llmqType nHeight := by
  unfold minedUntil
  congr 1
  refine filter_toList_congr fun k v hk => ?_
  obtain ⟨type, height⟩ := k
  simp only [decide_eq_true_eq] at hk
  rw [h type height hk.2.2]

lemma getMinedAndActiveCommitmentsUntilBlock_congr
    (h : ∀ (type : LLMQType) (height : Nat), height ≤ pindex.nHeight →
      t'.byHeight[(type, height)]? = t.byHeight[(type, height)]?) :
    t'.getMinedAndActiveCommitmentsUntilBlock env pindex =
      t.getMinedAndActiveCommitmentsUntilBlock env pindex := by
  unfold getMinedAndActiveCommitmentsUntilBlock getMinedCommitmentsUntilBlock
  simp only [minedUntil_congr h]

end MinedTables

lemma Stored.active_mined {tip : BlockIndex} {t : MinedTables} (h : Stored env tip t)
    {quorums : ExtTreeMap LLMQType (List BlockIndex)}
    (hqr : t.getMinedAndActiveCommitmentsUntilBlock env tip = .ok quorums)
    {type : LLMQType} {l : List BlockIndex} (hl : quorums[type]? = some l) {quorum : BlockIndex}
    (hq : quorum ∈ l) : (t.mined[(type, quorum.getBlockHash)]?).isSome := by
  have hr : ∀ (type : LLMQType) (maxCount : Nat) (l : List BlockIndex),
      t.getMinedCommitmentsUntilBlock type tip maxCount = .ok l → ∀ quorum ∈ l,
      (t.mined[(type, quorum.getBlockHash)]?).isSome := by
    intro type maxCount l hl quorum hq
    obtain ⟨⟨⟨type', height⟩, quorumHeight⟩, he, ha⟩ := exists_of_mem_mapM hl hq
    have he := List.mem_filter.1 (List.mem_reverse.1 (List.mem_of_mem_take he))
    obtain rfl : type' = type := by simpa using (of_decide_eq_true he.2).1
    obtain ⟨-, anc, ha', hn⟩ := h.byHeight_some (ExtTreeMap.mem_toList_iff_getElem?_eq_some.1 he.1)
    obtain rfl : anc = quorum := some.inj (ha'.symm.trans (demand_ok.1 ha))
    exact hn
  unfold getMinedAndActiveCommitmentsUntilBlock at hqr
  refine foldlM_invariant (fun m : ExtTreeMap LLMQType (List BlockIndex) =>
    ∀ (type : LLMQType) (l : List BlockIndex), m[type]? = some l → ∀ quorum ∈ l,
      (t.mined[(type, quorum.getBlockHash)]?).isSome) ?_ env.consensus.llmqs ∅ quorums (by simp)
    hqr type l hl quorum hq
  intro m params m' hm hs type l hl
  obtain ⟨commitments, hc, hm'⟩ := bind_ok.1 hs
  cases hm'
  rw [getElem?_insert] at hl
  split_ifs at hl with ht
  · cases hl
    exact ht ▸ hr _ _ _ hc
  · exact hm type l hl

end Trivechain.Llmq
