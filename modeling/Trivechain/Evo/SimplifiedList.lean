import Trivechain.Evo.BlockSafety
import Trivechain.Evo.QuorumRootRuns

/-!
# Differences for light clients

A light client has the simplified entries of the masternodes at one block and asks for the
difference to another: `BuildSimplifiedDiff` for the masternodes, `BuildQuorumsDiff` for the active
quorums. Entries are compared in their simplified form, so a change that the client does not see is
not sent. What it has afterwards is what it would have got in full.
-/

namespace Trivechain.Evo
open Bls Llmq List
open Std (ExtTreeMap ExtTreeSet)

structure SimplifiedMNListEntry where
  proRegTxHash : Uint256
  confirmedHash : Uint256
  service : Service
  pubKeyOperator : Option PubKey
  keyIDVoting : KeyID
  isValid : Bool
deriving DecidableEq

open SimplifiedMNListEntry

def SimplifiedMNListEntry.ofMN (dmn : DeterministicMN) : SimplifiedMNListEntry where
  proRegTxHash := dmn.proTxHash
  confirmedHash := dmn.pdmnState.confirmedHash
  service := dmn.pdmnState.addr
  pubKeyOperator := dmn.pdmnState.pubKeyOperator
  keyIDVoting := dmn.pdmnState.keyIDVoting
  isValid := dmn.pdmnState.nPoSeBanHeight = -1

/-- `CalcHash` -/
class EntryHash where
  calcHash : SimplifiedMNListEntry → Uint256

/-- `CSimplifiedMNList` of a vector of entries. -/
def simplifiedOfEntries (smlEntries : List SimplifiedMNListEntry) : List SimplifiedMNListEntry :=
  smlEntries.mergeSort fun a b => a.proRegTxHash ≤ b.proRegTxHash

/-- `CSimplifiedMNList` of a list of masternodes. -/
def simplifiedOfList (dmnList : DeterministicMNList) : List SimplifiedMNListEntry :=
  simplifiedOfEntries (dmnList.allMNs.map .ofMN)

def calcMerkleRoot [EntryHash] [MerkleRoot] (mnList : List SimplifiedMNListEntry) :
    Uint256 × Bool :=
  MerkleRoot.computeMerkleRoot (mnList.map EntryHash.calcHash)

/-- The part of `CSimplifiedMNListDiff` about masternodes. -/
structure SimplifiedMNListDiff where
  baseBlockHash : Uint256
  blockHash : Uint256
  deletedMNs : List Uint256
  mnList : List SimplifiedMNListEntry

namespace DeterministicMNList
variable (l target : DeterministicMNList)

/-- The condition on which the first loop of `BuildSimplifiedDiff` sends an entry. -/
def sendsEntry (toPtr : DeterministicMN) : Bool :=
  match l.getMN toPtr.proTxHash with
  | none => true
  | some fromPtr => ofMN toPtr ≠ ofMN fromPtr

def buildSimplifiedDiff : SimplifiedMNListDiff where
  baseBlockHash := l.blockHash
  blockHash := target.blockHash
  mnList := (target.allMNs.filter l.sendsEntry).map .ofMN
  deletedMNs := (l.allMNs.filter fun fromPtr => (target.getMN fromPtr.proTxHash).isNone).map
    (·.proTxHash)

def KeyedByHash (l : DeterministicMNList) : Prop :=
  ∀ (h : Uint256) (dmn : DeterministicMN), l.mnMap[h]? = some dmn → dmn.proTxHash = h

end DeterministicMNList

/-- What a client makes of its entries: deleted ones are removed, others inserted or replaced. -/
def SimplifiedMNListDiff.applyTo (diff : SimplifiedMNListDiff)
    (entries : List SimplifiedMNListEntry) : List SimplifiedMNListEntry :=
  (entries.filter fun e => e.proRegTxHash ∉ diff.deletedMNs ∧
    e.proRegTxHash ∉ diff.mnList.map (·.proRegTxHash)) ++ diff.mnList

section Entries
variable {es es' : List SimplifiedMNListEntry}

lemma perm_simplifiedOfEntries : (simplifiedOfEntries es).Perm es := mergeSort_perm ..

lemma simplifiedOfEntries_eq (hn : (es.map (·.proRegTxHash)).Nodup)
    (hn' : (es'.map (·.proRegTxHash)).Nodup) (hm : ∀ e, e ∈ es ↔ e ∈ es') :
    simplifiedOfEntries es = simplifiedOfEntries es' := by
  have hp : es.Perm es' := (perm_ext_iff_of_nodup (.of_map _ hn) (.of_map _ hn')).2 hm
  have hs : ∀ es : List SimplifiedMNListEntry,
      (simplifiedOfEntries es).Pairwise fun a b => decide (a.proRegTxHash ≤ b.proRegTxHash) :=
    pairwise_mergeSort (by simpa using fun a b c => le_trans)
      (by simpa using fun a b => le_total _ _)
  refine List.Perm.eq_of_pairwise (fun a b ha hb hab hba => ?_) (hs es) (hs es')
    ((perm_simplifiedOfEntries.trans hp).trans perm_simplifiedOfEntries.symm)
  have ha' := perm_simplifiedOfEntries.mem_iff.1 ha
  have hb' := hp.mem_iff.2 (perm_simplifiedOfEntries.mem_iff.1 hb)
  exact inj_on_of_nodup_map hn ha' hb' (le_antisymm (of_decide_eq_true hab) (of_decide_eq_true hba))

end Entries

namespace DeterministicMNList
variable {l target : DeterministicMNList} {e : SimplifiedMNListEntry}

lemma KeyedByHash.mem_allMNs (h : l.KeyedByHash) {dmn : DeterministicMN} :
    dmn ∈ l.allMNs ↔ l.getMN dmn.proTxHash = some dmn := by
  rw [allMNs, Maps.mem_values, getMN]
  constructor
  · rintro ⟨k, hk⟩
    rwa [h k dmn hk]
  · exact fun hk => ⟨_, hk⟩

lemma KeyedByHash.nodup (h : l.KeyedByHash) : (l.allMNs.map (·.proTxHash)).Nodup :=
  Maps.nodup_map_values h

lemma mem_simplifiedOfList (h : l.KeyedByHash) : e ∈ simplifiedOfList l ↔
    ∃ dmn, l.getMN dmn.proTxHash = some dmn ∧ ofMN dmn = e := by
  rw [simplifiedOfList, perm_simplifiedOfEntries.mem_iff, mem_map]
  exact exists_congr fun dmn => and_congr_left fun _ => h.mem_allMNs

lemma mem_sent (h : target.KeyedByHash) : e ∈ (l.buildSimplifiedDiff target).mnList ↔
    ∃ dmn, target.getMN dmn.proTxHash = some dmn ∧ l.sendsEntry dmn = true ∧ ofMN dmn = e := by
  simp only [buildSimplifiedDiff, mem_map, mem_filter, h.mem_allMNs, and_assoc]

lemma mem_deleted (h : l.KeyedByHash) {k : Uint256} :
    k ∈ (l.buildSimplifiedDiff target).deletedMNs ↔ (l.getMN k).isSome ∧ target.getMN k = none := by
  simp only [buildSimplifiedDiff, mem_map, mem_filter, h.mem_allMNs, Option.isNone_iff_eq_none]
  constructor
  · rintro ⟨dmn, ⟨hd, hn⟩, rfl⟩
    exact ⟨by simp [hd], hn⟩
  · rintro ⟨hs, hn⟩
    obtain ⟨dmn, hd⟩ := Option.isSome_iff_exists.1 hs
    obtain rfl := h k dmn hd
    exact ⟨dmn, ⟨hd, hn⟩, rfl⟩

lemma mem_applyTo (hl : l.KeyedByHash) (ht : target.KeyedByHash) :
    e ∈ (l.buildSimplifiedDiff target).applyTo (simplifiedOfList l) ↔
      e ∈ simplifiedOfList target := by
  have hsn : ∀ dmn, target.getMN dmn.proTxHash = some dmn → l.sendsEntry dmn = true →
      dmn.proTxHash ∈ (l.buildSimplifiedDiff target).mnList.map (·.proRegTxHash) :=
    fun dmn hd hs => mem_map.2 ⟨_, (mem_sent ht).2 ⟨dmn, hd, hs, rfl⟩, rfl⟩
  rw [SimplifiedMNListDiff.applyTo, mem_append, mem_sent ht,
    mem_simplifiedOfList ht, mem_filter, mem_simplifiedOfList hl, decide_eq_true_eq]
  constructor
  · rintro (⟨⟨a, ha, rfl⟩, hk, ho⟩ | ⟨dmn, hd, -, rfl⟩)
    · -- the entry is neither deleted nor sent again, so it is the same at the target
      cases hto : target.getMN a.proTxHash with
      | none => exact absurd ((mem_deleted hl).2 ⟨by simp [ha], hto⟩) hk
      | some dmn =>
        have hh := ht _ dmn hto
        refine ⟨dmn, hh ▸ hto, ?_⟩
        by_contra hne
        refine ho ?_
        have hs : l.sendsEntry dmn = true := by
          rw [sendsEntry, hh, ha]
          exact decide_eq_true hne
        have := hsn dmn (hh ▸ hto) hs
        rwa [hh] at this
    · exact ⟨dmn, hd, rfl⟩
  · rintro ⟨dmn, hd, rfl⟩
    by_cases hs : l.sendsEntry dmn = true
    · exact .inr ⟨dmn, hd, hs, rfl⟩
    left
    -- an entry that is not sent is one of the old entries
    cases hf : l.getMN dmn.proTxHash with
    | none => simp [sendsEntry, hf] at hs
    | some a =>
      have hq : ofMN dmn = .ofMN a := by
        simpa [sendsEntry, hf] using hs
      have hh := hl _ a hf
      refine ⟨⟨a, hh ▸ hf, hq.symm⟩, ?_, ?_⟩
      · intro hdl
        have hn := ((mem_deleted hl).1 hdl).2
        exact absurd (hd.symm.trans hn) (by simp)
      · intro hi
        obtain ⟨e, he, heh⟩ := mem_map.1 hi
        obtain ⟨dmn', hd', hs', rfl⟩ := (mem_sent ht).1 he
        have hm : dmn'.proTxHash = dmn.proTxHash := heh
        rw [hm, hd] at hd'
        cases hd'
        exact hs hs'

lemma nodup_applyTo (hl : l.KeyedByHash) (ht : target.KeyedByHash) :
    (((l.buildSimplifiedDiff target).applyTo (simplifiedOfList l)).map (·.proRegTxHash)).Nodup := by
  have hn : ∀ {l : DeterministicMNList}, l.KeyedByHash →
      ((l.allMNs.map ofMN).map (·.proRegTxHash)).Nodup := by
    intro l h
    rw [map_map]
    exact h.nodup
  rw [SimplifiedMNListDiff.applyTo, map_append, nodup_append']
  refine ⟨?_, ?_, ?_⟩
  · refine (filter_sublist.map _).nodup ?_
    exact (perm_simplifiedOfEntries.map _).nodup_iff.2 (hn hl)
  · exact ((filter_sublist.map _).map _).nodup (hn ht)
  · intro k hk hk'
    obtain ⟨e, he, rfl⟩ := mem_map.1 hk
    exact (of_decide_eq_true (mem_filter.1 he).2).2 hk'

lemma simplified_applyTo (hl : l.KeyedByHash) (ht : target.KeyedByHash) :
    simplifiedOfEntries ((l.buildSimplifiedDiff target).applyTo (simplifiedOfList l)) =
      simplifiedOfList target := by
  have hn : ((target.allMNs.map ofMN).map (·.proRegTxHash)).Nodup := by
    rw [map_map]
    exact ht.nodup
  refine simplifiedOfEntries_eq (nodup_applyTo hl ht) hn fun e => ?_
  rw [mem_applyTo hl ht, simplifiedOfList, perm_simplifiedOfEntries.mem_iff]

end DeterministicMNList

section Quorums
variable [ChainHash] (env : Env) (t : MinedTables)

def quorumHashes (quorums : ExtTreeMap LLMQType (List BlockIndex)) :
    ExtTreeSet (LLMQType × Uint256) :=
  quorums.toList.foldl (fun hashes p =>
    p.2.foldl (fun hashes quorum => hashes.insert (p.1, quorum.getBlockHash)) hashes) ∅

/-- The part of `CSimplifiedMNListDiff` about quorums. -/
structure QuorumsDiff where
  deletedQuorums : List (LLMQType × Uint256)
  newQuorums : List FinalCommitment

def activeQuorums (pindex : BlockIndex) : Run (ExtTreeSet (LLMQType × Uint256)) := do
  return quorumHashes (← t.getMinedAndActiveCommitmentsUntilBlock env pindex)

/-- `BuildQuorumsDiff`; nothing if it returns false. -/
def buildQuorumsDiff (baseBlockIndex blockIndex : BlockIndex) : Run (Option QuorumsDiff) := do
  let baseQuorumHashes ← activeQuorums env t baseBlockIndex
  let quorumHashes ← activeQuorums env t blockIndex
  let added := quorumHashes.toList.filter (· ∉ baseQuorumHashes)
  return (added.mapM fun p => (t.mined[p]?).map Prod.fst).map fun newQuorums =>
    { deletedQuorums := baseQuorumHashes.toList.filter (· ∉ quorumHashes), newQuorums }

def commitmentOf (hashes : ExtTreeSet (LLMQType × Uint256)) (p : LLMQType × Uint256) :
    Option FinalCommitment :=
  if p ∈ hashes then (t.mined[p]?).map Prod.fst else none

def QuorumsDiff.applyTo (diff : QuorumsDiff) (known : LLMQType × Uint256 → Option FinalCommitment)
    (p : LLMQType × Uint256) : Option FinalCommitment :=
  match diff.newQuorums.find? fun qc => (qc.llmqType, qc.quorumHash) = p with
  | some qc => some qc
  | none => if p ∈ diff.deletedQuorums then none else known p

omit [ChainHash] in
lemma mem_foldl_insert_hashes {α K : Type} [Ord K] [Std.TransOrd K] [Std.LawfulEqOrd K]
    (key : α → K) (l : List α) (s : ExtTreeSet K) (k : K) :
    k ∈ l.foldl (fun s a => s.insert (key a)) s ↔ k ∈ s ∨ ∃ a ∈ l, key a = k := by
  induction l generalizing s with
  | nil => simp
  | cons a l ih =>
    rw [foldl_cons, ih, ExtTreeSet.mem_insert, Std.LawfulEqCmp.compare_eq_iff_eq]
    simp only [mem_cons, exists_eq_or_imp]
    tauto

lemma mem_quorumHashes {qs : ExtTreeMap LLMQType (List BlockIndex)}
    {p : LLMQType × Uint256} : p ∈ quorumHashes qs ↔
      ∃ l : List BlockIndex, qs[p.1]? = some l ∧ ∃ quorum ∈ l, quorum.getBlockHash = p.2 := by
  have hf : ∀ (ps : List (LLMQType × List BlockIndex)) (s : ExtTreeSet (LLMQType × Uint256)),
      p ∈ ps.foldl (fun hashes p => p.2.foldl (fun hashes (quorum : BlockIndex) =>
        hashes.insert (p.1, quorum.getBlockHash)) hashes) s ↔
      p ∈ s ∨ ∃ q ∈ ps, ∃ quorum ∈ q.2, (q.1, quorum.getBlockHash) = p := by
    intro ps
    induction ps with
    | nil => simp
    | cons q ps ih =>
      intro s
      rw [foldl_cons, ih, mem_foldl_insert_hashes fun quorum : BlockIndex =>
        (q.1, quorum.getBlockHash)]
      simp only [mem_cons, exists_eq_or_imp]
      exact or_assoc
  rw [quorumHashes, hf]
  constructor
  · rintro (he | ⟨q, hq, quorum, hr, rfl⟩)
    · exact absurd he ExtTreeSet.not_mem_empty
    · exact ⟨q.2, ExtTreeMap.mem_toList_iff_getElem?_eq_some.1 hq, quorum, hr, rfl⟩
  · rintro ⟨l, hl, quorum, hr, hh⟩
    exact .inr ⟨(p.1, l), ExtTreeMap.mem_toList_iff_getElem?_eq_some.2 hl, quorum, hr,
      Prod.ext rfl hh⟩

end Quorums
end Trivechain.Evo

namespace Trivechain.Llmq.Stored
open Evo
open Std (ExtTreeMap ExtTreeSet)
variable [ChainHash] {env : Env} {tip idx : BlockIndex} {t : MinedTables}
variable (h : Stored env tip t)
include h

lemma keyed {k : LLMQType × Uint256} {e : FinalCommitment × Uint256}
    (he : t.mined[k]? = some e) : k = (e.1.llmqType, e.1.quorumHash) := by
  induction h with
  | start => simp at he
  | next hp hv hl hq ha ih =>
    rcases ha.mined_some he with hold | ⟨-, qc, -, -, hk, rfl⟩
    · exact ih hold
    · exact hk

lemma byHeight_lt {type : LLMQType} {height quorumHeight : Nat}
    (he : t.byHeight[(type, height)]? = some quorumHeight) : quorumHeight < height := by
  induction h with
  | start => simp at he
  | next hp hv hl hq ha ih =>
    rcases ha.byHeight_some hv he with hold | ⟨-, rfl, anc, hn, -⟩
    · exact ih hold
    · have := (BlockIndex.getAncestor_eq_some_iff_drop.1 hn).1
      omega

lemma getMinedCommitmentsUntilBlock (hc : idx.chain <:+ tip.chain) (type : LLMQType) (max : Nat) :
    ∃ l, t.getMinedCommitmentsUntilBlock type idx max = .ok l ∧
      ∀ quorum ∈ l, (t.mined[(type, quorum.getBlockHash)]?).isSome := by
  have he : ∀ p ∈ (t.minedUntil type idx.nHeight).take max, ∃ anc,
      idx.getAncestor p.2 = some anc ∧ (t.mined[(type, anc.getBlockHash)]?).isSome := by
    rintro ⟨⟨type', height⟩, quorumHeight⟩ hp
    have hp := List.mem_filter.1 (List.mem_reverse.1 (List.mem_of_mem_take hp))
    have hg := ExtTreeMap.mem_toList_iff_getElem?_eq_some.1 hp.1
    simp only [decide_eq_true_eq] at hp
    obtain ⟨-, rfl, -, hl⟩ := hp
    have ht := h.byHeight_lt hg
    obtain ⟨-, anc', ha', hm⟩ := h.byHeight_some hg
    obtain ⟨anc, ha⟩ := idx.exists_getAncestor (show quorumHeight ≤ idx.nHeight by omega)
    refine ⟨anc, ha, ?_⟩
    have hh := BlockIndex.nHeight_of_getAncestor ha
    have hf : anc.chain <:+ tip.chain :=
      (BlockIndex.getAncestor_eq_some.1 (by rw [hh]; exact ha)).trans hc
    have hs := BlockIndex.getAncestor_eq_some.2 hf
    rw [hh, ha'] at hs
    exact Option.some.inj hs ▸ hm
  refine ⟨((t.minedUntil type idx.nHeight).take max).map fun p =>
    (idx.getAncestor p.2).getD idx, ?_, fun quorum hq => ?_⟩
  · refine Run.mapM_eq_ok fun p hp => ?_
    obtain ⟨anc, ha, -⟩ := he p hp
    simp [ha, Run.demand]
  · obtain ⟨p, hp, rfl⟩ := List.mem_map.1 hq
    obtain ⟨anc, ha, hm⟩ := he p hp
    simpa [ha] using hm

lemma activeQuorums (hc : idx.chain <:+ tip.chain) :
    ∃ hashes, Evo.activeQuorums env t idx = .ok hashes ∧ ∀ p ∈ hashes, (t.mined[p]?).isSome := by
  -- by induction on the types of qs
  have hf : ∀ (llmqs : List LLMQParams) (m : ExtTreeMap LLMQType (List BlockIndex)),
      AllMined t m → ∃ m', (llmqs.foldlM (fun ret params => do
        let commitments ← t.getMinedCommitmentsUntilBlock params.type idx
          params.signingActiveQuorumCount
        return ret.insert params.type commitments) m : Run (ExtTreeMap _ _)) = .ok m' ∧
        AllMined t m' := by
    intro llmqs
    induction llmqs with
    | nil => exact fun m hm => ⟨m, rfl, hm⟩
    | cons params llmqs ih =>
      intro m hm
      obtain ⟨l, hl, hn⟩ := h.getMinedCommitmentsUntilBlock hc params.type
        params.signingActiveQuorumCount
      have hm' : AllMined t (m.insert params.type l) := by
        intro type l' hl' quorum hq
        rw [Maps.getElem?_insert] at hl'
        split_ifs at hl' with ht
        · cases hl'
          exact ht ▸ hn quorum hq
        · exact hm type l' hl' quorum hq
      obtain ⟨m', hr, ha⟩ := ih _ hm'
      refine ⟨m', ?_, ha⟩
      rw [List.foldlM_cons, hl]
      exact hr
  obtain ⟨qs, hr, ha⟩ := hf env.consensus.llmqs ∅ (fun type l hl => by simp at hl)
  refine ⟨quorumHashes qs, ?_, fun p hp => ?_⟩
  · unfold Evo.activeQuorums MinedTables.getMinedAndActiveCommitmentsUntilBlock
    rw [hr]
    rfl
  · obtain ⟨l, hl, quorum, hq, hh⟩ := mem_quorumHashes.1 hp
    have hn := ha p.1 l hl quorum hq
    rwa [hh] at hn

end Trivechain.Llmq.Stored

namespace Trivechain.Evo
open Bls Llmq
open Std (ExtTreeMap ExtTreeSet)
variable [ChainHash] {env : Env} {tip base target : BlockIndex} {t : MinedTables}

omit [ChainHash] in
lemma exists_mapM_of_isSome {α β : Type} {f : α → Option β} {l : List α}
    (h : ∀ a ∈ l, (f a).isSome) : ∃ l', l.mapM f = some l' ∧
      (∀ b ∈ l', ∃ a ∈ l, f a = some b) ∧ ∀ a ∈ l, ∃ b ∈ l', f a = some b := by
  induction l with
  | nil => exact ⟨[], rfl, by simp, by simp⟩
  | cons a l ih =>
    obtain ⟨b, hb⟩ := Option.isSome_iff_exists.1 (h a (by simp))
    obtain ⟨l', hl', hf, hs⟩ := ih fun a ha => h a (List.mem_cons_of_mem _ ha)
    refine ⟨b :: l', by simp [List.mapM_cons, hb, hl'], ?_, ?_⟩
    · simp only [List.mem_cons, forall_eq_or_imp, exists_eq_or_imp, hb]
      exact ⟨.inl trivial, fun b hb => .inr (hf b hb)⟩
    · simp only [List.mem_cons, forall_eq_or_imp, exists_eq_or_imp, hb]
      exact ⟨.inl trivial, fun a ha => .inr (hs a ha)⟩

lemma quorums_applyTo (h : Stored env tip t) (hbs : base.chain <:+ tip.chain)
    (ht : target.chain <:+ tip.chain) :
    ∃ baseHashes hashes diff, activeQuorums env t base = .ok baseHashes ∧
      activeQuorums env t target = .ok hashes ∧
      buildQuorumsDiff env t base target = .ok (some diff) ∧
      diff.applyTo (commitmentOf t baseHashes) = commitmentOf t hashes ∧
      ∀ p ∈ hashes, (commitmentOf t hashes p).isSome := by
  obtain ⟨baseHashes, hb, -⟩ := h.activeQuorums hbs
  obtain ⟨hashes, hr, hm⟩ := h.activeQuorums ht
  -- each added quorum is sent with its commitment
  have ha : ∀ p ∈ hashes.toList.filter (· ∉ baseHashes), (t.mined[p]?).isSome :=
    fun p hp => hm p (ExtTreeSet.mem_toList.1 (List.mem_filter.1 hp).1)
  obtain ⟨newQuorums, hn, hfr, hs⟩ := exists_mapM_of_isSome fun p hp =>
    (Option.isSome_map (f := Prod.fst)).trans (ha p hp)
  refine ⟨baseHashes, hashes, ⟨baseHashes.toList.filter (· ∉ hashes), newQuorums⟩, hb, hr,
    ?_, ?_, fun p hp => ?_⟩
  · simp only [buildQuorumsDiff, hb, hr, Run.ok_bind, hn, Option.map_some, Run.pure_eq]
  · funext p
    simp only [QuorumsDiff.applyTo, commitmentOf]
    cases hf : newQuorums.find? fun qc => (qc.llmqType, qc.quorumHash) = p with
    | some qc =>
      -- a commitment that is sent is that of an active quorum
      obtain ⟨p', hp', hq⟩ := hfr qc (List.mem_of_find?_eq_some hf)
      obtain ⟨e, he, rfl⟩ := Option.map_eq_some_iff.1 hq
      have hk : (e.1.llmqType, e.1.quorumHash) = p := by
        simpa using List.find?_some hf
      obtain rfl : p' = p := (h.keyed he).trans hk
      rw [if_pos (ExtTreeSet.mem_toList.1 (List.mem_filter.1 hp').1), hq]
    | none =>
      have hold : p ∈ hashes → p ∈ baseHashes := by
        intro hp
        by_contra hnt
        obtain ⟨qc, hq, hp'⟩ := hs p (List.mem_filter.2
          ⟨ExtTreeSet.mem_toList.2 hp, by simpa using hnt⟩)
        obtain ⟨e, he, rfl⟩ := Option.map_eq_some_iff.1 hp'
        have := List.find?_eq_none.1 hf e.1 hq
        simp [← h.keyed he] at this
      by_cases hp : p ∈ hashes
      · simp [hp, hold hp]
      · by_cases hp' : p ∈ baseHashes <;> simp [hp, hp', ExtTreeSet.mem_toList]
  · rw [commitmentOf, if_pos hp, Option.isSome_map]
    exact hm p hp

/-- A client that has the simplified masternodes and the active quorums of one block, and applies
the differences to another, has the masternodes of that one, in the same order and so with the same
Merkle root, and its active quorums. -/
theorem lightClient_synchronised [EntryHash] [MerkleRoot] :
    (∀ l target : DeterministicMNList, l.KeyedByHash → target.KeyedByHash →
      simplifiedOfEntries ((l.buildSimplifiedDiff target).applyTo (simplifiedOfList l)) =
        simplifiedOfList target ∧
      calcMerkleRoot (simplifiedOfEntries ((l.buildSimplifiedDiff target).applyTo
        (simplifiedOfList l))) = calcMerkleRoot (simplifiedOfList target)) ∧
    ∀ (env : Env) (tip base target : BlockIndex) (t : MinedTables), Stored env tip t →
      base.chain <:+ tip.chain → target.chain <:+ tip.chain →
      ∃ baseHashes hashes diff, activeQuorums env t base = .ok baseHashes ∧
        activeQuorums env t target = .ok hashes ∧
        buildQuorumsDiff env t base target = .ok (some diff) ∧
        diff.applyTo (commitmentOf t baseHashes) = commitmentOf t hashes ∧
        ∀ p ∈ hashes, (commitmentOf t hashes p).isSome := by
  refine ⟨fun l target hl ht => ?_, fun env tip base target t h hb ht =>
    quorums_applyTo h hb ht⟩
  have he := DeterministicMNList.simplified_applyTo hl ht
  exact ⟨he, congrArg calcMerkleRoot he⟩

end Trivechain.Evo

namespace Trivechain.Evo.Changed
open Llmq Remined

local instance : ChainHash := tableHash [] [idle 0]

def two (a b : DeterministicMN) : DeterministicMNList where
  mnMap := (Std.ExtTreeMap.empty.insert a.proTxHash a).insert b.proTxHash b

lemma keyed_two {a b : DeterministicMN} : (two a b).KeyedByHash := by
  intro h dmn hd
  rw [two, Maps.getElem?_insert, Maps.getElem?_insert] at hd
  split_ifs at hd <;> simp_all

def base : DeterministicMNList := two (masternode 1) (masternode 2)

def target : DeterministicMNList := two ((masternode 2).withState {}) (masternode 3)

/-- A masternode is deleted, another replaced, and a commitment mined. -/
theorem synchronised_with_changes : (base.buildSimplifiedDiff target).deletedMNs = [1] ∧
    simplifiedOfEntries ((base.buildSimplifiedDiff target).applyTo (simplifiedOfList base)) =
      simplifiedOfList target ∧
    ∃ diff, buildQuorumsDiff env (holding (commitment five)) tip
      (tip.next (mining (commitment five))) = .ok (some diff) := by
  obtain ⟨hm, hq⟩ := @lightClient_synchronised _ ⟨(·.proRegTxHash)⟩ ⟨fun l => (l.sum, false)⟩
  have hl : ¬ Quiet env (tip.nHeight + 1) := by rw [nHeight_tip, Quiet]; decide
  have hp := processed quorumHash_ne_zero (rfl : five.length = 5) (by decide)
  obtain ⟨-, -, diff, -, -, hd, -⟩ := hq env _ tip _ _ (.next stored_tip view_keyed hl
    (commitments_mining rfl) (.snoc .nil hp)) (List.suffix_cons ..) List.suffix_rfl
  exact ⟨by decide +kernel, (hm base target keyed_two keyed_two).1, diff, hd⟩

end Trivechain.Evo.Changed
