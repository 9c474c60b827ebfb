import Trivechain.Evo.ListManager
import Trivechain.Llmq.MinedCommitments

/-!
# Undoing the special transactions of a block

`ProcessSpecialTxsInBlock` and `UndoSpecialTxsInBlock` write four families of entries of the evo
database: differences and snapshots of masternode lists, mined commitments, and the heights at which
they were mined. Undoing a block deletes what the block wrote, but before that it reads the list of
the block once more. A list whose difference cannot be applied again ends the node there.
-/

namespace Trivechain.Llmq
open Evo Maps QuorumBlockProcessor CommitmentHash
open Std (ExtTreeMap)

namespace QuorumBlockProcessor

def Indexed (s : QuorumBlockProcessor) : Prop :=
  ∀ (k : LLMQType × Uint256) (hash : Uint256), s.minableCommitmentsByQuorum[k]? = some hash →
    (s.minableCommitments[hash]?).isSome

variable [CommitmentHash] {s : QuorumBlockProcessor}

lemma Indexed.addMinableCommitment (h : s.Indexed) (fqc : FinalCommitment) :
    ∃ s', s.addMinableCommitment fqc = .ok s' ∧ s'.Indexed := by
  have ha : ∀ m : ExtTreeMap Uint256 FinalCommitment,
      (∀ hash : Uint256, (s.minableCommitments[hash]?).isSome → (m[hash]?).isSome) →
      (m[serializeHash fqc]?).isSome →
      Indexed { s with
        minableCommitmentsByQuorum := s.minableCommitmentsByQuorum.insert
          (fqc.llmqType, fqc.quorumHash) (serializeHash fqc)
        minableCommitments := m } := by
    intro m hm hw k hash hk
    dsimp only at hk
    rw [Maps.getElem?_insert] at hk
    split_ifs at hk with hy
    · exact Option.some.inj hk ▸ hw
    · exact hm hash (h k hash hk)
  unfold QuorumBlockProcessor.addMinableCommitment
  dsimp only
  cases hk : s.minableCommitmentsByQuorum[(fqc.llmqType, fqc.quorumHash)]? with
  | none =>
    refine ⟨_, rfl, ha _ (fun hash hh => ?_) ?_⟩ <;> rw [getElem?_insertIfNew]
    · split_ifs
      · rfl
      · exact hh
    · by_cases hn : s.minableCommitments[serializeHash fqc]? = none
      · simp [hn]
      · simpa [hn] using Option.isSome_iff_ne_none.2 hn
  | some oldHash =>
    obtain ⟨oldFqc, hold⟩ := Option.isSome_iff_exists.1 (h _ oldHash hk)
    simp only [hold, Run.demand, Run.ok_bind]
    split_ifs
    · refine ⟨_, rfl, ha _ (fun hash hh => ?_) ?_⟩
      · rw [getElem?_insertIfNew, getElem?_erase, getElem?_erase, if_pos rfl]
        by_cases he : hash = serializeHash fqc
        · simp [he]
        · simpa [he] using hh
      · rw [getElem?_insertIfNew, getElem?_erase, if_pos rfl]
        simp
    · exact ⟨s, rfl, h⟩

lemma Indexed.undoCommitments (nHeight : Nat) (qcs : List FinalCommitment) (h : s.Indexed) :
    ∃ s', qcs.foldlM (undoCommitment nHeight) s = .ok s' ∧ s'.Indexed := by
  induction qcs generalizing s with
  | nil => exact ⟨s, rfl, h⟩
  | cons qc qcs ih =>
    obtain ⟨s1, hu, h1⟩ : ∃ s1, s.undoCommitment nHeight qc = .ok s1 ∧ s1.Indexed := by
      unfold undoCommitment
      split_ifs
      · exact ⟨s, rfl, h⟩
      · have h : Indexed { s with
            evoDb := s.evoDb.remove nHeight qc
            hasMinedCommitmentCache :=
              s.hasMinedCommitmentCache.erase (qc.llmqType, qc.quorumHash) } := h
        exact h.addMinableCommitment qc
    obtain ⟨s', hs', h'⟩ := ih h1
    exact ⟨s', by rw [List.foldlM_cons, hu, Run.ok_bind, hs'], h'⟩

end QuorumBlockProcessor
end Trivechain.Llmq

namespace Trivechain.Evo
open Bls Llmq DeterministicMNManager ListTables Run
open Run (denyIf)
open Std (ExtTreeMap)
open Work (exec)

/-- The types that `ProcessSpecialTx` and `UndoSpecialTx` know. -/
def Transaction.isHandled (tx : Transaction) : Bool :=
  tx.nVersion != 3 ||
    match tx.payload with
    | .unknown _ => false
    | _ => true

def processSpecialTx (tx : Transaction) : Run Unit :=
  denyIf (!tx.isHandled) 100 .invalid "bad-tx-type-proc"

def undoSpecialTx (tx : Transaction) : Bool := tx.isHandled

structure EvoNode where
  processor : QuorumBlockProcessor := {}
  manager : DeterministicMNManager := {}

variable [PropertyHash] [ChainHash] [CommitmentHash] (env : Env)

def checkSpecialTxs (view : ChainView) (pindexPrev : BlockIndex) (block : Block) : Run Unit :=
  block.vtx.forM fun tx => do
    checkSpecialTx env view (some pindexPrev) tx
    processSpecialTx tx

namespace EvoNode

/-- The checks see the node through `view`. `checkCbTxMerkleRoots` is the last one, passed when it
is switched off; it only reads. -/
def processSpecialTxsInBlock (view : ChainView) (checkCbTxMerkleRoots : EvoNode → Run Unit)
    (pindexPrev : BlockIndex) (block : Block) (fJustCheck : Bool) (s : EvoNode) :
    Run Unit × EvoNode :=
  match checkSpecialTxs env view pindexPrev block with
  | .error e => (.error e, s)
  | .ok () =>
    match exec (QuorumBlockProcessor.processBlock env view pindexPrev pindexPrev block)
        s.processor with
    | (.error e, processor) => (.error e, { s with processor })
    | (.ok (), processor) =>
      match exec (processBlock env view.getUTXOCoin pindexPrev block
          fJustCheck) s.manager with
      | (.error e, manager) => (.error e, { processor, manager })
      | (.ok (), manager) => (checkCbTxMerkleRoots { processor, manager }, { processor, manager })

def undoSpecialTxsInBlock (pindex : BlockIndex) (s : EvoNode) : Run EvoNode := do
  -- the source gives no reason here
  denyIf (!pindex.block.vtx.reverse.all undoSpecialTx) 0 .invalid ""
  match exec (undoBlock pindex) s.manager with
  | (.error e, _) => .error e
  | (.ok (), manager) => do
    let processor ← s.processor.undoBlock env pindex.nHeight pindex.block
    return { processor, manager }

/-- The transaction of the evo database is rolled back to the tables of `s0`. -/
def rollback (s s0 : EvoNode) : EvoNode where
  processor := { s.processor with evoDb := s0.processor.evoDb }
  manager := { s.manager with evoDb := s0.manager.evoDb }

def SameTables (s s' : EvoNode) : Prop :=
  s'.manager.evoDb.diffs = s.manager.evoDb.diffs ∧
  s'.manager.evoDb.snapshots = s.manager.evoDb.snapshots ∧
  s'.processor.evoDb.mined = s.processor.evoDb.mined ∧
  s'.processor.evoDb.byHeight = s.processor.evoDb.byHeight

/-- The states of a node whose active chain ends in a block. -/
inductive Reached : BlockIndex → EvoNode → Prop
  | start (tip : BlockIndex) (hheight : tip.nHeight < env.consensus.DIP0003Height) :
    Reached tip {}
  | connect {pindexPrev : BlockIndex} {s s' : EvoNode} (view : ChainView) (hview : view.Keyed)
    (checkCbTxMerkleRoots : EvoNode → Run Unit) (block : Block) (hs : Reached pindexPrev s)
    (hs' : s.processSpecialTxsInBlock env view checkCbTxMerkleRoots pindexPrev block false =
      (.ok (), s')) : Reached (pindexPrev.next block) s'
  /-- A block that is refused or only tested. -/
  | test {pindexPrev : BlockIndex} {s s' : EvoNode} {r : Run Unit} (view : ChainView)
    (hview : view.Keyed) (checkCbTxMerkleRoots : EvoNode → Run Unit) (block : Block)
    (fJustCheck : Bool) (hs : Reached pindexPrev s)
    (hs' : s.processSpecialTxsInBlock env view checkCbTxMerkleRoots pindexPrev block fJustCheck =
      (r, s')) : Reached pindexPrev (s'.rollback s)
  | disconnect {pindexPrev : BlockIndex} {block : Block} {s s' : EvoNode}
    (hs : Reached (pindexPrev.next block) s)
    (hs' : s.undoSpecialTxsInBlock env (pindexPrev.next block) = .ok s') : Reached pindexPrev s'
  | getListForBlock {tip pindex : BlockIndex} {s : EvoNode} (hs : Reached tip s)
    (hpindex : pindex.chain <:+ tip.chain) :
    Reached tip { s with
      manager := (exec (getListForBlock pindex) s.manager).2 }
  | hasMinedCommitment {tip : BlockIndex} {s : EvoNode} (llmqType : LLMQType) (quorumHash : Uint256)
    (hs : Reached tip s) :
    Reached tip { s with processor :=
      (exec (QuorumBlockProcessor.hasMinedCommitment llmqType quorumHash) s.processor).2 }
  | addMinableCommitment {tip : BlockIndex} {s : EvoNode} {processor : QuorumBlockProcessor}
    (fqc : FinalCommitment) (hs : Reached tip s)
    (hs' : s.processor.addMinableCommitment fqc = .ok processor) : Reached tip { s with processor }
  /-- What is in memory is lost. -/
  | restart {tip : BlockIndex} {s : EvoNode} (hs : Reached tip s) :
    Reached tip (rollback {} s)

structure Coherent (tip : BlockIndex) (s : EvoNode) : Prop where
  stored : Stored env tip s.processor.evoDb
  remembers : s.processor.Remembers s.processor.evoDb
  indexed : s.processor.Indexed
  lists : s.manager.Sound tip s.manager.evoDb
  placed : ∀ pindex : BlockIndex, (s.manager.evoDb.diffs[pindex.getBlockHash]?).isSome ∨
    (s.manager.evoDb.snapshots[pindex.getBlockHash]?).isSome → pindex.chain <:+ tip.chain

structure Processed (view : ChainView) (pindexPrev : BlockIndex) (block : Block) (fJustCheck : Bool)
    (s s' : EvoNode) : Prop where
  handled : ∀ tx ∈ block.vtx, tx.isHandled = true
  mined : BlockProcessed env view pindexPrev pindexPrev block s.processor.evoDb s'.processor.evoDb
  remembers : s'.processor.Remembers s'.processor.evoDb
  indexed : s'.processor.Indexed
  lists : ((pindexPrev.nHeight + 1 < env.consensus.DIP0003Height ∨ fJustCheck = true) ∧
      s'.manager.Sound pindexPrev s.manager.evoDb) ∨
    (env.consensus.DIP0003Height ≤ pindexPrev.nHeight + 1 ∧ fJustCheck = false ∧
      ∃ oldList newList, s.manager.evoDb.listAt pindexPrev = .ok oldList ∧
        DeterministicMNManager.NewList env view.getUTXOCoin s.manager.evoDb pindexPrev block newList ∧
        s'.manager.Sound (pindexPrev.next block)
          (s.manager.evoDb.write (pindexPrev.next block) oldList newList))

variable {env} {view : ChainView} {checkCbTxMerkleRoots : EvoNode → Run Unit}
  {tip pindexPrev : BlockIndex} {block : Block} {fJustCheck : Bool} {s s' : EvoNode} {r : Run Unit}

section

omit [CommitmentHash]

lemma isHandled_of_checkSpecialTxs (h : checkSpecialTxs env view pindexPrev block = .ok ()) :
    ∀ tx ∈ block.vtx, tx.isHandled = true := by
  unfold checkSpecialTxs at h
  generalize block.vtx = txs at h ⊢
  induction txs with
  | nil => simp
  | cons tx txs ih =>
    obtain ⟨_, ht, h⟩ := bind_ok.1 h
    obtain ⟨_, -, ht⟩ := bind_ok.1 ht
    rintro tx' (_ | ⟨_, hm⟩)
    · simpa [processSpecialTx] using ht
    · exact ih h tx' hm

lemma Coherent.process (h : s.Coherent env pindexPrev)
    (hs' : s.processSpecialTxsInBlock env view checkCbTxMerkleRoots pindexPrev block fJustCheck =
      (r, s')) :
    (s'.rollback s).Coherent env pindexPrev ∧
      (r = .ok () → s.Processed env view pindexPrev block fJustCheck s') := by
  have hrl : ∀ {p : QuorumBlockProcessor} {m : DeterministicMNManager} {t : MinedTables},
      QuorumBlockProcessor.Inside s.processor t p →
      DeterministicMNManager.Sound pindexPrev s.manager.evoDb
        { m with evoDb := s.manager.evoDb } →
      (rollback ⟨p, m⟩ s).Coherent env pindexPrev := by
    intro p m t hp hm
    refine ⟨h.stored, hp.before, fun k hash hk => ?_, hm, h.placed⟩
    simp only [rollback, hp.byQuorum, hp.minable] at hk ⊢
    exact h.indexed k hash hk
  have hs : DeterministicMNManager.Sound pindexPrev s.manager.evoDb
      { s.manager with evoDb := s.manager.evoDb } := h.lists
  have hi := QuorumBlockProcessor.Inside.refl h.remembers
  unfold processSpecialTxsInBlock at hs'
  cases hc : checkSpecialTxs env view pindexPrev block with
  | error e =>
    rw [hc] at hs'
    obtain ⟨rfl, rfl⟩ := Prod.mk.inj hs'
    exact ⟨hrl hi hs, fun h => by cases h⟩
  | ok u =>
    rw [hc] at hs'
    rcases he : exec (QuorumBlockProcessor.processBlock env view pindexPrev pindexPrev block)
      s.processor with ⟨_ | _, processor⟩ <;> simp only [he] at hs'
    · obtain ⟨rfl, rfl⟩ := Prod.mk.inj hs'
      obtain ⟨t', hi'⟩ := hi.processBlock (fun _ _ _ => rfl) he
      exact ⟨hrl hi' hs, fun h => by cases h⟩
    · obtain ⟨t', hn, hi'⟩ := (QuorumBlockProcessor.processBlock_spec fun _ _ _ => rfl).of_ok hi he
      rcases hl : exec (processBlock env view.getUTXOCoin pindexPrev block
        fJustCheck) s.manager with ⟨_ | _, manager⟩ <;> simp only [hl] at hs'
      all_goals
        obtain ⟨hro, ho⟩ := exec_processBlock h.lists hl
        obtain ⟨hr, rfl⟩ := Prod.mk.inj hs'
        refine ⟨hrl hi' hro, fun hrk => ?_⟩
      · exact absurd (hr.trans hrk) (by simp)
      · obtain rfl := hi'.evoDb
        refine ⟨isHandled_of_checkSpecialTxs hc, hn, hi'.now, fun k hash hk => ?_, ho rfl⟩
        rw [hi'.byQuorum] at hk
        rw [hi'.minable]
        exact h.indexed k hash hk

lemma Coherent.connect (h : s.Coherent env pindexPrev) (hv : view.Keyed)
    (hs' : s.Processed env view pindexPrev block false s') :
    s'.Coherent env (pindexPrev.next block) := by
  have hg : ∀ {p : BlockIndex}, p.chain <:+ pindexPrev.chain →
      p.chain <:+ (pindexPrev.next block).chain := fun hp => hp.trans (List.suffix_cons ..)
  have hs := h.stored.blockProcessed hv hs'.mined
  rcases hs'.lists with ⟨-, hls⟩ | ⟨-, -, oldList, newList, -, ⟨l, -, rfl⟩, hls⟩
  · refine ⟨hs, hs'.remembers, hs'.indexed, ⟨rfl, fun p l hp => ?_⟩, fun p hp => ?_⟩
    · obtain ⟨hc, hl⟩ := hls.cached p l hp
      exact ⟨hg hc, by rw [hls.evoDb, hl]⟩
    · exact hg (h.placed p (hls.evoDb ▸ hp))
  · have hpl := hls.evoDb
    rw [← hls.evoDb] at hls
    refine ⟨hs, hs'.remembers, hs'.indexed, hls, fun p hp => ?_⟩
    by_cases hsl : p.getBlockHash = (pindexPrev.next block).getBlockHash
    · exact ChainHash.blockHash_injective hsl ▸ List.suffix_refl _
    · rw [hpl, (write_of_ne hsl).1, (write_of_ne hsl).2] at hp
      exact hg (h.placed p hp)

end

lemma Coherent.disconnect (h : s.Coherent env (pindexPrev.next block))
    (hs' : s.undoSpecialTxsInBlock env (pindexPrev.next block) = .ok s') :
    s'.Coherent env pindexPrev := by
  obtain ⟨_, -, hs'⟩ := bind_ok.1 hs'
  obtain ⟨ho, her⟩ := exec_undoBlock h.lists
  by_cases hu : DeterministicMNManager.Undoable s.manager.evoDb pindexPrev block
  · obtain ⟨manager, he, hs⟩ := ho hu
    rw [he] at hs'
    obtain ⟨processor, hn, hs'⟩ := bind_ok.1 hs'
    obtain rfl := Except.ok.inj hs'
    obtain ⟨ht, hr, -⟩ := h.stored.undoBlock h.remembers hn
    have hi : processor.Indexed := by
      obtain ⟨qcs, -, hn⟩ := bind_ok.1 hn
      obtain ⟨p, hp, hi⟩ := h.indexed.undoCommitments _ (Maps.values qcs)
      exact Except.ok.inj (hp.symm.trans hn) ▸ hi
    refine ⟨ht, hr, hi, hs.evoDb ▸ hs, fun p hp => ?_⟩
    dsimp only at hp
    rw [hs.evoDb] at hp
    have hne : p.getBlockHash ≠ (pindexPrev.next block).getBlockHash := by
      intro hq
      simp [remove, hq] at hp
    obtain ⟨hd, hsn⟩ := remove_of_ne (t := s.manager.evoDb) hne
    rw [hd, hsn] at hp
    exact BlockIndex.suffix_of_ne (h.placed p hp) hne
  · obtain ⟨e, manager, he⟩ := her hu
    rw [he] at hs'
    cases hs'

omit [CommitmentHash] in
lemma coherent_start (hh : tip.nHeight < env.consensus.DIP0003Height) : Coherent env tip {} where
  stored := .start tip (.inr hh)
  remembers := fun k b hk => by simp at hk
  indexed := fun k hash hk => by simp at hk
  lists := ⟨rfl, fun p l hp => by simp at hp⟩
  placed := fun p hp => by simp at hp

/-- The entries are those of the chain. The induction is on the way to the state. -/
lemma coherent_of_reached (hs : Reached env tip s) : s.Coherent env tip := by
  induction hs with
  | start tip hh => exact coherent_start hh
  | connect view hv _ block _ hs' ih => exact ih.connect hv ((ih.process hs').2 rfl)
  | test view hv _ block _ _ hs' ih => exact (ih.process hs').1
  | disconnect _ hs' ih => exact ih.disconnect hs'
  | getListForBlock _ hpn ih =>
    have hn := (getListForBlock_answers hpn _ ih.lists).2
    have hm := hn.evoDb
    rw [← hm] at hn
    exact ⟨ih.stored, ih.remembers, ih.indexed, hn, fun p hp => ih.placed p (hm ▸ hp)⟩
  | @hasMinedCommitment tip s llmqType quorumHash _ ih =>
    obtain ⟨b, processor, hec, -, hi⟩ := (QuorumBlockProcessor.hasMinedCommitment_spec
        (show s.processor.evoDb.mined.contains (llmqType, quorumHash) =
          _ from rfl)).exists_ok (QuorumBlockProcessor.Inside.refl ih.remembers)
    rw [hec]
    refine ⟨hi.evoDb ▸ ih.stored, hi.evoDb ▸ hi.now, fun k hash hk => ?_, ih.lists, ih.placed⟩
    dsimp only at hk ⊢
    rw [hi.byQuorum] at hk
    rw [hi.minable]
    exact ih.indexed k hash hk
  | addMinableCommitment fqc _ hs' ih =>
    obtain ⟨p, hp, hin⟩ := ih.indexed.addMinableCommitment fqc
    obtain rfl := Except.ok.inj (hp.symm.trans hs')
    obtain ⟨he, hc⟩ := QuorumBlockProcessor.addMinableCommitment_ok hs'
    refine ⟨he ▸ ih.stored, fun k b hk => ?_, hin, ih.lists, ih.placed⟩
    rw [hc] at hk
    rw [he]
    exact ih.remembers k b hk
  | restart _ ih =>
    exact ⟨ih.stored, fun k b hk => by simp [rollback] at hk, fun k hash hk => by simp [rollback] at hk,
      ⟨rfl, fun p l hp => by simp [rollback] at hp⟩, ih.placed⟩

lemma Coherent.undo_mined (h : s.Coherent env pindexPrev)
    (hac : env.consensus.DIP0003Height ≤ pindexPrev.nHeight + 1)
    (hs' : s.Processed env view pindexPrev block fJustCheck s') :
    ∃ processor, s'.processor.undoBlock env (pindexPrev.nHeight + 1) block = .ok processor ∧
      processor.evoDb = s.processor.evoDb := by
  have hm := hs'.mined
  generalize ht : s'.processor.evoDb = t' at hm
  cases hm with
  | inactive hl => omega
  | @active qcs _ _ hqc ha =>
    obtain ⟨processor, hu, -⟩ := hs'.indexed.undoCommitments (pindexPrev.nHeight + 1)
      (Maps.values qcs)
    refine ⟨processor, by rw [QuorumBlockProcessor.undoBlock, hqc, ok_bind, hu], ?_⟩
    rw [(QuorumBlockProcessor.foldlM_undoCommitment hu).1, ht]
    by_cases hc : commitmentCheckHeight < pindexPrev.nHeight + 1
    · exact ha.removeAll hc fun type => h.stored.byHeight_above type (Nat.lt_succ_self _)
    · -- nothing is stored up to this height, though the loop of `UndoBlock` runs
      have hq : Quiet env pindexPrev.nHeight := .inl (by omega)
      rw [ha.eq_of_le (by omega), h.stored.eq_empty hq, MinedTables.removeAll_empty]

omit [CommitmentHash] in
lemma Coherent.unlisted (h : s.Coherent env pindexPrev) (block : Block) :
    s.manager.evoDb.diffs[(pindexPrev.next block).getBlockHash]? = none ∧
    s.manager.evoDb.snapshots[(pindexPrev.next block).getBlockHash]? = none := by
  have hn : ¬ (pindexPrev.next block).chain <:+ pindexPrev.chain := fun hf =>
    BlockIndex.getBlockHash_ne_of_suffix hf rfl
  refine ⟨?_, ?_⟩ <;> refine Option.not_isSome_iff_eq_none.1 fun hs => hn (h.placed _ ?_)
  · exact .inl hs
  · exact .inr hs

/-- The list of the block is that of its parent, or has a snapshot, or its difference can be
applied. -/
def Rereadable (env : Env) (getUTXOCoin : OutPoint → Option TxOut) (t : ListTables)
    (pindexPrev : BlockIndex) (block : Block) : Prop :=
  ∀ oldList newList, t.listAt pindexPrev = .ok oldList →
    DeterministicMNManager.NewList env getUTXOCoin t pindexPrev block newList →
    (oldList.buildDiff newList).hasChanges = false ∨
    (pindexPrev.nHeight + 1) % snapshotListPeriod = 0 ∨ oldList.nHeight = -1 ∨
    ∃ l, oldList.applyDiff (pindexPrev.next block) (oldList.buildDiff newList) = .ok l

omit [CommitmentHash] in
/-- It is enough that the difference of the list can be applied. -/
lemma rereadable_of_applied {getUTXOCoin : OutPoint → Option TxOut} {t : ListTables}
    (h : (t.listAt pindexPrev >>= fun oldList =>
      buildNewListFromBlock env t.listAt getUTXOCoin pindexPrev block >>= fun l =>
        oldList.applyDiff (pindexPrev.next block) (oldList.buildDiff
          (DeterministicMNManager.finished (pindexPrev.next block) l))).toOption.map (fun _ => ()) =
      some ()) : Rereadable env getUTXOCoin t pindexPrev block := by
  rintro oldList newList hold ⟨l, hl, rfl⟩
  rw [hold, Run.ok_bind, hl, Run.ok_bind] at h
  obtain ⟨result, hr, -⟩ := Run.exists_of_map_toOption h
  exact .inr (.inr (.inr ⟨result, hr⟩))

omit [CommitmentHash] in
lemma undoable_write_iff {t : ListTables} {oldList newList : DeterministicMNList}
    (hold : t.listAt pindexPrev = .ok oldList)
    (hh : newList.blockHash = (pindexPrev.next block).getBlockHash)
    (hs : t.snapshots[(pindexPrev.next block).getBlockHash]? = none) :
    DeterministicMNManager.Undoable (t.write (pindexPrev.next block) oldList newList) pindexPrev
        block ↔
      ((oldList.buildDiff newList).hasChanges = false ∨
        (pindexPrev.nHeight + 1) % snapshotListPeriod = 0 ∨ oldList.nHeight = -1 ∨
        ∃ l, oldList.applyDiff (pindexPrev.next block) (oldList.buildDiff newList) = .ok l) := by
  have hd : (t.write (pindexPrev.next block) oldList newList).diffs[
      (pindexPrev.next block).getBlockHash]? = some (oldList.buildDiff newList) := by
    rw [write, hh, Maps.getElem?_insert, if_pos rfl]
  have hr : (t.write (pindexPrev.next block) oldList newList).listAt pindexPrev = .ok oldList :=
    (listAt_write (List.suffix_refl pindexPrev.chain) hh).trans hold
  unfold DeterministicMNManager.Undoable
  rw [hd, Option.getD_some, listAt_next, listFrom, hd, hr]
  cases hc : (oldList.buildDiff newList).hasChanges with
  | false => simp
  | true =>
    by_cases hw : (pindexPrev.nHeight + 1) % snapshotListPeriod = 0 ∨ oldList.nHeight = -1
    · have hn : (t.write (pindexPrev.next block) oldList newList).snapshots[
          (pindexPrev.next block).getBlockHash]? = some newList := by
        rw [write, BlockIndex.nHeight_next, if_pos hw, hh, Maps.getElem?_insert, if_pos rfl]
      rw [hn]
      refine iff_of_true (fun _ => ⟨rfl, rfl⟩) (.inr ?_)
      rcases hw with hw | hw
      · exact .inl hw
      · exact .inr (.inl hw)
    · have hn : (t.write (pindexPrev.next block) oldList newList).snapshots[
          (pindexPrev.next block).getBlockHash]? = none := by
        rw [write, BlockIndex.nHeight_next, if_neg hw, hs]
      have ha : ((.ok oldList : Run DeterministicMNList) >>=
          applyStored (pindexPrev.next block) (oldList.buildDiff newList)) =
          oldList.applyDiff (pindexPrev.next block) (oldList.buildDiff newList) := by
        rw [ok_bind, applyStored, if_pos hc]
      rw [hn]
      dsimp only
      rw [ha]
      obtain ⟨hp, hg⟩ := not_or.1 hw
      cases oldList.applyDiff (pindexPrev.next block) (oldList.buildDiff newList) with
      | error e => simp [Except.isOk, Except.toBool, hp, hg]
      | ok l => simp [Except.isOk, Except.toBool]

omit [CommitmentHash] in
lemma sound_next {t : ListTables} (h : s.manager.Sound pindexPrev t) (block : Block) :
    s.manager.Sound (pindexPrev.next block) t :=
  ⟨h.evoDb, fun p l hp => (h.cached p l hp).imp_left (·.trans (List.suffix_cons ..))⟩

omit [CommitmentHash] in
lemma undoable_of_unlisted {t : ListTables}
    (hd : t.diffs[(pindexPrev.next block).getBlockHash]? = none) :
    DeterministicMNManager.Undoable t pindexPrev block := by
  intro hc
  rw [hd] at hc
  exact absurd hc (by decide)

section
variable (h : s.Coherent env pindexPrev)
  (hs' : s.processSpecialTxsInBlock env view checkCbTxMerkleRoots pindexPrev block fJustCheck =
    (.ok (), s'))
include h hs'

omit [CommitmentHash] in
lemma Coherent.undo_handled :
    (pindexPrev.next block).block.vtx.reverse.all undoSpecialTx = true := by
  rw [List.all_reverse, List.all_eq_true]
  exact ((h.process hs').2 rfl).handled

lemma Coherent.undo_iff (hactive : env.consensus.DIP0003Height ≤ pindexPrev.nHeight + 1) :
    ((∃ s'', s'.undoSpecialTxsInBlock env (pindexPrev.next block) = .ok s'') ↔
      fJustCheck = true ∨ Rereadable env view.getUTXOCoin s.manager.evoDb pindexPrev block) ∧
    ∀ s'', s'.undoSpecialTxsInBlock env (pindexPrev.next block) = .ok s'' → s.SameTables s'' := by
  have hpr := (h.process hs').2 rfl
  obtain ⟨hd, hsp⟩ := h.unlisted block
  obtain ⟨processor, hun, hmn⟩ := h.undo_mined hactive hpr
  have hh := h.undo_handled hs'
  -- what is left is the list of the block
  have hls : ∀ t : ListTables, s'.manager.Sound (pindexPrev.next block) t →
      t.remove (pindexPrev.next block).getBlockHash = s.manager.evoDb →
      ((∃ s'', s'.undoSpecialTxsInBlock env (pindexPrev.next block) = .ok s'') ↔
        DeterministicMNManager.Undoable t pindexPrev block) ∧
      ∀ s'', s'.undoSpecialTxsInBlock env (pindexPrev.next block) = .ok s'' → s.SameTables s'' := by
    intro t hsn hr
    obtain ⟨ho, her⟩ := exec_undoBlock hsn
    by_cases hu : DeterministicMNManager.Undoable t pindexPrev block
    · obtain ⟨manager, he, hsn'⟩ := ho hu
      have hm := hsn'.evoDb.trans hr
      have hok : s'.undoSpecialTxsInBlock env (pindexPrev.next block) =
          .ok ⟨processor, manager⟩ := by
        rw [undoSpecialTxsInBlock, hh, he]
        exact bind_ok.2 ⟨(), denyIf_ok.2 (by simp), bind_ok.2 ⟨processor, hun, rfl⟩⟩
      refine ⟨iff_of_true ⟨_, hok⟩ hu, fun s'' hs'' => ?_⟩
      rw [← Except.ok.inj (hok.symm.trans hs'')]
      exact ⟨by rw [hm], by rw [hm], by rw [hmn], by rw [hmn]⟩
    · obtain ⟨e, manager, he⟩ := her hu
      have hno : ∀ s'', s'.undoSpecialTxsInBlock env (pindexPrev.next block) ≠ .ok s'' := by
        intro s'' hs''
        obtain ⟨_, -, hs''⟩ := bind_ok.1 hs''
        rw [he] at hs''
        cases hs''
      exact ⟨iff_of_false (fun ⟨s'', hs''⟩ => hno s'' hs'') hu, fun s'' hs'' => (hno s'' hs'').elim⟩
  rcases hpr.lists with ⟨hk, hsn⟩ | ⟨-, hf, oldList, newList, hold, hn, hsn⟩
  · obtain hch := hk.resolve_left (by omega)
    have hl := hls s.manager.evoDb (sound_next hsn block)
      (by rw [remove, Maps.erase_of_none hd, Maps.erase_of_none hsp])
    exact ⟨iff_of_true (hl.1.2 (undoable_of_unlisted hd)) (.inl hch), hl.2⟩
  · obtain ⟨l, hb, rfl⟩ := hn
    obtain ⟨hu, hsame⟩ := hls _ hsn (remove_write hd hsp)
    refine ⟨?_, hsame⟩
    rw [hu, undoable_write_iff hold rfl hsp]
    constructor
    · intro hcn
      refine .inr fun oldList' newList' hold' hl' => ?_
      obtain ⟨l', hb', hn'⟩ := hl'
      obtain rfl := Except.ok.inj (hold.symm.trans hold')
      obtain rfl := Except.ok.inj (hb.symm.trans hb')
      exact hn' ▸ hcn
    · rintro (hch | hcn)
      · rw [hch] at hf
        cases hf
      · exact hcn _ _ hold ⟨l, hb, rfl⟩

/-- Before the activation nothing was stored, but the commitments of the block are read for the
first time. -/
lemma Coherent.undo_inactive_iff
    (hinactive : pindexPrev.nHeight + 1 < env.consensus.DIP0003Height) :
    (∃ s'', s'.undoSpecialTxsInBlock env (pindexPrev.next block) = .ok s'') ↔
      ∃ qcs, getCommitmentsFromBlock env block (pindexPrev.nHeight + 1) = .ok qcs := by
  have hpr := (h.process hs').2 rfl
  have hh := h.undo_handled hs'
  rcases hpr.lists with ⟨-, hsn⟩ | ⟨hle, -⟩
  · obtain ⟨manager, he, -⟩ := (exec_undoBlock (sound_next hsn block)).1
      (undoable_of_unlisted (h.unlisted block).1)
    unfold undoSpecialTxsInBlock
    rw [hh, he]
    constructor
    · rintro ⟨s'', hs''⟩
      obtain ⟨_, -, hs''⟩ := bind_ok.1 hs''
      obtain ⟨processor, hp, -⟩ := bind_ok.1 hs''
      obtain ⟨qcs, hq, -⟩ := bind_ok.1 hp
      exact ⟨qcs, hq⟩
    · rintro ⟨qcs, hq⟩
      obtain ⟨processor, hu, -⟩ := hpr.indexed.undoCommitments (pindexPrev.nHeight + 1)
        (Maps.values qcs)
      exact ⟨⟨processor, manager⟩, bind_ok.2 ⟨(), denyIf_ok.2 (by simp),
        bind_ok.2 ⟨processor, bind_ok.2 ⟨qcs, hq, hu⟩, rfl⟩⟩⟩
  · omega

end

/-- A block whose special transactions were processed can be taken back, with the database as
before, exactly when its list can be read again. -/
theorem restored_iff (hs : Reached env pindexPrev s)
    (hactive : env.consensus.DIP0003Height ≤ pindexPrev.nHeight + 1)
    (hs' : s.processSpecialTxsInBlock env view checkCbTxMerkleRoots pindexPrev block fJustCheck =
      (.ok (), s')) :
    (∃ s'', s'.undoSpecialTxsInBlock env (pindexPrev.next block) = .ok s'' ∧ s.SameTables s'') ↔
      fJustCheck = true ∨ Rereadable env view.getUTXOCoin s.manager.evoDb pindexPrev block := by
  obtain ⟨hu, hsame⟩ := (coherent_of_reached hs).undo_iff hs' hactive
  rw [← hu]
  exact exists_congr fun s'' => and_iff_left_of_imp (hsame s'')

end EvoNode
end Trivechain.Evo

namespace Trivechain.Evo.ReplacedRegistration
open TwoUpdates (env coinbase register block0)
open UndoneRegistrations (registerExternal replacingBlock lastingBlock)
open Work (exec)

def idleBlock : Block := { vtx := [coinbase] }

def block1 : BlockIndex := block0.next idleBlock
def block2 : BlockIndex := block1.next lastingBlock
def block3 : BlockIndex := block2.next idleBlock

@[reducible] def hashes : ChainHash :=
  tableHash [register 0, registerExternal 0, registerExternal 1]
    [block0, block1, block1.next replacingBlock, block2, block3]

local instance propertyHash : PropertyHash := encodingHash
local instance chainHash : ChainHash := hashes
local instance commitmentHash : Llmq.CommitmentHash := ⟨fun _ => 0⟩

def view : ChainView where
  getUTXOCoin o := if o = ⟨90, 0⟩ then some ⟨collateralAmount, .pubKeyHash 60⟩ else none
  findBlock _ := none
  getListForBlock pindex := { blockHash := pindex.getBlockHash }
  dip0008Active _ := false

def connect (pindexPrev : BlockIndex) (block : Block) (s : EvoNode) : Run Unit × EvoNode :=
  s.processSpecialTxsInBlock env view (fun _ => .ok ()) pindexPrev block false

def node : EvoNode := (connect block0 idleBlock {}).2

lemma reached_node : EvoNode.Reached env block1 node := by
  have ho : (connect block0 idleBlock {}).1 = .ok () := by decide +kernel
  exact .connect view (fun hash pindex h => by simp [view] at h) (fun _ => .ok ()) idleBlock
    (.start block0 (by decide)) (Prod.ext ho rfl)

theorem replacement_cannot_be_undone : EvoNode.Reached env block1 node ∧
    (connect block1 replacingBlock node).1 = .ok () ∧
    (connect block1 replacingBlock node).2.undoSpecialTxsInBlock env (block1.next replacingBlock) =
      .error (.fault .assertion) :=
  ⟨reached_node, by decide +kernel, by decide +kernel⟩

theorem restored_of_lasting_registration : (connect block1 lastingBlock node).1 = .ok () ∧
    ∃ s'', (connect block1 lastingBlock node).2.undoSpecialTxsInBlock env
      (block1.next lastingBlock) = .ok s'' ∧ node.SameTables s'' := by
  have ho : (connect block1 lastingBlock node).1 = .ok () := by decide +kernel
  have hr : EvoNode.Rereadable env view.getUTXOCoin node.manager.evoDb block1 lastingBlock :=
    EvoNode.rereadable_of_applied (by decide +kernel)
  exact ⟨ho, (EvoNode.restored_iff reached_node (by decide) (Prod.ext ho rfl)).2 (.inr hr)⟩

def registered : EvoNode := (connect block1 lastingBlock node).2

end Trivechain.Evo.ReplacedRegistration
