import Trivechain.Evo.QuorumRoot
import Trivechain.Evo.TableHash

/-!
# Roots of the quorums along the runs of a node

Blocks are connected, tested and disconnected, templates are made, and the node is restarted; the
cache of `CalcCbTxMerkleRootQuorums` lives through all but the last.

After a reorganisation a quorum can be mined again with another commitment. The cache notices this
only because the root is calculated for the block that brings the new commitment, when the quorum is
not active. Where that is skipped, for coinbases of version 1 and for blocks assumed to be valid,
the cache goes on with the old commitment.
-/

namespace Trivechain.Evo
open Bls Llmq Work CommitmentHash
open Std (ExtTreeMap)
open Run BlockIndex QuorumBlockProcessor
open List QuorumBlockProcessor Encodable MinedTables FinalCommitment Except

section Runs
variable [ChainHash] [CommitmentHash] [MerkleRoot]

structure QuorumContext where
  env : Env
  view : ChainView
  keyed : view.Keyed

structure QuorumNode where
  processor : QuorumBlockProcessor := {}
  roots : QcHashCache := {}
  tip : BlockIndex

/-- How far a block comes in `ConnectBlock`, as far as it depends on other checks. -/
inductive Fate where
  /-- It is refused before the commitments are processed. -/
  | refusedEarly
  /-- It is refused after that, before the roots are checked. -/
  | refusedLate
  /-- The roots are checked, then the block is refused or was only tested. -/
  | tested
  | kept
deriving DecidableEq, Repr

inductive NodeEvent where
  /-- `ConnectBlock`; `checkRoots` is off for blocks that are assumed to be valid. -/
  | connect (block : Block) (checkRoots : Bool) (fate : Fate)
  /-- `DisconnectTip` -/
  | disconnect
  /-- The call in `CreateNewBlock`. -/
  | createNewBlock (block : Block)
  /-- The evo database is all that is left. -/
  | restart

/-- `CheckCbTxMerkleRoots` calculates the root of the quorums. -/
def Block.hasQuorumRoot (block : Block) : Bool :=
  match block.vtx with
  | [] => false
  | tx :: _ =>
    match tx.payload with
    | .coinbase (some cbTx) => 2 ≤ cbTx.nVersion
    | _ => false

namespace QuorumNode

def start (tip : BlockIndex) (t : MinedTables) : QuorumNode := { processor := { evoDb := t }, tip }

variable (ctx : QuorumContext) (s : QuorumNode)

def rollback (processor : QuorumBlockProcessor) (roots : QcHashCache) : QuorumNode :=
  { s with processor := { processor with evoDb := s.processor.evoDb }, roots }

/-- The calculation of the root in `ConnectBlock`, with the commitments of the block stored. -/
def checkRoot (block : Block) (checkRoots : Bool) (processor : QuorumBlockProcessor) :
    Run QcHashCache :=
  if checkRoots && block.hasQuorumRoot then do
    let (_, roots) ← calcCbTxMerkleRootQuorums ctx.env processor.evoDb s.roots block s.tip
    return roots
  else .ok s.roots

def connect (block : Block) (checkRoots : Bool) (fate : Fate) : Run QuorumNode :=
  if fate = .refusedEarly then .ok s
  else
    match exec (processBlock ctx.env ctx.view s.tip s.tip block)
        s.processor with
    | (.error (.fault f), _) => .error (.fault f)
    | (.error (.rejected _), processor) => .ok (s.rollback processor s.roots)
    | (.ok _, processor) =>
      if fate = .refusedLate then .ok (s.rollback processor s.roots)
      else do
        let roots ← s.checkRoot ctx block checkRoots processor
        if fate = .kept then return { processor, roots, tip := s.tip.next block }
        else return s.rollback processor roots

def disconnect : Run QuorumNode :=
  match s.tip.pprev with
  | none => .ok s
  | some pprev =>
    match s.processor.undoBlock ctx.env s.tip.nHeight s.tip.block with
    | .error (.fault f) => .error (.fault f)
    | .error (.rejected _) => .ok s
    | .ok processor => .ok { s with processor, tip := pprev }

def step : NodeEvent → Run QuorumNode
  | .connect block checkRoots fate => s.connect ctx block checkRoots fate
  | .disconnect => s.disconnect ctx
  | .createNewBlock block => do
    let (_, roots) ← calcCbTxMerkleRootQuorums ctx.env s.processor.evoDb s.roots block s.tip
    return { s with roots }
  | .restart => .ok (start s.tip s.processor.evoDb)

def run (events : List NodeEvent) : Run QuorumNode := events.foldlM (step ctx) s

/-- A call of `CalcCbTxMerkleRootQuorums`: the tables and the cache it finds, and its block. -/
structure RootCall where
  tables : MinedTables
  roots : QcHashCache
  block : Block

def rootCall : NodeEvent → Option RootCall
  | .connect block checkRoots fate =>
    if fate = .refusedEarly ∨ fate = .refusedLate ∨ !(checkRoots && block.hasQuorumRoot) then none
    else
      match exec (processBlock ctx.env ctx.view s.tip s.tip block)
          s.processor with
      | (.ok _, processor) => some ⟨processor.evoDb, s.roots, block⟩
      | (.error _, _) => none
  | .createNewBlock block => some ⟨s.processor.evoDb, s.roots, block⟩
  | .disconnect | .restart => none

def RootsFresh (events : List NodeEvent) : Prop :=
  ∀ pre e post, events = pre ++ e :: post → ∀ s', s.run ctx pre = .ok s' →
    ∀ call ∈ s'.rootCall ctx e,
      (calcCbTxMerkleRootQuorums ctx.env call.tables call.roots call.block s'.tip).map Prod.fst =
        freshRootQuorums ctx.env call.tables call.block s'.tip

/-- A block that is kept and brings a commitment has its root calculated. -/
def Guarded : NodeEvent → Prop
  | .connect block checkRoots .kept =>
    Quiet ctx.env (s.tip.nHeight + 1) ∨
    (∀ tx ∈ block.vtx, ∀ qc, tx.payload = .quorumCommitment (some qc) →
      qc.commitment.isNull = true) ∨
    (checkRoots && block.hasQuorumRoot) = true
  | _ => True

/-- The database has the commitments of the chain, and both caches are right for it. -/
structure Consistent : Prop where
  stored : Stored ctx.env s.tip s.processor.evoDb
  remembers : s.processor.Remembers s.processor.evoDb
  current : s.roots.Current s.processor.evoDb

variable {ctx} {s}
variable {block : Block} {processor : QuorumBlockProcessor} {s' : QuorumNode} {e : NodeEvent}

section
variable (h : s.Consistent ctx)
include h

omit [MerkleRoot] in
lemma Consistent.processBlock {r : Run Unit}
    (he : exec (processBlock ctx.env ctx.view s.tip s.tip block) s.processor = (r, processor)) :
    processor.Remembers s.processor.evoDb ∧ (r = .ok () →
      BlockProcessed ctx.env ctx.view s.tip s.tip block s.processor.evoDb processor.evoDb ∧
      processor.Remembers processor.evoDb) := by
  have hi := QuorumBlockProcessor.Inside.refl h.remembers
  cases r with
  | error e =>
    obtain ⟨t', hi'⟩ := (processBlock_spec fun _ _ _ => rfl).of_error hi he
    exact ⟨hi'.before, fun h => by cases h⟩
  | ok u =>
    obtain ⟨t', hp, hi'⟩ := (processBlock_spec fun _ _ _ => rfl).of_ok hi he
    obtain rfl := hi'.evoDb
    exact ⟨hi'.before, fun _ => ⟨hp, hi'.now⟩⟩

omit [MerkleRoot] in
lemma Consistent.rollback {roots : QcHashCache} (hr : processor.Remembers s.processor.evoDb)
    (hc : roots.Current s.processor.evoDb) : (s.rollback processor roots).Consistent ctx :=
  ⟨h.stored, hr, hc⟩

/-- After `ConnectBlock` the cache is current for the tables before the block, and if the root was
calculated, for those after it as well. -/
lemma Consistent.checkRoot {checkRoots : Bool} {roots : QcHashCache}
    (hp : BlockProcessed ctx.env ctx.view s.tip s.tip block s.processor.evoDb processor.evoDb)
    (hr : s.checkRoot ctx block checkRoots processor = .ok roots) :
    roots.Current s.processor.evoDb ∧
      ((checkRoots && block.hasQuorumRoot) = true → roots.Current processor.evoDb) := by
  unfold QuorumNode.checkRoot at hr
  obtain ⟨hb, hm⟩ := hp.keeps
  split_ifs at hr with hh
  · obtain ⟨⟨root, roots'⟩, hcl, hr⟩ := bind_ok.1 hr
    obtain rfl := ok.inj hr
    rw [(calc_congr s.roots block h.stored hb hm).1] at hcl
    obtain ⟨hc, ha⟩ := (calc_spec h.stored h.current).2 root roots' hcl
    refine ⟨hc, fun _ => hc.mono fun type l hl quorum hq e he => ?_⟩
    obtain ⟨e', he'⟩ := Option.isSome_iff_exists.1 (ha type l hl quorum hq)
    rw [hm _ e' he'] at he
    rw [he', he]
  · cases hr
    exact ⟨h.current, fun hc' => absurd hc' hh⟩

lemma Consistent.connect {checkRoots : Bool} {fate : Fate}
    (hg : s.Guarded ctx (.connect block checkRoots fate))
    (hs' : s.connect ctx block checkRoots fate = .ok s') : s'.Consistent ctx := by
  unfold QuorumNode.connect at hs'
  by_cases he : fate = .refusedEarly
  · rw [if_pos he] at hs'
    exact ok.inj hs' ▸ h
  rw [if_neg he] at hs'
  rcases hec : exec (QuorumBlockProcessor.processBlock ctx.env ctx.view s.tip s.tip block)
    s.processor with ⟨r, processor⟩
  obtain ⟨hr, ho⟩ := h.processBlock hec
  rw [hec] at hs'
  rcases r with (r | f) | u
  · exact ok.inj hs' ▸ h.rollback hr h.current
  · cases hs'
  obtain ⟨hp, hr'⟩ := ho rfl
  by_cases hl : fate = .refusedLate
  · rw [hl] at hs'
    exact ok.inj hs' ▸ h.rollback hr h.current
  obtain ⟨roots, ht, hs'⟩ := bind_ok.1 ((if_neg hl).symm.trans hs')
  obtain ⟨hc, hc'⟩ := h.checkRoot hp ht
  by_cases hk : fate = .kept
  · subst hk
    cases hs'
    refine ⟨h.stored.blockProcessed ctx.keyed hp, hr', ?_⟩
    rcases hg with hq | hn | hh
    · exact (hp.eq_of_quiet hq).symm ▸ hc
    · exact (hp.eq_of_null hn).symm ▸ hc
    · exact hc' hh
  · obtain rfl := ok.inj ((if_neg hk).symm.trans hs')
    exact h.rollback hr hc

omit [MerkleRoot] in
lemma Consistent.disconnect (hs' : s.disconnect ctx = .ok s') :
    s'.Consistent ctx := by
  unfold QuorumNode.disconnect at hs'
  cases hp : s.tip.pprev with
  | none =>
    rw [hp] at hs'
    exact ok.inj hs' ▸ h
  | some pprev =>
    have ht := eq_next_of_pprev s.tip hp
    have hh : s.tip.nHeight = pprev.nHeight + 1 := congrArg BlockIndex.nHeight ht
    rw [hp] at hs'
    dsimp only at hs'
    cases hu : s.processor.undoBlock ctx.env s.tip.nHeight s.tip.block with
    | error e =>
      rw [hu] at hs'
      cases e with
      | rejected r => exact ok.inj hs' ▸ h
      | fault f => cases hs'
    | ok processor =>
      rw [hu] at hs'
      cases hs'
      have hs := h.stored
      rw [ht] at hs
      obtain ⟨ht', hr, hb⟩ := hs.undoBlock h.remembers (hh ▸ hu)
      exact ⟨ht', hr, h.current.mono fun _ _ _ _ _ e he => hb _ e he⟩

end

omit [MerkleRoot] in
lemma consistent_start {tip : BlockIndex} {t : MinedTables} (h : Stored ctx.env tip t) :
    (start tip t).Consistent ctx := by
  refine ⟨h, fun k b hk => by simp [start] at hk, fun _ _ => 0, ?_,
    fun type l hl => by simp [start] at hl⟩
  exact ExtTreeMap.ext_getElem? fun k => by simp [start]

omit [MerkleRoot] in
lemma disconnect_of_undoBlock {pprev : BlockIndex} (hp : s.tip.pprev = some pprev)
    (hu : s.processor.undoBlock ctx.env s.tip.nHeight s.tip.block = .ok processor) :
    s.disconnect ctx = .ok { s with processor, tip := pprev } := by
  simp only [QuorumNode.disconnect, hp, hu]

lemma Consistent.step (h : s.Consistent ctx) (hg : s.Guarded ctx e)
    (hs' : s.step ctx e = .ok s') : s'.Consistent ctx := by
  cases e with
  | connect block checkRoots fate => exact h.connect hg hs'
  | disconnect => exact h.disconnect hs'
  | createNewBlock block =>
    obtain ⟨⟨root, roots⟩, hc, hs'⟩ := bind_ok.1 hs'
    cases hs'
    exact ⟨h.stored, h.remembers, ((calc_spec h.stored h.current).2 root roots hc).1⟩
  | restart =>
    cases hs'
    exact consistent_start h.stored

lemma Consistent.rootCall_fresh (h : s.Consistent ctx) {call : RootCall}
    (hc : call ∈ s.rootCall ctx e) :
    (calcCbTxMerkleRootQuorums ctx.env call.tables call.roots call.block s.tip).map Prod.fst =
      freshRootQuorums ctx.env call.tables call.block s.tip := by
  cases e with
  | disconnect | restart => cases hc
  | createNewBlock block =>
    cases hc
    exact (calc_spec h.stored h.current).1
  | connect block checkRoots fate =>
    dsimp only [rootCall] at hc
    rcases he : exec (QuorumBlockProcessor.processBlock ctx.env ctx.view s.tip s.tip block)
      s.processor with ⟨r, processor⟩
    rw [he] at hc
    rcases r with e | u
    · simp at hc
    · obtain ⟨hp, -⟩ := (h.processBlock he).2 rfl
      obtain ⟨hb, hm⟩ := hp.keeps
      split_ifs at hc with hs
      · cases hc
      · cases hc
        obtain ⟨hl, hf⟩ := calc_congr s.roots block h.stored hb hm
        rw [hl, hf]
        exact (calc_spec h.stored h.current).1

lemma run_cons {events : List NodeEvent} (h : s.step ctx e = .ok s') :
    s.run ctx (e :: events) = s'.run ctx events := by
  rw [run, foldlM_cons, h, ok_bind, run]

variable (ctx s) in
def GuardedRun (events : List NodeEvent) : Prop :=
  ∀ pre e post, events = pre ++ e :: post → ∀ s', s.run ctx pre = .ok s' → s'.Guarded ctx e

lemma Consistent.run (h : s.Consistent ctx) {events : List NodeEvent}
    (hg : s.GuardedRun ctx events) (hs' : s.run ctx events = .ok s') : s'.Consistent ctx :=
  Run.Guarded.invariant (fun s => s.Consistent ctx)
    (fun _ _ _ hs hr ht => hs.step hr ht) hg h hs'

end QuorumNode

/-- On any chain: if the root is calculated for every block that is kept and brings a commitment,
the cache never changes a root. -/
theorem rootsFresh_of_guarded (ctx : QuorumContext) (tip : BlockIndex) (t : MinedTables)
    (events : List NodeEvent) (hstored : Stored ctx.env tip t)
    (hguarded : (QuorumNode.start tip t).GuardedRun ctx events) :
    (QuorumNode.start tip t).RootsFresh ctx events := by
  intro pre e post he s hs call hc
  have hp : (QuorumNode.start tip t).GuardedRun ctx pre := by
    rw [he] at hguarded
    exact Run.Guarded.of_append hguarded
  exact ((QuorumNode.consistent_start hstored).run hp hs).rootCall_fresh hc

end Runs

/-! ## A quorum that is mined again -/

namespace Remined

def empty : Block := { vtx := [] }

/-- A chain of empty blocks. It is long and must not be unfolded. -/
@[irreducible] def idle (nHeight : Nat) : BlockIndex := ⟨empty, List.replicate nHeight empty⟩

lemma idle_succ (n : Nat) : idle (n + 1) = (idle n).next empty := by
  unfold idle
  rfl

local instance : CommitmentHash := ⟨encode⟩
local instance : MerkleRoot := ⟨fun hashes => (encode hashes, false)⟩

lemma nHeight_idle (n : Nat) : (idle n).nHeight = n := by
  unfold idle
  exact length_replicate

lemma getAncestor_idle {m n : Nat} (h : m ≤ n) : (idle n).getAncestor m = some (idle m) := by
  induction h with
  | refl =>
    have hs := getAncestor_eq_some.2 (suffix_refl (idle m).chain)
    rwa [nHeight_idle] at hs
  | @step n _ ih =>
    rw [idle_succ]
    exact getAncestor_next ih

def env : Env := { Env.permissive .regTest .regTest with modifier := fun _ _ => 0 }

def masternode (i : Nat) : DeterministicMN where
  proTxHash := i
  internalId := i
  collateralOutpoint := ⟨i, 0⟩
  nOperatorReward := 0
  pdmnState := { confirmedHash := 1, confirmedHashWithProRegTxHash := i, pubKeyOperator := some i }

def list : DeterministicMNList where
  mnMap := [1, 2, 3, 4, 5].foldl (fun m i => m.insert i (masternode i)) ∅

def quorum : BlockIndex := idle 465000

def tip : BlockIndex := idle 465024

lemma nHeight_tip : tip.nHeight = 465024 := nHeight_idle _

lemma getAncestor_tip : tip.getAncestor ((465000 : Nat) : Int) = some quorum :=
  getAncestor_idle (by decide)

def coinbase (nVersion nHeight : Nat) : Transaction where
  nVersion := 3
  payload := .coinbase (some ⟨nVersion, nHeight⟩)
  vin := [.null]
  vout := []

def mining (qc : FinalCommitment) : Block where
  vtx := [coinbase 1 465025,
    { nVersion := 3, vin := [], vout := []
      payload := .quorumCommitment (some { nHeight := 465025, commitment := qc }) }]

def probe : Block := { vtx := [coinbase 2 465026] }

lemma getCommitmentsFromBlock_empty (nHeight : Nat) :
    getCommitmentsFromBlock env empty nHeight = .ok ∅ := by
  simp [getCommitmentsFromBlock, empty, Run.denyIf]

lemma commitments_mining {qc : FinalCommitment} (ht : qc.llmqType = LLMQ_5_60) :
    getCommitmentsFromBlock env (mining qc) (tip.nHeight + 1) =
      .ok ((∅ : ExtTreeMap LLMQType FinalCommitment).insert LLMQ_5_60 qc) := by
  have hl : ¬ tip.nHeight + 1 < env.consensus.DIP0003Height := by rw [nHeight_tip]; decide
  simp [getCommitmentsFromBlock, mining, coinbase, addCommitment, Run.orDeny, Run.denyIf, ht, hl]

lemma commitments_probe (nHeight : Nat) : getCommitmentsFromBlock env probe nHeight = .ok ∅ := by
  simp [getCommitmentsFromBlock, probe, coinbase, addCommitment, Run.denyIf]

lemma toList_single {α : Type} (a : α) :
    ((∅ : ExtTreeMap LLMQType α).insert LLMQ_5_60 a).toList = [(LLMQ_5_60, a)] := rfl

lemma values_single {α : Type} (a : α) :
    Maps.values ((∅ : ExtTreeMap LLMQType α).insert LLMQ_5_60 a) = [a] := rfl

lemma length_members : (list.calculateQuorum env 5 0).length = 5 := by
  rw [DeterministicMNList.calculateQuorum, length_take, length_map, length_mergeSort]
  decide +kernel

section Chain
variable [ChainHash]

def view : ChainView where
  getUTXOCoin _ := none
  findBlock hash := if hash = quorum.getBlockHash then some quorum else none
  getListForBlock _ := list
  dip0008Active _ := false

lemma view_keyed : view.Keyed := by
  intro hash pindex h
  simp only [view, Option.ite_none_right_eq_some, Option.some.injEq] at h
  rw [← h.2, h.1]

def ctx : QuorumContext := ⟨env, view, view_keyed⟩

lemma stored_idle (n : Nat) : Stored env (idle n) {} := by
  induction n with
  | zero => exact .start _ (.inl (by rw [nHeight_idle]; exact Nat.zero_le _))
  | succ n ih =>
    by_cases hq : Quiet env (n + 1)
    · exact .start _ (by rwa [nHeight_idle])
    · rw [idle_succ]
      exact .next ih view_keyed (by rwa [nHeight_idle]) (getCommitmentsFromBlock_empty _) .nil

lemma stored_tip : Stored ctx.env tip {} := stored_idle _

def commitment (signers : List Bool) : FinalCommitment where
  llmqType := LLMQ_5_60
  quorumHash := quorum.getBlockHash
  signers
  validMembers := [true, true, true, true, true]
  quorumPublicKey := some 1
  quorumVvecHash := 1
  quorumSig := some 1
  membersSig := some 1

def holding (qc : FinalCommitment) : MinedTables :=
  ({} : MinedTables).store 465025 (tip.next (mining qc)).getBlockHash qc 465000

variable {signers : List Bool} {s : QuorumNode}

lemma verify_commitment (hz : signers.length = 5) (hc : 4 ≤ signers.count true)
    {members : List DeterministicMN} (hl : members.length = 5) :
    (commitment signers).verify env members true = .ok true := by
  have hp : env.consensus.findLLMQ LLMQ_5_60 = some llmq5_60 := by decide
  have hi : (commitment signers).verifySizes llmq5_60 = true := by
    simp [verifySizes, commitment, hz, llmq5_60]
  have hs : ¬ (commitment signers).countSigners < llmq5_60.minSize := not_lt.2 hc
  have hv : ¬ (commitment signers).countValidMembers < llmq5_60.minSize := by
    simp [countValidMembers, commitment, llmq5_60]
  have hr : (commitment signers).restUnset llmq5_60 members.length = .ok true := by
    rw [hl]; rfl
  obtain ⟨keys, hk⟩ := (commitment signers).signersKeys_ok (hl.trans hz.symm).le
  have hg : (commitment signers).verifySigs env llmq5_60 members = .ok true := by
    rw [verifySigs, hk]
    rfl
  have ht : (commitment signers).llmqType = LLMQ_5_60 := rfl
  rw [verify, if_neg (by simp [commitment, FinalCommitment.CURRENT_VERSION]), ht,
    hp]
  simp only [hi, hs, hv, hr, hg, Bool.not_true, Bool.false_eq_true, if_false, ok_bind, if_true]
  simp [commitment]

section
variable (hne : quorum.getBlockHash ≠ 0)
include hne

lemma processed (hz : signers.length = 5) (hc : 4 ≤ signers.count true) :
    Processed env view tip (tip.nHeight + 1) (tip.next (mining (commitment signers))).getBlockHash
      (commitment signers) {} (holding (commitment signers)) := by
  generalize hq : commitment signers = qc
  have ht : qc.llmqType = LLMQ_5_60 := hq ▸ rfl
  have hh : qc.quorumHash = quorum.getBlockHash := hq ▸ rfl
  have hg : holding qc = ({} : MinedTables).store (tip.nHeight + 1)
      (tip.next (mining qc)).getBlockHash qc quorum.nHeight := by
    rw [nHeight_tip, quorum, nHeight_idle, holding]
  rw [hg]
  have hs : ForSession env tip (tip.nHeight + 1) qc llmq5_60 := by
    refine ⟨?_, ?_, ⟨quorum, ?_, hh.symm⟩, ?_⟩
    · rw [nHeight_tip]; decide
    · rw [ht]; decide
    · rw [nHeight_tip]
      exact getAncestor_tip
    · rw [hh]
      exact hne
  have hn : qc.isNull = false := by simp [← hq, commitment, isNull]
  have hp : isMiningPhase env qc.llmqType (tip.nHeight + 1) = .ok true := by
    rw [nHeight_tip, ht]; rfl
  have hi : view.findBlock qc.quorumHash = some quorum := by
    rw [hh]; simp [view]
  have hm : getAllQuorumMembers env view.ask qc.llmqType quorum =
      .ok (list.calculateQuorum env 5 0) := by
    rw [ht]; rfl
  have hv := verify_commitment hz hc length_members
  rw [hq] at hv
  exact .stored hs hn (by simp) hp hi hm hv

lemma checkRequired_quorum {s0 : QuorumBlockProcessor} {qcs : ExtTreeMap LLMQType FinalCommitment}
    {active : BlockIndex} {nHeight : Nat} {E : QuorumBlockProcessor → Prop}
    (hr : active.getAncestor ((465000 : Nat) : Int) = some quorum)
    (hh : nHeight = 465025 ∨ nHeight = 465026) (hn : qcs.contains LLMQ_5_60 =
      !s0.evoDb.mined.contains (LLMQ_5_60, quorum.getBlockHash)) :
    ∀ params ∈ env.consensus.llmqs, Work.Triple (Inside s0 s0.evoDb)
      (checkRequired env active nHeight qcs params) (fun _ => Inside s0 s0.evoDb) E := by
  intro params hp
  obtain rfl : params = llmq5_60 := mem_singleton.1 hp
  have hph : isMiningPhase env LLMQ_5_60 nHeight = .ok true := by
    rcases hh with rfl | rfl <;> rfl
  have hs : llmq5_60.quorumStartHeight nHeight = 465000 := by
    rcases hh with rfl | rfl <;> rfl
  have hk : env.consensus.findLLMQ LLMQ_5_60 = some llmq5_60 := by decide
  have hhs : getQuorumBlockHash env active LLMQ_5_60 nHeight = .ok quorum.getBlockHash :=
    getQuorumBlockHash_of_getAncestor hk (hs.symm ▸ hr)
  refine checkRequired_accepts hk ?_
  have ht : llmq5_60.type = LLMQ_5_60 := rfl
  rw [ht, hn, Bool.not_eq_true']
  constructor
  · exact fun hf => ⟨_, hhs, hne, hph, hf⟩
  · rintro ⟨quorumHash, hq, -, -, hf⟩
    obtain rfl := ok.inj (hhs.symm.trans hq)
    exact hf

lemma process_mining (hz : signers.length = 5)
    (hc : 4 ≤ signers.count true) {s : QuorumBlockProcessor} (hd : s.evoDb = {})
    (hs : s.Remembers s.evoDb) : ∃ processor, exec (processBlock ctx.env ctx.view tip tip
        (mining (commitment signers))) s = (.ok (), processor) ∧
      s.Inside (holding (commitment signers)) processor := by
  have hl := ProcessedAll.snoc .nil (processed hne hz hc)
  rw [← hd, nil_append, ← values_single] at hl
  have ha : env.consensus.DIP0003Height ≤ tip.nHeight + 1 := by rw [nHeight_tip]; decide
  have hh : tip.nHeight + 1 = 465025 := by rw [nHeight_tip]
  obtain ⟨_, processor, he, hi⟩ := (processBlock_accepts ha (commitments_mining rfl)
    (checkRequired_quorum hne getAncestor_tip (.inl hh) (by simp [hd]))
    hl).exists_ok (.refl hs)
  exact ⟨processor, he, hi⟩

lemma connect_mining (hz : signers.length = 5) (hc : 4 ≤ signers.count true) (ht : s.tip = tip)
    (hd : s.processor.evoDb = {}) (hs : s.processor.Remembers s.processor.evoDb) : ∃ processor,
      s.step ctx (.connect (mining (commitment signers)) true .kept) =
        .ok ⟨processor, s.roots, tip.next (mining (commitment signers))⟩ ∧
      s.processor.Inside (holding (commitment signers)) processor := by
  obtain ⟨processor, he, hi⟩ := process_mining hne hz hc hd hs
  refine ⟨processor, ?_, hi⟩
  have hr : s.checkRoot ctx (mining (commitment signers)) true processor = .ok s.roots := by
    rw [QuorumNode.checkRoot, if_neg (by simp [Block.hasQuorumRoot, mining, coinbase])]
  rw [QuorumNode.step, QuorumNode.connect, if_neg (by decide), ht, he]
  simp only [hr]
  rfl

lemma process_probe {s : QuorumBlockProcessor}
    (hd : s.evoDb = holding (commitment signers)) (hs : s.Remembers s.evoDb) :
    ∃ processor, exec (processBlock ctx.env ctx.view
        (tip.next (mining (commitment signers))) (tip.next (mining (commitment signers))) probe) s =
        (.ok (), processor) ∧ s.Inside (holding (commitment signers)) processor := by
  have hh : (tip.next (mining (commitment signers))).nHeight + 1 = 465026 := by
    rw [nHeight_next, nHeight_tip]
  have ha : env.consensus.DIP0003Height ≤
      (tip.next (mining (commitment signers))).nHeight + 1 := by rw [hh]; decide
  have hn : (∅ : ExtTreeMap LLMQType FinalCommitment).contains LLMQ_5_60 =
      !s.evoDb.mined.contains (LLMQ_5_60, quorum.getBlockHash) := by
    simp [hd, holding, store, commitment]
  obtain ⟨_, processor, he, hi⟩ := (processBlock_accepts ha
    (commitments_probe _) (checkRequired_quorum hne (getAncestor_next getAncestor_tip)
      (.inr hh) hn) .nil).exists_ok (.refl hs)
  exact ⟨processor, he, hd ▸ hi⟩

end

def cacheOf (qc : FinalCommitment) : QcHashCache where
  quorumsCached := (∅ : ExtTreeMap LLMQType (List BlockIndex)).insert LLMQ_5_60 [quorum]
  qcHashesCached := (∅ : ExtTreeMap LLMQType (List Uint256)).insert LLMQ_5_60
    [serializeHash qc]

lemma active_holding (signers : List Bool) :
    (holding (commitment signers)).getMinedAndActiveCommitmentsUntilBlock env
      (tip.next (mining (commitment signers))) =
        .ok (cacheOf (commitment signers)).quorumsCached := by
  have hu : (holding (commitment signers)).minedUntil LLMQ_5_60
      (tip.next (mining (commitment signers))).nHeight = [((LLMQ_5_60, 465025), 465000)] := by
    rw [nHeight_next, nHeight_tip]
    rfl
  have hr : (holding (commitment signers)).getMinedCommitmentsUntilBlock LLMQ_5_60
      (tip.next (mining (commitment signers))) 24 = .ok [quorum] := by
    rw [getMinedCommitmentsUntilBlock, hu]
    exact mapM_eq_ok (g := fun _ => quorum) fun p hp => by
      obtain rfl := mem_singleton.1 hp
      exact demand_ok.2 (getAncestor_next getAncestor_tip)
  change ([llmq5_60].foldlM _ ∅ : Run _) = _
  rw [foldlM_cons]
  simp only [llmq5_60, hr]
  rfl

lemma minedHashes_holding (signers : List Bool) :
    minedHashes (holding (commitment signers)) (cacheOf (commitment signers)).quorumsCached =
      .ok (cacheOf (commitment signers)).qcHashesCached := by
  have hh : minedHash (holding (commitment signers)) LLMQ_5_60 quorum =
      .ok (serializeHash (commitment signers)) := by
    simp [minedHash, holding, store, commitment, Run.demand]
  rw [minedHashes, cacheOf, toList_single]
  simp [hh]

omit [ChainHash] in
lemma rootOfHashes_probe (qc : FinalCommitment) :
    rootOfHashes env probe (cacheOf qc).qcHashesCached = .ok (encode [encode qc], true) := by
  have ht : probe.txs = [] := rfl
  rw [rootOfHashes, ht, cacheOf]
  simp [values_single, serializeHash, MerkleRoot.computeMerkleRoot]

lemma remove_holding (qc : FinalCommitment) : (holding qc).remove 465025 qc = {} := by
  have hm : ((holding qc).remove 465025 qc).mined = ∅ := ExtTreeMap.ext_getElem? fun k => by
      simp [remove, holding, store]
  have hb : ((holding qc).remove 465025 qc).byHeight = ∅ := ExtTreeMap.ext_getElem? fun k => by
      simp [MinedTables.remove, holding, MinedTables.store]
  exact congrArg₂ MinedTables.mk hm hb

lemma undo_mining [CommitmentHash] {s : QuorumBlockProcessor}
    (hd : s.evoDb = holding (commitment signers)) (hs : s.Remembers s.evoDb)
    (hm : s.minableCommitmentsByQuorum = ∅) :
    ∃ processor, s.undoBlock ctx.env (tip.next (mining (commitment signers))).nHeight
        (mining (commitment signers)) = .ok processor ∧
      processor.evoDb = {} ∧ processor.Remembers processor.evoDb := by
  have hn : (commitment signers).isNull = false := by simp [commitment, isNull]
  obtain ⟨processor, hu⟩ : ∃ processor, [commitment signers].foldlM
      (undoCommitment (tip.nHeight + 1)) s = .ok processor := by
    simp [undoCommitment, hn, addMinableCommitment, hm]
  obtain ⟨he, hr⟩ := foldlM_undoCommitment hu
  refine ⟨processor, ?_, ?_, he ▸ (hr _ hs).2⟩
  · rw [ctx, undoBlock, nHeight_next, commitments_mining rfl, ok_bind, values_single, hu]
  · rw [he, hd, nHeight_tip, MinedTables.removeAll, foldl_cons, foldl_nil,
      if_neg (by simp [hn]), remove_holding]

lemma disconnect_mining (ht : s.tip = tip.next (mining (commitment signers)))
    (hd : s.processor.evoDb = holding (commitment signers))
    (hs : s.processor.Remembers s.processor.evoDb)
    (hm : s.processor.minableCommitmentsByQuorum = ∅) :
    ∃ processor, s.step ctx .disconnect = .ok { s with processor, tip } ∧
      processor.evoDb = {} ∧ processor.Remembers processor.evoDb := by
  obtain ⟨processor, hu, hp⟩ := undo_mining hd hs hm
  refine ⟨processor, ?_, hp⟩
  refine QuorumNode.disconnect_of_undoBlock (ht ▸ pprev_next ..) ?_
  rw [ht, block_next, hu]

section
variable (hne : quorum.getBlockHash ≠ 0) (ht : s.tip = tip.next (mining (commitment signers)))
  (hd : s.processor.evoDb = holding (commitment signers))
  (hs : s.processor.Remembers s.processor.evoDb)
include hne ht hd hs

lemma rootCall_probe : s.rootCall ctx (.connect probe true .tested) =
    some ⟨holding (commitment signers), s.roots, probe⟩ := by
  obtain ⟨processor, he, hi⟩ := process_probe hne hd hs
  rw [QuorumNode.rootCall, ht, he]
  simp [probe, coinbase, Block.hasQuorumRoot, hi.evoDb]

lemma test_probe (hr : s.roots = {}) :
    ∃ processor, s.step ctx (.connect probe true .tested) =
        .ok (s.rollback processor (cacheOf (commitment signers))) ∧
      s.processor.Inside (holding (commitment signers)) processor := by
  obtain ⟨processor, he, hi⟩ := process_probe hne hd hs
  refine ⟨processor, ?_, hi⟩
  have hm : (cacheOf (commitment signers)).quorumsCached.toList ≠
      ({} : QcHashCache).quorumsCached.toList := by
    rw [cacheOf, toList_single]
    exact cons_ne_nil _ _
  have hl : calcCbTxMerkleRootQuorums ctx.env (holding (commitment signers)) {} probe
      (tip.next (mining (commitment signers))) =
      .ok ((encode [encode (commitment signers)], true), cacheOf (commitment signers)) := by
    rw [ctx, calcCbTxMerkleRootQuorums, active_holding, ok_bind, if_neg hm,
      minedHashes_holding, ok_bind, rootOfHashes_probe, ok_bind]
    rfl
  have hc : s.checkRoot ctx probe true processor = .ok (cacheOf (commitment signers)) := by
    rw [QuorumNode.checkRoot, if_pos (by simp [probe, coinbase, Block.hasQuorumRoot]),
      hi.evoDb, hr, ht, hl, ok_bind]
    rfl
  rw [QuorumNode.step, QuorumNode.connect, if_neg (by decide), ht, he]
  simp only [hc]
  rfl

end

def four : List Bool := [true, true, true, true, false]
def five : List Bool := [true, true, true, true, true]

def history : List NodeEvent :=
  [.connect (mining (commitment four)) true .kept, .connect probe true .tested, .disconnect,
    .connect (mining (commitment five)) true .kept]

lemma calc_stale (signers signers' : List Bool) :
    (calcCbTxMerkleRootQuorums env (holding (commitment signers)) (cacheOf (commitment signers'))
      probe (tip.next (mining (commitment signers)))).map Prod.fst =
        .ok (encode [encode (commitment signers')], true) ∧
    freshRootQuorums env (holding (commitment signers)) probe
      (tip.next (mining (commitment signers))) =
        .ok (encode [encode (commitment signers)], true) := by
  have hh : (cacheOf (commitment signers)).quorumsCached.toList =
      (cacheOf (commitment signers')).quorumsCached.toList := by rw [cacheOf, cacheOf]
  rw [calcCbTxMerkleRootQuorums, freshRootQuorums, active_holding, ok_bind, ok_bind,
    if_pos hh, minedHashes_holding, ok_bind, rootOfHashes_probe, rootOfHashes_probe]
  exact ⟨rfl, rfl⟩

lemma history_stale (hne : quorum.getBlockHash ≠ 0) :
    ¬ (QuorumNode.start tip {}).RootsFresh ctx (history ++ [.connect probe true .tested]) := by
  intro hf
  have he : QuorumBlockProcessor.Remembers {} {} := fun k b hk => by simp at hk
  obtain ⟨p1, hs1, hi1⟩ := connect_mining hne (rfl : four.length = 5) (by decide)
    (s := QuorumNode.start tip {}) rfl rfl he
  obtain ⟨p2, hs2, hi2⟩ := test_probe hne (s := ⟨p1, {}, tip.next (mining (commitment four))⟩)
    rfl hi1.evoDb (hi1.evoDb.symm ▸ hi1.now) rfl
  obtain ⟨p3, ht3, hd3, hs3⟩ := disconnect_mining
    (s := QuorumNode.rollback ⟨p1, {}, tip.next (mining (commitment four))⟩ p2
      (cacheOf (commitment four)))
    rfl hi1.evoDb hi2.before (hi2.byQuorum.trans hi1.byQuorum)
  obtain ⟨p4, hs4, hi4⟩ := connect_mining hne (rfl : five.length = 5) (by decide)
    (s := ⟨p3, cacheOf (commitment four), tip⟩) rfl hd3 hs3
  have hrn : (QuorumNode.start tip {}).run ctx history =
      .ok ⟨p4, cacheOf (commitment four), tip.next (mining (commitment five))⟩ :=
    calc (QuorumNode.start tip {}).run ctx history
      _ = _ := QuorumNode.run_cons hs1
      _ = _ := QuorumNode.run_cons hs2
      _ = _ := QuorumNode.run_cons ht3
      _ = _ := QuorumNode.run_cons hs4
  have hl := rootCall_probe hne
    (s := ⟨p4, cacheOf (commitment four), tip.next (mining (commitment five))⟩)
    rfl hi4.evoDb (hi4.evoDb.symm ▸ hi4.now)
  have hq := hf history _ [] rfl _ hrn _ hl
  obtain ⟨ht, hn⟩ := calc_stale five four
  have hr := ok.inj (ht.symm.trans (hq.trans hn))
  have hc : commitment four = commitment five :=
    encode_injective (singleton_inj.1 (encode_injective (congrArg Prod.fst hr)))
  have hs : four = five := congrArg signers hc
  exact absurd hs (by decide)

def rooted (qc : FinalCommitment) : Block := { vtx := coinbase 2 465025 :: (mining qc).txs }

def rootedHistory : List NodeEvent :=
  [.connect (rooted (commitment four)) true .kept, .connect probe true .tested, .disconnect,
    .connect (rooted (commitment five)) true .kept]

lemma guarded_rootedHistory : (QuorumNode.start tip {}).GuardedRun ctx
    (rootedHistory ++ [.connect probe true .tested]) := by
  intro pre e post he s _
  have hm := mem_append_right pre (mem_cons_self (a := e) (l := post))
  rw [← he] at hm
  simp only [rootedHistory, cons_append, nil_append, mem_cons, not_mem_nil, or_false] at hm
  rcases hm with rfl | rfl | rfl | rfl | rfl
  · exact .inr (.inr rfl)
  · trivial
  · trivial
  · exact .inr (.inr rfl)
  · trivial

end Chain

local instance : ChainHash := tableHash [] [idle 0]

lemma quorumHash_ne_zero : quorum.getBlockHash ≠ 0 := by
  intro hz
  have hg : (idle 0).getBlockHash = 0 := by
    simp [BlockIndex.getBlockHash, ChainHash.blockHash, tableCode]
  have he := congrArg BlockIndex.nHeight (eq_of_getBlockHash_eq (hz.trans hg.symm))
  rw [quorum, nHeight_idle, nHeight_idle] at he
  omega

/-- Four blocks of a reorganisation make the cache give the root of a commitment that left the
chain. -/
theorem commitment_stale_after_reorg : Stored ctx.env tip {} ∧
    ¬ (QuorumNode.start tip {}).RootsFresh ctx (history ++ [.connect probe true .tested]) :=
  ⟨stored_tip, history_stale quorumHash_ne_zero⟩

theorem fresh_after_reorg :
    (QuorumNode.start tip {}).RootsFresh ctx (rootedHistory ++ [.connect probe true .tested]) :=
  rootsFresh_of_guarded ctx tip {} _ stored_tip guarded_rootedHistory

end Remined
end Trivechain.Evo
