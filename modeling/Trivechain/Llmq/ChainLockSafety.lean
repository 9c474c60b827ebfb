import Trivechain.Evo.SimplifiedList
import Trivechain.Llmq.ChainLocks
import Trivechain.Llmq.QuorumManager

/-!
# CLSIG messages of any height

The way of a CLSIG through `ProcessNewChainLock`, `VerifyRecoveredSig`, `SelectQuorumForSigning`,
`GetActiveQuorumSet` and `ScanQuorums`, in any state of a node. Its height is chosen by the peer,
moved down by `SIGN_HEIGHT_OFFSET` and compared with the height of the chain, but not with zero, and
the entry of the active chain at a negative height is null.
-/

namespace Trivechain.Llmq
open Bls Evo ChainLocksHandler Work Option QuorumBlockProcessor BlockIndex Llmq.ConsensusParams
open Run (demand)
open Std (ExtTreeMap)
open Work (Triple exec)

def signHeightOffset : Int := 8

/-- An `int` after an operation that may leave its range. -/
def int32 (n : Int) : Int := (n + 2 ^ 31) % 2 ^ 32 - 2 ^ 31

/-- What does not change while a node runs. Chain locks are signed by one of its quorum types. -/
structure NodeContext where
  env : Env
  locks : ChainLockContext
  hashWriter : List Nat → Uint256
  known : (env.consensus.findLLMQ locks.llmqChainLocks).isSome = true

variable [ChainHash]

structure ChainLockNode where
  handler : ChainLocksHandler
  manager : QuorumManager := {}
  /-- `chainActive.Tip()` -/
  tip : BlockIndex

variable (ctx : NodeContext)

namespace QuorumManager

/-- `chainActive` is the active chain up to its tip. -/
def getActiveQuorumSet (view : ChainView) (chainActive : BlockIndex) (llmqType : LLMQType)
    (signHeight : Int) : Work QuorumManager (List BuiltQuorum) := do
  let llmqParams ← liftM (ctx.env.consensus.getLLMQ llmqType)
  let startBlockHeight := int32 (signHeight - signHeightOffset)
  if (chainActive.nHeight : Int) < startBlockHeight then return []
  else
    -- `ScanQuorums` begins with the hash of this block
    let pindexStart ← liftM (demand .undefined (chainActive.getAncestor startBlockHeight))
    scanQuorums ctx.env view llmqType pindexStart llmqParams.signingActiveQuorumCount

def selectQuorumForSigning (view : ChainView) (chainActive : BlockIndex) (llmqType : LLMQType)
    (signHeight : Int) (selectionHash : Uint256) : Work QuorumManager (Option BuiltQuorum) := do
  let quorums ← getActiveQuorumSet ctx view chainActive llmqType signHeight
  return quorums.argmin fun q => ctx.hashWriter [llmqType.toNat, q.qc.quorumHash, selectionHash]

def verifyRecoveredSig (view : ChainView) (chainActive : BlockIndex) (signedAtHeight : Int)
    (id msgHash : Uint256) (sig : Option Sig) : Work QuorumManager Bool := do
  let llmqParams ← liftM (ctx.env.consensus.getLLMQ ctx.locks.llmqChainLocks)
  let quorum ← selectQuorumForSigning ctx view chainActive llmqParams.type signedAtHeight id
  match quorum with
  | none => return false
  | some quorum =>
    let signHash := ctx.hashWriter [llmqParams.type.toNat, quorum.qc.quorumHash, id, msgHash]
    return sig.any fun sig => quorum.qc.quorumPublicKey.any fun pk => ctx.locks.verify pk signHash sig

/-- `VerifyRecoveredSig` with the type that it is called for and does not look at. -/
def verifyRecoveredSigOf (view : ChainView) (chainActive : BlockIndex) (_llmqType : LLMQType) :=
  verifyRecoveredSig ctx view chainActive

/-- The signature is a valid one of the quorum that is selected for the id. -/
def SignedBySelected (s : QuorumManager) (view : ChainView) (chainActive : BlockIndex)
    (llmqType : LLMQType) (signedAtHeight : Int) (id msgHash : Uint256) (sig : Option Sig) : Prop :=
  ∃ quorum pk sig', (exec (selectQuorumForSigning ctx view chainActive llmqType signedAtHeight id)
      s).1 = .ok (some quorum) ∧ quorum.qc.quorumPublicKey = some pk ∧ sig = some sig' ∧
    ctx.locks.verify pk
      (ctx.hashWriter [llmqType.toNat, quorum.qc.quorumHash, id, msgHash]) sig' = true

variable {ctx}

/-- Signatures are verified with the quorums that sign chain locks. -/
lemma verifyRecoveredSig_iff (s : QuorumManager) (view : ChainView) (chainActive : BlockIndex)
    (signedAtHeight : Int) (id msgHash : Uint256) (sig : Option Sig) :
    (exec (verifyRecoveredSig ctx view chainActive signedAtHeight id msgHash sig) s).1 = .ok true ↔
      SignedBySelected ctx s view chainActive ctx.locks.llmqChainLocks signedAtHeight id msgHash
        sig := by
  obtain ⟨params, hf⟩ := isSome_iff_exists.1 ctx.known
  have hp : ctx.env.consensus.getLLMQ ctx.locks.llmqChainLocks = .ok params := Run.demand_ok.2 hf
  rw [verifyRecoveredSig, exec_bind_ok (exec_lift_ok hp), type_of_findLLMQ hf, exec_bind,
    SignedBySelected]
  rcases exec (selectQuorumForSigning ctx view chainActive ctx.locks.llmqChainLocks signedAtHeight
    id) s with ⟨_ | _ | quorum, s'⟩
  · simp
  · simp
  · cases hk : quorum.qc.quorumPublicKey <;> cases sig <;> simp [hk]

/-- On every node with these parameters, requests of the type are verified exactly for the
signatures of the selected quorums. -/
def VerifiesSelected (consensus : ConsensusParams) (llmqChainLocks llmqType : LLMQType) : Prop :=
  ∀ (_ : ChainHash) (ctx : NodeContext), ctx.env.consensus = consensus →
    ctx.locks.llmqChainLocks = llmqChainLocks →
    ∀ (s : QuorumManager) (view : ChainView) (chainActive : BlockIndex) (signedAtHeight : Int)
      (id msgHash : Uint256) (sig : Option Sig),
    (exec (verifyRecoveredSigOf ctx view chainActive llmqType signedAtHeight id msgHash sig) s).1 =
        .ok true ↔
      SignedBySelected ctx s view chainActive llmqType signedAtHeight id msgHash sig

end QuorumManager

open QuorumManager

namespace ChainLockNode
variable (s : ChainLockNode)

/-- The request id of a CLSIG, with the height as an `int32_t`. -/
def requestId (clsig : ChainLockSig) : Uint256 :=
  ctx.hashWriter (clsigRequestIdPrefix.toList.map Char.toNat ++ [(clsig.nHeight % 2 ^ 32).toNat])

/-- `view` is what building a quorum reads of the node. -/
def processNewChainLock (view : ChainView) (now : Int) (clsig : ChainLockSig) :
    Run ChainLockNode :=
  let (handler, isNew) := s.handler.compareWithBest ctx.locks now clsig
  if !isNew then .ok { s with handler }
  else
    match exec (verifyRecoveredSig ctx view s.tip clsig.nHeight (requestId ctx clsig)
        clsig.blockHash clsig.sig) s.manager with
    | (.error e, _) => .error e
    | (.ok false, manager) => .ok { s with handler, manager }
    | (.ok true, manager) => do
      let handler' ← handler.updateBest ctx.locks clsig
      return { s with handler := handler'.getD handler, manager }

variable [CommitmentHash]

inductive Reached : ChainLockNode → Prop
  | start (blocks : BlockMap) (tip : BlockIndex) (hquiet : Quiet ctx.env tip.nHeight) :
    Reached { handler := .initial blocks, tip }
  | connect {s : ChainLockNode} {processor : QuorumBlockProcessor} (view : ChainView)
    (hview : view.Keyed) (block : Block) (hs : Reached s)
    (hs' : exec (processBlock ctx.env view s.tip s.tip block)
      s.manager.processor = (.ok (), processor)) :
    Reached { s with manager := { s.manager with processor }, tip := s.tip.next block }
  /-- A block that is refused or only tested, with its transaction rolled back. -/
  | test {s : ChainLockNode} {r : Run Unit} {processor : QuorumBlockProcessor} (view : ChainView)
    (block : Block) (hs : Reached s)
    (hs' : exec (processBlock ctx.env view s.tip s.tip block)
      s.manager.processor = (r, processor)) :
    Reached { s with manager := { s.manager with
      processor := { processor with evoDb := s.manager.processor.evoDb } } }
  | disconnect {s : ChainLockNode} {processor : QuorumBlockProcessor} {pprev : BlockIndex}
    (hs : Reached s) (hpprev : s.tip.pprev = some pprev)
    (hs' : s.manager.processor.undoBlock ctx.env s.tip.nHeight s.tip.block = .ok processor) :
    Reached { s with manager := { s.manager with processor }, tip := pprev }
  /-- Any other code asks for the quorums at a block of the chain. -/
  | scanQuorums {s : ChainLockNode} (view : ChainView) (llmqType : LLMQType)
    (hknown : (ctx.env.consensus.findLLMQ llmqType).isSome) {pindexStart : BlockIndex}
    (hstart : pindexStart.chain <:+ s.tip.chain) (maxCount : Nat) (hs : Reached s) :
    Reached { s with manager :=
      (exec (scanQuorums ctx.env view llmqType pindexStart maxCount) s.manager).2 }
  | handler {s : ChainLockNode} {handler : ChainLocksHandler} (ev : ChainLockEvent) (hs : Reached s)
    (hs' : s.handler.step ctx.locks ev = .ok handler) : Reached { s with handler }
  | clsig {s s' : ChainLockNode} (view : ChainView) (now : Int) (clsig : ChainLockSig)
    (hs : Reached s) (hs' : s.processNewChainLock ctx view now clsig = .ok s') : Reached s'
  /-- What is in memory is lost. -/
  | restart {s : ChainLockNode} (hs : Reached s) :
    Reached { handler := .initial s.handler.mapBlockIndex
              manager := { processor := { evoDb := s.manager.processor.evoDb } }
              tip := s.tip }

end ChainLockNode

namespace QuorumManager
variable {env : Env} {t : MinedTables} {tip pindexStart : BlockIndex} {view : ChainView}
  {type : LLMQType} {E : QuorumManager → Prop}

/-- The manager works on the tables `t`, and the remembered answers are right for them. -/
structure Answering (t : MinedTables) (s : QuorumManager) : Prop where
  evoDb : s.processor.evoDb = t
  remembers : s.processor.Remembers t

omit [ChainHash] in
lemma hasQuorum_answering {quorumHash : Uint256} : Triple (Answering t) (hasQuorum type quorumHash)
      (fun b s => b = t.mined.contains (type, quorumHash) ∧ Answering t s) E := by
  intro s hs
  obtain rfl := hs.evoDb
  obtain ⟨processor, he, hi⟩ := exec_hasQuorum hs.remembers type quorumHash
  rw [he]
  exact ⟨rfl, hi.evoDb, hi.now⟩

lemma getQuorumOf_total (hst : Stored env tip t) (hk : (env.consensus.findLLMQ type).isSome)
    {pindexQuorum : BlockIndex} (hm : (t.mined[(type, pindexQuorum.getBlockHash)]?).isSome) :
    Triple (Answering t) (getQuorumOf env view type pindexQuorum)
      (fun ret s => ret.isSome ∧ Answering t s) E := by
  obtain ⟨params, hp⟩ := isSome_iff_exists.1 hk
  have hp : env.consensus.getLLMQ type = .ok params := Run.demand_ok.2 hp
  refine .bind hasQuorum_answering fun hasQuorum => ?_
  refine .ite (fun hn s hs => ?_) fun _ => ?_
  · rw [hs.1, ExtTreeMap.contains_eq_isSome_getElem?, hm] at hn
    cases hn
  · refine .bind_get fun s ⟨_, hs⟩ => ?_
    split
    · exact .pure fun _ h => ⟨rfl, h ▸ hs⟩
    · rw [hs.evoDb]
      split
      · rename_i hnn
        rw [hnn] at hm
        cases hm
      · rename_i qc minedBlockHash he
        obtain ⟨ht, hh⟩ := Prod.mk.inj (hst.keyed he)
        have hb : ∃ quorum, buildQuorumFromCommitment env view qc pindexQuorum minedBlockHash =
            .ok quorum := by
          dsimp only at ht hh
          simp [buildQuorumFromCommitment, ← hh, getAllQuorumMembers, ← ht, hp, ChainView.ask]
        obtain ⟨quorum, hb⟩ := hb
        refine .bind_lift_ok hp (.bind_lift_ok hb (.bind_set (.pure ?_)))
        rintro _ rfl
        exact ⟨rfl, hs.evoDb, hs.remembers⟩

lemma scanMined_total (ht : Stored env tip t)
    (hk : (env.consensus.findLLMQ type).isSome) (hr : pindexStart.chain <:+ tip.chain)
    (max : Nat) : Triple (Answering t) (scanMined env view type pindexStart max)
      (fun _ => Answering t) E := by
  obtain ⟨quorumIndexes, hi, hm⟩ := ht.getMinedCommitmentsUntilBlock hr type max
  refine .bind_get fun s hs => ?_
  rw [hs.evoDb]
  refine .bind_lift_ok hi ?_
  refine Triple.conseq (Triple.mapM (I := Answering t) fun quorumIndex hq => ?_)
    (by rintro _ rfl; exact hs) (fun _ _ h => h) fun _ h => h
  refine .bind (getQuorumOf_total ht hk (hm quorumIndex hq)) fun quorum s hs => ?_
  obtain ⟨quorum, rfl⟩ := isSome_iff_exists.1 hs.1
  exact hs.2

lemma scanQuorums_total (view : ChainView) (hst : Stored env tip t)
    (hk : (env.consensus.findLLMQ type).isSome) (hr : pindexStart.chain <:+ tip.chain)
    (max : Nat) : Triple (Answering t) (scanQuorums env view type pindexStart max)
      (fun _ => Answering t) E := by
  obtain ⟨params, hp⟩ := isSome_iff_exists.1 hk
  have ht : (env.consensus.findLLMQ params.type).isSome := by
    rw [type_of_findLLMQ hp]
    exact hk
  refine .bind_lift_ok (Run.demand_ok.2 hp) ?_
  refine .ite (fun _ => ?_) fun _ => ?_
  · refine .bind_get fun s hs => .bind_set ?_
    have he : ∀ scanQuorumsCache, Answering t { s with scanQuorumsCache } :=
      fun _ => ⟨hs.evoDb, hs.remembers⟩
    split
    · exact .pure (by rintro _ rfl; exact he _)
    · refine .bind ((scanMined_total hst ht hr _).conseq (by rintro _ rfl; exact he _)
        (fun _ _ h => h) fun _ h => h) fun result => ?_
      exact .bind (.modify fun s hs => ⟨hs.evoDb, hs.remembers⟩) fun _ => .pure fun s hs => hs
  · exact .bind (scanMined_total hst ht hr _) fun result => .pure fun s hs => hs

end QuorumManager

namespace ChainLockNode
variable {ctx} {s s' : ChainLockNode} {view : ChainView} {now : Int} {clsig : ChainLockSig}

structure Sound (ctx : NodeContext) (s : ChainLockNode) : Prop where
  stored : Stored ctx.env s.tip s.manager.processor.evoDb
  remembers : s.manager.processor.Remembers s.manager.processor.evoDb
  consistent : s.handler.Consistent

lemma Sound.answering (h : s.Sound ctx) : s.manager.Answering s.manager.processor.evoDb :=
  ⟨rfl, h.remembers⟩

lemma Sound.withManager (h : s.Sound ctx) {manager : QuorumManager}
    (hm : manager.Answering s.manager.processor.evoDb) : Sound ctx { s with manager } := by
  have hs := h.stored
  have hr := hm.remembers
  rw [← hm.evoDb] at hs hr
  exact ⟨hs, hr, h.consistent⟩

lemma exec_verifyRecoveredSig (view : ChainView) (h : s.Sound ctx) (id msgHash : Uint256)
    (sig : Option Sig) (signedAt : Int) : (0 ≤ int32 (signedAt - signHeightOffset) →
      ∃ valid manager, exec (verifyRecoveredSig ctx view s.tip signedAt id
        msgHash sig) s.manager = (.ok valid, manager) ∧
        manager.Answering s.manager.processor.evoDb) ∧
    (int32 (signedAt - signHeightOffset) < 0 →
      ∃ manager, exec (verifyRecoveredSig ctx view s.tip signedAt id msgHash sig)
        s.manager = (.error (.fault .undefined), manager)) := by
  obtain ⟨params, hf⟩ := isSome_iff_exists.1 ctx.known
  have hp : ctx.env.consensus.getLLMQ ctx.locks.llmqChainLocks = .ok params := Run.demand_ok.2 hf
  have ht := type_of_findLLMQ hf
  constructor
  · intro hst
    have hr : Triple (QuorumManager.Answering s.manager.processor.evoDb)
        (verifyRecoveredSig ctx view s.tip signedAt id msgHash sig)
        (fun _ => QuorumManager.Answering s.manager.processor.evoDb) (fun _ => False) := by
      refine .bind_lift_ok hp ?_
      rw [ht]
      refine .bind (Q := fun _ => QuorumManager.Answering s.manager.processor.evoDb) (.bind
        (Q := fun _ => QuorumManager.Answering s.manager.processor.evoDb)
        (.bind_lift_ok hp ?_) fun quorums => .pure fun _ hs => hs) fun quorum => ?_
      · refine .ite (fun _ => .pure fun _ hs => hs) fun hl => ?_
        obtain ⟨n, hn⟩ := Int.eq_ofNat_of_zero_le hst
        rw [hn] at hl ⊢
        obtain ⟨pindexStart, ha⟩ := s.tip.exists_getAncestor (show n ≤ s.tip.nHeight by omega)
        refine .bind_lift_ok (Run.demand_ok.2 ha) ?_
        exact scanQuorums_total view h.stored ctx.known (suffix_of_getAncestor ha) _
      · cases quorum with
        | none => exact .pure fun _ hs => hs
        | some quorum => exact .pure fun _ hs => hs
    obtain ⟨valid, manager, he, hm⟩ := hr.exists_ok h.answering
    exact ⟨valid, manager, he, hm⟩
  · intro hst
    have hnn : s.tip.getAncestor (int32 (signedAt - signHeightOffset)) = none := by
      rw [getAncestor, if_pos (.inl hst)]
    refine ⟨s.manager, ?_⟩
    rw [verifyRecoveredSig, exec_bind_ok (exec_lift_ok hp), ht,
      selectQuorumForSigning, getActiveQuorumSet]
    simp only [exec_bind, exec_lift, hp, hnn, demand]
    rw [if_neg (by omega)]
    simp only [exec_bind, exec_lift]

variable (ctx s clsig) in
def Verifies : Prop :=
  s.handler.seenChainLocks[ctx.locks.serializeHash clsig]? = none ∧ s.handler.Above clsig

lemma Sound.processNewChainLock (h : s.Sound ctx) (view : ChainView) (now : Int)
    (clsig : ChainLockSig) : (s.Verifies ctx clsig → 0 ≤ int32 (clsig.nHeight - signHeightOffset)) ∧
      (∃ s', s.processNewChainLock ctx view now clsig = .ok s' ∧ s'.Sound ctx) ∨
    s.Verifies ctx clsig ∧ int32 (clsig.nHeight - signHeightOffset) < 0 ∧
      s.processNewChainLock ctx view now clsig = .error (.fault .undefined) := by
  obtain ⟨seen, hsn⟩ := s.handler.compareWithBest_fst ctx.locks now clsig
  have hn := s.handler.compareWithBest_snd ctx.locks now clsig
  obtain ⟨hv, hl⟩ := exec_verifyRecoveredSig view h (requestId ctx clsig)
    clsig.blockHash clsig.sig clsig.nHeight
  have hc : ({ s.handler with seenChainLocks := seen } : ChainLocksHandler).Consistent :=
    ⟨h.consistent.height_le, h.consistent.hash_eq⟩
  unfold ChainLockNode.processNewChainLock Verifies
  rcases hcm : s.handler.compareWithBest ctx.locks now clsig with ⟨handler, isNew⟩
  rw [hcm] at hsn hn
  obtain rfl : handler = { s.handler with seenChainLocks := seen } := hsn
  dsimp only at hn ⊢
  cases isNew with
  | false =>
    refine .inl ⟨fun hf => absurd (hn.2 hf) (by simp), _, rfl, ?_⟩
    exact ⟨h.stored, h.remembers, hc⟩
  | true =>
    have hf := hn.1 rfl
    rw [if_neg (by simp)]
    rcases lt_or_ge (int32 (clsig.nHeight - signHeightOffset)) 0 with hg | ht
    · obtain ⟨manager, he⟩ := hl hg
      exact .inr ⟨hf, hg, by rw [he]⟩
    · obtain ⟨valid, manager, he, hm⟩ := hv ht
      refine .inl ⟨fun _ => ht, ?_⟩
      rw [he]
      cases valid with
      | false =>
        refine ⟨_, rfl, ?_⟩
        have hs := h.withManager hm
        exact ⟨hs.stored, hs.remembers, hc⟩
      | true =>
        have hb : ¬ ({ s.handler with seenChainLocks := seen } : ChainLocksHandler).Blocked
            ctx.locks clsig.nHeight clsig.blockHash := h.consistent.not_blocked hf.2
        simp only [updateBest_eq hb, Run.ok_bind]
        refine ⟨_, rfl, ?_⟩
        have hs := h.withManager hm
        exact ⟨hs.stored, hs.remembers, h.consistent.updated hf.2 seen _⟩

variable [CommitmentHash]

lemma sound_of_reached (hs : Reached ctx s) : s.Sound ctx := by
  have hn : ∀ blocks : BlockMap, (initial blocks).Consistent := by
    intro blocks
    have hrn : (initial blocks).run ctx.locks [] = .ok (initial blocks) := rfl
    exact consistent_run hrn
  induction hs with
  | start blocks tip hq =>
    exact ⟨.start tip hq, fun k b hk => by simp at hk, hn blocks⟩
  | connect view hv block _ hs' ih =>
    obtain ⟨t', hp, hi⟩ := (processBlock_spec fun _ _ _ => rfl).of_ok (.refl ih.remembers) hs'
    obtain rfl := hi.evoDb
    exact ⟨ih.stored.blockProcessed hv hp, hi.now, ih.consistent⟩
  | test view block _ hs' ih =>
    obtain ⟨t', hi⟩ :=
      (QuorumBlockProcessor.Inside.refl ih.remembers).processBlock (fun _ _ _ => rfl) hs'
    exact ⟨ih.stored, hi.before, ih.consistent⟩
  | @disconnect s processor pprev _ hpp hs' ih =>
    have ht := ih.stored
    rw [eq_next_of_pprev _ hpp] at ht hs'
    obtain ⟨ht', hr, -⟩ := ht.undoBlock ih.remembers hs'
    exact ⟨ht', hr, ih.consistent⟩
  | @scanQuorums s view type hkn pindexStart hsr max _ ih =>
    obtain ⟨result, manager, hc, hm⟩ := (scanQuorums_total view
      ih.stored hkn hsr max).exists_ok ih.answering
    rw [hc]
    exact ih.withManager hm
  | handler ev _ hs' ih => exact ⟨ih.stored, ih.remembers, ih.consistent.step hs'⟩
  | @clsig s s' view now clsig _ hs' ih =>
    rcases ih.processNewChainLock view now clsig with ⟨-, s'', ho, hsn⟩ | ⟨-, -, he⟩
    · exact Except.ok.inj (ho.symm.trans hs') ▸ hsn
    · rw [he] at hs'
      cases hs'
  | restart _ ih =>
    exact ⟨ih.stored, fun k b hk => by simp at hk, hn _⟩

/-- In every state of a node, a CLSIG is processed, accepted or not, exactly when it is not verified
at all or the block its quorums are looked for from is not below the first one. -/
theorem processNewChainLock_iff (hs : Reached ctx s) (view : ChainView) (now : Int)
    (clsig : ChainLockSig) : (∃ s', s.processNewChainLock ctx view now clsig = .ok s') ↔
      (s.Verifies ctx clsig → 0 ≤ int32 (clsig.nHeight - signHeightOffset)) := by
  rcases (sound_of_reached hs).processNewChainLock view now clsig with
    ⟨ht, s', ho, -⟩ | ⟨hv, hn, he⟩
  · exact iff_of_true ⟨s', ho⟩ ht
  · refine iff_of_false (fun ⟨s', ho⟩ => ?_) fun ht => absurd (ht hv) (by omega)
    rw [he] at ho
    cases ho

end ChainLockNode
end Trivechain.Llmq

namespace Trivechain.Llmq

namespace LowHeight
open Evo

def genesis : BlockIndex := { block := { vtx := [] } }

local instance chainHash : ChainHash := tableHash [] [genesis]
local instance commitmentHash : CommitmentHash := ⟨fun _ => 0⟩

def ctxOf (consensus : ConsensusParams) (llmqChainLocks : LLMQType)
    (known : (consensus.findLLMQ llmqChainLocks).isSome = true) : NodeContext where
  env := .permissive .test consensus
  locks :=
    { isEnforced := true, hashGenesisBlock := 0, llmqChainLocks
      verify := fun _ _ _ => true, serializeHash := fun clsig => (clsig.nHeight % 2 ^ 32).toNat }
  hashWriter := fun _ => 0
  known

def ctx : NodeContext := ctxOf .testNet LLMQ_5_60 rfl

def view : ChainView where
  getUTXOCoin _ := none
  findBlock _ := none
  getListForBlock _ := {}
  dip0008Active _ := false

lemma nodup_noScans :
    (List.map Prod.fst ([] : List ((LLMQType × Uint256) × List BuiltQuorum))).Nodup :=
  List.nodup_nil

def node : ChainLockNode where
  handler := .initial .empty
  manager := { scanQuorumsCache := { maxSize := 32, nodup := nodup_noScans } }
  tip := genesis

lemma reached_node : ChainLockNode.Reached ctx node := .start .empty genesis (.inl (by decide))

theorem null_block_index : ChainLockNode.Reached ctx node ∧
    node.processNewChainLock ctx view 0 { nHeight := 7 } = .error (.fault .undefined) :=
  ⟨reached_node, by decide +kernel⟩

theorem processed_at_offset : ∃ s', node.processNewChainLock ctx view 0 { nHeight := 8 } = .ok s' :=
  (ChainLockNode.processNewChainLock_iff reached_node view 0 { nHeight := 8 }).2 fun _ => by decide

def tip : BlockIndex := genesis.next { vtx := [] }

def qc (llmqType : LLMQType) : FinalCommitment :=
  { llmqType, quorumHash := genesis.getBlockHash, quorumPublicKey := some 1 }

def manager (llmqType : LLMQType) : QuorumManager where
  processor := { evoDb := MinedTables.store {} 1 0 (qc llmqType) 0 }
  scanQuorumsCache := { maxSize := 32, nodup := nodup_noScans }

lemma selected : ∀ consensus ∈ ConsensusParams.networks, ∀ p ∈ consensus.llmqs,
    ∀ q ∈ consensus.llmqs, ∀ known : (consensus.findLLMQ p.type).isSome = true,
    ((Work.exec (QuorumManager.selectQuorumForSigning (ctxOf consensus p.type known) view tip q.type
      9 1) (manager q.type)).1.toOption.map fun quorum => quorum.map BuiltQuorum.qc) =
        some (some (qc q.type)) ∧
    (q.type ≠ p.type → (Work.exec (QuorumManager.verifyRecoveredSigOf (ctxOf consensus p.type known)
      view tip q.type 9 1 2 (some 3)) (manager q.type)).1.toOption = some false) := by
  decide +kernel

lemma signed {ctx : NodeContext} {type : LLMQType}
    (hv : ctx.locks.verify = fun _ _ _ => true)
    (h : ((Work.exec (QuorumManager.selectQuorumForSigning ctx view tip type 9 1)
      (manager type)).1.toOption.map fun quorum => quorum.map BuiltQuorum.qc) =
        some (some (qc type))) :
    QuorumManager.SignedBySelected ctx (manager type) view tip type 9 1 2 (some 3) := by
  obtain ⟨found, hf, hc⟩ := Run.exists_of_map_toOption h
  obtain ⟨quorum, rfl, hq⟩ := Option.map_eq_some_iff.1 hc
  exact ⟨quorum, 1, 3, hf, by rw [hq]; rfl, rfl, by rw [hv]⟩

end LowHeight

/-- Requests are verified as they should exactly if they are of the type of the chain locks. -/
theorem QuorumManager.verifiesSelected_iff {consensus : ConsensusParams} {p q : LLMQParams}
    (hnetwork : consensus ∈ ConsensusParams.networks) (hp : p ∈ consensus.llmqs)
    (hq : q ∈ consensus.llmqs) : VerifiesSelected consensus p.type q.type ↔ q.type = p.type := by
  constructor
  · intro h
    by_contra hn
    have known : (consensus.findLLMQ p.type).isSome = true :=
      List.find?_isSome.2 ⟨p, hp, beq_self_eq_true _⟩
    obtain ⟨hs, hf⟩ := LowHeight.selected consensus hnetwork p hp q hq known
    have hv := (h LowHeight.chainHash (LowHeight.ctxOf consensus p.type known) rfl rfl _ _ _ _ _ _
      _).2 (LowHeight.signed rfl hs)
    have hf := hf hn
    rw [hv] at hf
    cases hf
  · rintro ht _ ctx - hc s view chainActive signedAtHeight id msgHash sig
    rw [ht, ← hc]
    exact verifyRecoveredSig_iff s view chainActive signedAtHeight id msgHash sig

namespace LowHeight
open Evo

attribute [local instance] chainHash

theorem verified_chainLocks_type :
    QuorumManager.VerifiesSelected .testNet LLMQ_5_60 LLMQ_5_60 ∧
    (Work.exec (QuorumManager.verifyRecoveredSigOf ctx view tip LLMQ_5_60 9 1 2 (some 3))
      (manager LLMQ_5_60)).1 = .ok true :=
  ⟨(QuorumManager.verifiesSelected_iff
    (by simp [ConsensusParams.networks] : ConsensusParams.testNet ∈ ConsensusParams.networks)
    (List.mem_cons_self : llmq5_60 ∈ _) (List.mem_cons_self : llmq5_60 ∈ _)).2 rfl, by
    decide +kernel⟩

/-- The signature of a quorum of another type is not verified. -/
theorem signature_not_verified :
    QuorumManager.SignedBySelected ctx (manager LLMQ_40_60) view tip LLMQ_40_60 9 1 2 (some 3) ∧
    (Work.exec (QuorumManager.verifyRecoveredSigOf ctx view tip LLMQ_40_60 9 1 2 (some 3))
      (manager LLMQ_40_60)).1 = .ok false :=
  ⟨signed rfl (by decide +kernel), rfl⟩

end LowHeight
end Trivechain.Llmq
