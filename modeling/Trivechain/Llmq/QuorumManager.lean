import Trivechain.Evo.QuorumRootRuns
import Trivechain.Lib.LruCache

/-!
# The quorum manager

`CQuorumManager` builds the object of a quorum from its mined commitment, and keeps it under the
type and hash of the quorum. Before it uses a kept object it only makes sure that some commitment of
the quorum is mined. After a reorganisation this can be another one, or the same one in another
block: the manager goes on with the first.
-/

namespace Trivechain.Llmq
open Evo Option Except
open Run (demand)
open Std (ExtTreeMap)
open Work (Triple)
open QuorumBlockProcessor Work

/-- `CQuorum`, without the contributions of its members. -/
structure BuiltQuorum where
  qc : FinalCommitment
  pindexQuorum : BlockIndex
  minedBlockHash : Uint256
  members : List DeterministicMN

/-- The object was built from the commitment that is mined now, if there is one. -/
def BuiltQuorum.Matches (quorum : BuiltQuorum) (t : MinedTables) (k : LLMQType × Uint256) : Prop :=
  ∀ e, t.mined[k]? = some e → e = (quorum.qc, quorum.minedBlockHash)

structure QuorumManager where
  processor : QuorumBlockProcessor := {}
  quorumsCache : ExtTreeMap (LLMQType × Uint256) BuiltQuorum := ∅
  scanQuorumsCache : LruCache (LLMQType × Uint256) (List BuiltQuorum) := { maxSize := 32 }

section Manager
variable [ChainHash] (env : Env)

abbrev KeyedView := { view : ChainView // view.Keyed }

def buildQuorumFromCommitment (view : ChainView) (qc : FinalCommitment) (pindexQuorum : BlockIndex)
    (minedBlockHash : Uint256) : Run BuiltQuorum :=
  if qc.quorumHash ≠ pindexQuorum.getBlockHash then .error (.fault .assertion)
  else do
    let members ← getAllQuorumMembers env view.ask qc.llmqType pindexQuorum
    return { qc, pindexQuorum, minedBlockHash, members }

variable {env} in
lemma buildQuorumFromCommitment_ok {view : ChainView} {qc : FinalCommitment}
    {pindexQuorum : BlockIndex} {minedBlockHash : Uint256} {quorum : BuiltQuorum}
    (h : buildQuorumFromCommitment env view qc pindexQuorum minedBlockHash = .ok quorum) :
    quorum.qc = qc ∧ quorum.minedBlockHash = minedBlockHash := by
  unfold buildQuorumFromCommitment at h
  split_ifs at h
  obtain ⟨members, -, h⟩ := Run.bind_ok.1 h
  cases h
  exact ⟨rfl, rfl⟩

namespace QuorumManager

def hasQuorum (llmqType : LLMQType) (quorumHash : Uint256) : Work QuorumManager Bool := do
  let s ← get
  let (ret, processor) :=
    Work.exec (QuorumBlockProcessor.hasMinedCommitment llmqType quorumHash) s.processor
  set { s with processor }
  liftM ret

def getQuorumOf (view : ChainView) (llmqType : LLMQType) (pindexQuorum : BlockIndex) :
    Work QuorumManager (Option BuiltQuorum) := do
  let quorumHash := pindexQuorum.getBlockHash
  let hasQuorum ← hasQuorum llmqType quorumHash
  if !hasQuorum then return none
  else
    let s ← get
    match s.quorumsCache[(llmqType, quorumHash)]? with
    | some quorum => return some quorum
    | none =>
      match s.processor.evoDb.mined[(llmqType, quorumHash)]? with
      | none => return none
      | some (qc, minedBlockHash) =>
        let _ ← liftM (env.consensus.getLLMQ llmqType)
        let quorum ← liftM (buildQuorumFromCommitment env view qc pindexQuorum minedBlockHash)
        set { s with quorumsCache := s.quorumsCache.insertIfNew (llmqType, quorumHash) quorum }
        return some quorum

def getQuorum (view : ChainView) (llmqType : LLMQType) (quorumHash : Uint256) :
    Work QuorumManager (Option BuiltQuorum) :=
  match view.findBlock quorumHash with
  | none => return none
  | some pindexQuorum => getQuorumOf env view llmqType pindexQuorum

/-- The part of `ScanQuorums` that is not answered by the cache. -/
def scanMined (view : ChainView) (llmqType : LLMQType) (pindexStart : BlockIndex)
    (maxCount : Nat) : Work QuorumManager (List BuiltQuorum) := do
  let s ← get
  let quorumIndexes ← liftM (s.processor.evoDb.getMinedCommitmentsUntilBlock llmqType pindexStart
    maxCount)
  quorumIndexes.mapM fun quorumIndex => do
    let quorum ← getQuorumOf env view llmqType quorumIndex
    liftM (demand .assertion quorum)

def scanQuorums (view : ChainView) (llmqType : LLMQType) (pindexStart : BlockIndex)
    (maxCount : Nat) : Work QuorumManager (List BuiltQuorum) := do
  let params ← liftM (env.consensus.getLLMQ llmqType)
  let cacheKey := (llmqType, pindexStart.getBlockHash)
  let cacheMaxSize := params.signingActiveQuorumCount + 1
  if maxCount ≤ cacheMaxSize then
    let s ← get
    let (cached, scanQuorumsCache) := s.scanQuorumsCache.get cacheKey
    set { s with scanQuorumsCache }
    match cached with
    | some result => return result.take maxCount
    | none =>
      let result ← scanMined env view params.type pindexStart cacheMaxSize
      modify fun s => { s with scanQuorumsCache := s.scanQuorumsCache.insert cacheKey result }
      return result.take maxCount
  else
    let result ← scanMined env view params.type pindexStart maxCount
    return result.take maxCount

/-- The manager works on the tables `t`, for which the remembered answers and the kept objects are
right. -/
structure Fresh (t : MinedTables) (s : QuorumManager) : Prop where
  evoDb : s.processor.evoDb = t
  remembers : s.processor.Remembers t
  kept : ∀ (k : LLMQType × Uint256) (quorum : BuiltQuorum), s.quorumsCache[k]? = some quorum →
    BuiltQuorum.Matches quorum t k

variable {env} {t : MinedTables} {E : QuorumManager → Prop} {llmqType : LLMQType}
variable {s : QuorumManager} {view : ChainView} {pindexQuorum : BlockIndex}

omit [ChainHash] in
lemma exec_hasQuorum (h : s.processor.Remembers s.processor.evoDb) (llmqType : LLMQType)
    (quorumHash : Uint256) : ∃ processor, Work.exec (hasQuorum llmqType quorumHash) s =
        (.ok (s.processor.evoDb.mined.contains (llmqType, quorumHash)), { s with processor }) ∧
      s.processor.Inside s.processor.evoDb processor := by
  obtain ⟨b, processor, he, rfl, hi⟩ := (hasMinedCommitment_spec
    (rfl : s.processor.evoDb.mined.contains (llmqType, quorumHash) = _)).exists_ok (.refl h)
  refine ⟨processor, ?_, hi⟩
  rw [hasQuorum, exec_bind_ok (exec_get s), he]
  rfl

variable {quorumHash : Uint256} {quorum : BuiltQuorum} {pindexStart : BlockIndex} {maxCount : Nat}

omit [ChainHash] in
lemma hasQuorum_spec : Triple (Fresh t) (hasQuorum llmqType quorumHash)
      (fun b s => b = t.mined.contains (llmqType, quorumHash) ∧ Fresh t s) E := by
  intro s hs
  obtain rfl := hs.evoDb
  obtain ⟨processor, he, hi⟩ := exec_hasQuorum hs.remembers llmqType quorumHash
  rw [he]
  exact ⟨rfl, hi.evoDb, hi.now, hs.kept⟩

lemma getQuorumOf_spec : Triple (Fresh t) (getQuorumOf env view llmqType pindexQuorum)
      (fun ret s => Fresh t s ∧ ∀ quorum ∈ ret,
        t.mined[(llmqType, pindexQuorum.getBlockHash)]? = some (quorum.qc, quorum.minedBlockHash))
      (Fresh t) := by
  refine .bind hasQuorum_spec fun hasQuorum => ?_
  refine .ite (fun _ => .pure fun s hs => ⟨hs.2, by simp⟩) fun hh => ?_
  refine .bind_get fun s ⟨hm, hs⟩ => ?_
  split
  · -- the object that is kept belongs to the commitment that was just found
    rename_i quorum hq
    refine .pure ?_
    rintro _ rfl
    refine ⟨hs, fun quorum' hq' => ?_⟩
    cases hq'
    obtain ⟨e, he⟩ : ∃ e, t.mined[(llmqType, pindexQuorum.getBlockHash)]? = some e := by
      rw [← isSome_iff_exists, ← ExtTreeMap.contains_eq_isSome_getElem?, ← hm]
      simpa using hh
    rw [he, hs.kept _ _ hq e he]
  · rename_i hms
    rw [hs.evoDb]
    split
    · refine .pure ?_
      rintro _ rfl
      exact ⟨hs, by simp⟩
    · rename_i qc minedBlockHash he
      refine .bind_lift (fun _ _ => ?_) (by rintro _ rfl; exact hs)
      refine .bind_lift (fun quorum hl => ?_) (by rintro _ rfl; exact hs)
      obtain ⟨hc, hb⟩ : quorum.qc = qc ∧ quorum.minedBlockHash = minedBlockHash :=
        buildQuorumFromCommitment_ok hl
      refine .bind_set (.pure ?_)
      rintro _ rfl
      refine ⟨⟨hs.evoDb, hs.remembers, fun k quorum' hk => ?_⟩, fun quorum' hq' => ?_⟩
      · rw [Maps.getElem?_insertIfNew] at hk
        split_ifs at hk with heq
        · cases hk
          obtain rfl := heq.1
          intro e he'
          rw [hc, hb, ← some.inj (he.symm.trans he')]
        · exact hs.kept k quorum' hk
      · cases hq'
        rw [he, hc, hb]

lemma getQuorum_spec (hv : view.Keyed) : Triple (Fresh t) (getQuorum env view llmqType quorumHash)
      (fun ret s => Fresh t s ∧ ∀ quorum ∈ ret,
        t.mined[(llmqType, quorumHash)]? = some (quorum.qc, quorum.minedBlockHash)) (Fresh t) := by
  unfold getQuorum
  split
  · exact .pure fun s hs => ⟨hs, by simp⟩
  · rename_i pindexQuorum hf
    rw [← hv _ _ hf]
    exact getQuorumOf_spec

lemma exec_getQuorumOf_kept (h : s.processor.Remembers s.processor.evoDb) (env : Env)
    (view : ChainView)
    (hm : s.processor.evoDb.mined.contains (llmqType, pindexQuorum.getBlockHash))
    (hk : s.quorumsCache[(llmqType, pindexQuorum.getBlockHash)]? = some quorum) :
    (Work.exec (getQuorumOf env view llmqType pindexQuorum) s).1 = .ok (some quorum) := by
  obtain ⟨processor, he, -⟩ := exec_hasQuorum h llmqType pindexQuorum.getBlockHash
  rw [getQuorumOf, exec_bind_ok he, hm, if_neg (by simp),
    exec_bind_ok (exec_get _), hk]
  rfl

lemma exec_getQuorumOf_built (h : s.processor.Remembers s.processor.evoDb) {qc : FinalCommitment}
    {minedBlockHash : Uint256} {params : LLMQParams}
    (hm : s.processor.evoDb.mined[(llmqType, pindexQuorum.getBlockHash)]? = some (qc, minedBlockHash))
    (hs : s.quorumsCache[(llmqType, pindexQuorum.getBlockHash)]? = none)
    (hp : env.consensus.getLLMQ llmqType = .ok params)
    (hb : buildQuorumFromCommitment env view qc pindexQuorum minedBlockHash = .ok quorum) :
    ∃ processor, Work.exec (getQuorumOf env view llmqType pindexQuorum) s =
        (.ok (some quorum), { s with
          processor
          quorumsCache :=
            s.quorumsCache.insertIfNew (llmqType, pindexQuorum.getBlockHash) quorum }) ∧
      s.processor.Inside s.processor.evoDb processor := by
  obtain ⟨processor, he, hi⟩ := exec_hasQuorum h llmqType pindexQuorum.getBlockHash
  have hh : s.processor.evoDb.mined.contains (llmqType, pindexQuorum.getBlockHash) = true := by
    rw [ExtTreeMap.contains_eq_isSome_getElem?, hm, isSome_some]
  refine ⟨processor, ?_, hi⟩
  rw [getQuorumOf, exec_bind_ok he, hh, if_neg (by simp),
    exec_bind_ok (exec_get _), hs]
  dsimp only
  rw [hi.evoDb, hm]
  dsimp only
  rw [exec_bind_ok (exec_lift_ok hp), exec_bind_ok (exec_lift_ok hb), exec_bind_ok (exec_set _ _)]
  rfl

lemma scanMined_spec :
    Triple (Fresh t) (scanMined env view llmqType pindexStart maxCount) (fun _ => Fresh t)
      (Fresh t) := by
  refine .bind_get fun s hs => ?_
  refine .bind_lift (fun quorumIndexes _ => ?_) (by rintro _ rfl; exact hs)
  refine Triple.conseq (Triple.mapM (I := Fresh t) fun quorumIndex _ => ?_) (by rintro _ rfl; exact hs)
    (fun _ _ h => h) fun _ h => h
  refine .bind getQuorumOf_spec fun quorum => ?_
  exact .lift (fun _ _ _ hs => hs.1) fun s hs => hs.1

lemma scanQuorums_spec :
    Triple (Fresh t) (scanQuorums env view llmqType pindexStart maxCount) (fun _ => Fresh t)
      (Fresh t) := by
  refine .bind_lift (fun params _ => ?_) fun s hs => hs
  refine .ite (fun _ => ?_) fun _ => ?_
  · refine .bind_get fun s hs => .bind_set ?_
    have ht : ∀ scanQuorumsCache, Fresh t { s with scanQuorumsCache } :=
      fun _ => ⟨hs.evoDb, hs.remembers, hs.kept⟩
    split
    · exact .pure (by rintro _ rfl; exact ht _)
    · refine .bind (scanMined_spec.conseq (by rintro _ rfl; exact ht _) (fun _ _ h => h)
        fun _ h => h) fun result => ?_
      exact .bind (.modify fun s hs => ⟨hs.evoDb, hs.remembers, hs.kept⟩) fun _ =>
        .pure fun s hs => hs
  · exact .bind scanMined_spec fun result => .pure fun s hs => hs

end QuorumManager
end Manager

/-! ## Runs -/

section Runs
variable [ChainHash] [CommitmentHash] (env : Env)

structure ManagerNode where
  manager : QuorumManager
  tip : BlockIndex

inductive ManagerEvent where
  /-- `ConnectBlock`. A block that is not kept was only tested, or is refused by a later check. -/
  | connect (view : KeyedView) (block : Block) (kept : Bool)
  /-- `DisconnectTip` -/
  | disconnect
  | getQuorum (view : KeyedView) (llmqType : LLMQType) (quorumHash : Uint256)
  | scanQuorums (view : KeyedView) (llmqType : LLMQType) (pindexStart : BlockIndex)
    (maxCount : Nat)
  /-- The evo database is all that is left. -/
  | restart

namespace ManagerNode

def start (tip : BlockIndex) (t : MinedTables) : ManagerNode :=
  ⟨{ processor := { evoDb := t } }, tip⟩

def after {α : Type} (s : ManagerNode) (x : Work QuorumManager α) : Run ManagerNode :=
  match Work.exec x s.manager with
  | (.ok _, manager) => .ok { s with manager }
  | (.error e, _) => .error e

def step (s : ManagerNode) : ManagerEvent → Run ManagerNode
  | .connect view block kept =>
    match Work.exec (QuorumBlockProcessor.processBlock env view.1 s.tip s.tip block)
        s.manager.processor with
    | (.error (.fault f), _) => .error (.fault f)
    | (r, processor) =>
      if r.toOption.isSome && kept then
        .ok ⟨{ s.manager with processor }, s.tip.next block⟩
      else
        -- the transaction of the evo database is rolled back
        let processor := { processor with evoDb := s.manager.processor.evoDb }
        .ok { s with manager := { s.manager with processor } }
  | .disconnect =>
    match s.tip.pprev with
    | none => .ok s
    | some pprev =>
      match s.manager.processor.undoBlock env s.tip.nHeight s.tip.block with
      | .error (.fault f) => .error (.fault f)
      | .error (.rejected _) => .ok s
      | .ok processor => .ok ⟨{ s.manager with processor }, pprev⟩
  | .getQuorum view llmqType quorumHash =>
    s.after (QuorumManager.getQuorum env view.1 llmqType quorumHash)
  | .scanQuorums view llmqType pindexStart maxCount =>
    s.after (QuorumManager.scanQuorums env view.1 llmqType pindexStart maxCount)
  | .restart => .ok (start s.tip s.manager.processor.evoDb)

def run (s : ManagerNode) (events : List ManagerEvent) : Run ManagerNode :=
  events.foldlM (step env) s

/-- What `GetQuorum` returns has the commitment that is mined, and the block that mined it. -/
def ReturnsMined (s : ManagerNode) : Prop :=
  ∀ (view : KeyedView) llmqType quorumHash quorum,
    (Work.exec (QuorumManager.getQuorum env view.1 llmqType quorumHash) s.manager).1 =
      .ok (some quorum) →
    s.manager.processor.evoDb.mined[(llmqType, quorumHash)]? =
      some (quorum.qc, quorum.minedBlockHash)

/-- When a kept quorum is mined again, it is with the commitment of the kept object, in the same
block. -/
def Guarded (s : ManagerNode) : ManagerEvent → Prop
  | .connect _ block true => ¬ Quiet env (s.tip.nHeight + 1) →
    ∀ tx ∈ block.vtx, ∀ qc, tx.payload = .quorumCommitment (some qc) →
      qc.commitment.isNull = false →
      ∀ quorum, s.manager.quorumsCache[(qc.commitment.llmqType, qc.commitment.quorumHash)]? =
          some quorum →
        quorum.qc = qc.commitment ∧ quorum.minedBlockHash = (s.tip.next block).getBlockHash
  | _ => True

def Fresh (s : ManagerNode) : Prop := s.manager.Fresh s.manager.processor.evoDb

variable {env} {s s' : ManagerNode}

omit [CommitmentHash] in
lemma Fresh.returnsMined (h : s.Fresh) : s.ReturnsMined env := by
  intro view llmqType quorumHash quorum hq
  rcases he : Work.exec (QuorumManager.getQuorum env view.1 llmqType quorumHash) s.manager with
    ⟨r, manager⟩
  obtain rfl : r = .ok (some quorum) := by rw [he] at hq; exact hq
  exact ((QuorumManager.getQuorum_spec view.2).of_ok h he).2 quorum rfl

omit [ChainHash] [CommitmentHash] in
lemma Fresh.after {α : Type} {x : Work QuorumManager α} (h : s.Fresh)
    (hx : Triple (QuorumManager.Fresh s.manager.processor.evoDb) x
      (fun _ => QuorumManager.Fresh s.manager.processor.evoDb)
      (QuorumManager.Fresh s.manager.processor.evoDb)) (hs' : s.after x = .ok s') : s'.Fresh := by
  unfold ManagerNode.after at hs'
  rcases he : Work.exec x s.manager with ⟨e | a, manager⟩ <;> rw [he] at hs' <;> cases hs'
  have hf := hx.of_ok h he
  unfold ManagerNode.Fresh
  dsimp only
  rw [hf.evoDb]
  exact hf

lemma Fresh.connect {view : KeyedView} {block : Block} {kept : Bool}
    (h : s.Fresh) (hg : s.Guarded env (.connect view block kept))
    (hs' : s.step env (.connect view block kept) = .ok s') : s'.Fresh := by
  rcases hc : Work.exec (QuorumBlockProcessor.processBlock env view.1 s.tip s.tip block)
    s.manager.processor with ⟨r, processor⟩
  have hi := QuorumBlockProcessor.Inside.refl h.remembers
  obtain ⟨t', hi'⟩ := hi.processBlock (fun _ _ _ => rfl) hc
  have hs'' : s' = if r.toOption.isSome && kept then
      ⟨{ s.manager with processor }, s.tip.next block⟩
    else { s with manager := { s.manager with
      processor := { processor with evoDb := s.manager.processor.evoDb } } } := by
    rw [ManagerNode.step, hc] at hs'
    rcases r with (r | f) | u
    · exact (ok.inj hs').symm
    · cases hs'
    · dsimp only at hs'
      split_ifs at hs' ⊢ <;> exact (ok.inj hs').symm
  subst hs''
  split_ifs with hkp
  · obtain ⟨ho, rfl⟩ := Bool.and_eq_true_iff.1 hkp
    obtain ⟨u, rfl⟩ : ∃ u, r = .ok u := by
      cases r with
      | error e => cases ho
      | ok u => exact ⟨u, rfl⟩
    obtain ⟨t'', hp, hi''⟩ := (processBlock_spec fun _ _ _ => rfl).of_ok hi hc
    obtain rfl := hi''.evoDb
    refine ⟨rfl, hi''.now, fun k quorum hk e he => ?_⟩
    rcases hp.mined_some he with hold | ⟨hl, tx, ht, qc, hy, hn, rfl, rfl⟩
    · exact h.kept k quorum hk e hold
    · obtain ⟨hq, hb⟩ := hg hl tx ht qc hy hn quorum hk
      rw [hq, hb]
  · exact ⟨rfl, hi'.before, h.kept⟩

lemma Fresh.disconnect (h : s.Fresh) (hs' : s.step env .disconnect = .ok s') : s'.Fresh := by
  rw [ManagerNode.step] at hs'
  cases hp : s.tip.pprev with
  | none => rw [hp] at hs'; exact ok.inj hs' ▸ h
  | some pprev =>
    rw [hp] at hs'
    dsimp only at hs'
    cases hu : s.manager.processor.undoBlock env s.tip.nHeight s.tip.block with
    | error e =>
      rw [hu] at hs'
      cases e <;> cases hs'
      exact h
    | ok processor =>
      rw [hu] at hs'
      cases hs'
      refine ⟨rfl, (undoBlock_remembers hu).1 h.remembers, ?_⟩
      exact fun k quorum hk e he => h.kept k quorum hk e (mined_of_undoBlock hu he)

omit [ChainHash] [CommitmentHash] in
lemma fresh_start (tip : BlockIndex) (t : MinedTables) : (start tip t).Fresh :=
  ⟨rfl, fun k b hk => by simp [start] at hk, fun k quorum hk => by simp [start] at hk⟩

variable {e : ManagerEvent}

lemma Fresh.step (h : s.Fresh) (hg : s.Guarded env e) (hs' : s.step env e = .ok s') :
    s'.Fresh := by
  cases e with
  | connect view block kept => exact h.connect hg hs'
  | disconnect => exact h.disconnect hs'
  | getQuorum view llmqType quorumHash =>
    exact h.after ((QuorumManager.getQuorum_spec view.2).conseq (fun _ hs => hs)
      (fun _ _ hs => hs.1) fun _ hs => hs) hs'
  | scanQuorums view llmqType pindexStart maxCount =>
    exact h.after QuorumManager.scanQuorums_spec hs'
  | restart => exact ok.inj hs' ▸ fresh_start ..

lemma run_cons {events : List ManagerEvent} (h : s.step env e = .ok s') :
    s.run env (e :: events) = s'.run env events := by
  rw [run, List.foldlM_cons, h, Run.ok_bind, run]

lemma disconnect_of_undoBlock {pprev : BlockIndex} {processor : QuorumBlockProcessor}
    (hp : s.tip.pprev = some pprev)
    (hu : s.manager.processor.undoBlock env s.tip.nHeight s.tip.block = .ok processor) :
    s.step env .disconnect = .ok ⟨{ s.manager with processor }, pprev⟩ := by
  simp only [ManagerNode.step, hp, hu]

@[simp] lemma run_nil : s.run env [] = .ok s := rfl

end ManagerNode

/-- On any database: as long as no kept quorum is mined again with another commitment or in another
block, `GetQuorum` returns the mined commitment. -/
theorem returnsMined_of_guarded (tip : BlockIndex) (t : MinedTables) (events : List ManagerEvent)
    (s : ManagerNode) (hguarded : Run.Guarded (ManagerNode.step env) (ManagerNode.Guarded env)
      (ManagerNode.start tip t) events)
    (hs : (ManagerNode.start tip t).run env events = .ok s) : s.ReturnsMined env := by
  have hf : s.Fresh := hguarded.invariant ManagerNode.Fresh
    (fun _ _ _ h hg ht => h.step hg ht) (ManagerNode.fresh_start tip t) hs
  exact hf.returnsMined

end Runs

namespace Reorganised
open Remined

section
variable [ChainHash] [CommitmentHash]

def keyed : KeyedView := ⟨view, view_keyed⟩

def connect (signers : List Bool) : ManagerEvent :=
  .connect keyed (mining (commitment signers)) true

def query : ManagerEvent := .getQuorum keyed LLMQ_5_60 quorum.getBlockHash

def object (signers : List Bool) : BuiltQuorum where
  qc := commitment signers
  pindexQuorum := quorum
  minedBlockHash := (tip.next (mining (commitment signers))).getBlockHash
  members := list.calculateQuorum env 5 0

def kept (signers : List Bool) : ExtTreeMap (LLMQType × Uint256) BuiltQuorum :=
  (∅ : ExtTreeMap _ _).insertIfNew (LLMQ_5_60, quorum.getBlockHash) (object signers)

omit [CommitmentHash] in
lemma holding_mined (signers : List Bool) :
    (holding (commitment signers)).mined[(LLMQ_5_60, quorum.getBlockHash)]? =
      some (commitment signers, (tip.next (mining (commitment signers))).getBlockHash) := by
  have hk : (LLMQ_5_60, quorum.getBlockHash) =
      ((commitment signers).llmqType, (commitment signers).quorumHash) := rfl
  rw [holding, MinedTables.store, Maps.getElem?_insert, if_pos hk]

def node (processor : QuorumBlockProcessor)
    (quorumsCache : ExtTreeMap (LLMQType × Uint256) BuiltQuorum)
    (pindex : BlockIndex) : ManagerNode := ⟨{ processor, quorumsCache }, pindex⟩

variable {signers : List Bool} {s : QuorumBlockProcessor}

lemma step_connect (hn : quorum.getBlockHash ≠ 0) (hz : signers.length = 5)
    (hc : 4 ≤ signers.count true) (c : ExtTreeMap (LLMQType × Uint256) BuiltQuorum)
    (hd : s.evoDb = {}) (hs : s.Remembers s.evoDb) :
    ∃ processor, (node s c tip).step env (connect signers) =
        .ok (node processor c (tip.next (mining (commitment signers)))) ∧
      s.Inside (holding (commitment signers)) processor := by
  obtain ⟨processor, he, hi⟩ := process_mining hn hz hc hd hs
  refine ⟨processor, ?_, hi⟩
  have he' : Work.exec (QuorumBlockProcessor.processBlock env keyed.1 tip tip
    (mining (commitment signers))) (node s c tip).manager.processor = (.ok (), processor) := he
  rw [connect, ManagerNode.step, show (node s c tip).tip = tip from rfl, he']
  rfl

omit [CommitmentHash] in
lemma getQuorum_keyed (manager : QuorumManager) :
    Work.exec (QuorumManager.getQuorum env keyed.1 LLMQ_5_60 quorum.getBlockHash) manager =
      Work.exec (QuorumManager.getQuorumOf env view LLMQ_5_60 quorum) manager := by
  have hf : keyed.1.findBlock quorum.getBlockHash = some quorum := if_pos rfl
  rw [QuorumManager.getQuorum, hf]
  rfl

lemma step_query (pindex : BlockIndex) (hd : s.evoDb = holding (commitment signers))
    (hs : s.Remembers s.evoDb) :
    ∃ processor, (node s ∅ pindex).step env query = .ok (node processor (kept signers) pindex) ∧
      s.Inside (holding (commitment signers)) processor := by
  have hb : buildQuorumFromCommitment env view (commitment signers) quorum
      (tip.next (mining (commitment signers))).getBlockHash = .ok (object signers) := by
    rw [buildQuorumFromCommitment, if_neg (by simp [commitment])]
    rfl
  have hp : env.consensus.getLLMQ LLMQ_5_60 = .ok llmq5_60 := rfl
  have hm : s.evoDb.mined[(LLMQ_5_60, quorum.getBlockHash)]? =
      some (commitment signers, (tip.next (mining (commitment signers))).getBlockHash) := by
    rw [hd, holding_mined]
  obtain ⟨processor, he, hi⟩ := QuorumManager.exec_getQuorumOf_built
    (s := (node s ∅ pindex).manager) hs hm ExtTreeMap.getElem?_empty hp hb
  refine ⟨processor, ?_, hd ▸ hi⟩
  rw [query, ManagerNode.step, ManagerNode.after, getQuorum_keyed, he]
  rfl

lemma step_disconnect (c : ExtTreeMap (LLMQType × Uint256) BuiltQuorum)
    (hd : s.evoDb = holding (commitment signers)) (hs : s.Remembers s.evoDb)
    (hm : s.minableCommitmentsByQuorum = ∅) :
    ∃ processor, (node s c (tip.next (mining (commitment signers)))).step env .disconnect =
        .ok (node processor c tip) ∧
      processor.evoDb = {} ∧ processor.Remembers processor.evoDb := by
  obtain ⟨processor, hu, hp⟩ := undo_mining hd hs hm
  refine ⟨processor, ?_, hp⟩
  refine ManagerNode.disconnect_of_undoBlock (BlockIndex.pprev_next ..) ?_
  rw [node, BlockIndex.block_next]
  exact hu

def history : List ManagerEvent := [connect four, query, .disconnect, connect five]

lemma history_stale (hn : quorum.getBlockHash ≠ 0) : ∃ s,
    (node {} ∅ tip).run env history = .ok s ∧ ¬ s.ReturnsMined env := by
  have he : QuorumBlockProcessor.Remembers {} {} := fun k b hk => by simp at hk
  obtain ⟨p1, hs1, hi1⟩ := step_connect hn (rfl : four.length = 5) (by decide) ∅ rfl he
  obtain ⟨p2, hs2, hi2⟩ := step_query (tip.next (mining (commitment four))) hi1.evoDb
    (hi1.evoDb.symm ▸ hi1.now)
  obtain ⟨p3, ht3, hd3, hs3⟩ := step_disconnect (kept four) hi2.evoDb
    (hi2.evoDb.symm ▸ hi2.now) (hi2.byQuorum.trans hi1.byQuorum)
  obtain ⟨p4, hs4, hi4⟩ := step_connect hn (rfl : five.length = 5) (by decide) (kept four)
    hd3 hs3
  refine ⟨node p4 (kept four) (tip.next (mining (commitment five))), ?_, fun hr => ?_⟩
  · rw [history, ManagerNode.run_cons hs1, ManagerNode.run_cons hs2,
      ManagerNode.run_cons ht3, ManagerNode.run_cons hs4, ManagerNode.run_nil]
  · have hm := holding_mined five
    rw [← hi4.evoDb] at hm
    have hp : (kept four)[(LLMQ_5_60, quorum.getBlockHash)]? = some (object four) := by
      rw [kept, Maps.getElem?_insertIfNew, if_pos ⟨rfl, ExtTreeMap.getElem?_empty⟩]
    have hh : p4.evoDb.mined.contains (LLMQ_5_60, quorum.getBlockHash) = true := by
      rw [ExtTreeMap.contains_eq_isSome_getElem?, hm, isSome_some]
    have hq := QuorumManager.exec_getQuorumOf_kept
      (s := (node p4 (kept four) (tip.next (mining (commitment five)))).manager)
      (hi4.evoDb.symm ▸ hi4.now) env view hh hp
    rw [← getQuorum_keyed] at hq
    have ht := hr keyed _ _ _ hq
    have hc : commitment five = commitment four := congrArg Prod.fst (some.inj (hm.symm.trans ht))
    have hs : five = four := congrArg FinalCommitment.signers hc
    exact absurd hs (by decide)

lemma run_once (hn : quorum.getBlockHash ≠ 0) : ∃ s,
    (node {} ∅ tip).run env [connect five, query] = .ok s := by
  have he : QuorumBlockProcessor.Remembers {} {} := fun k b hk => by simp at hk
  obtain ⟨p1, hs1, hi1⟩ := step_connect hn (rfl : five.length = 5) (by decide) ∅ rfl he
  obtain ⟨p2, hs2, -⟩ := step_query (tip.next (mining (commitment five))) hi1.evoDb
    (hi1.evoDb.symm ▸ hi1.now)
  refine ⟨node p2 (kept five) (tip.next (mining (commitment five))), ?_⟩
  rw [ManagerNode.run_cons hs1, ManagerNode.run_cons hs2, ManagerNode.run_nil]

lemma guarded_once : Run.Guarded (ManagerNode.step env) (ManagerNode.Guarded env)
    (ManagerNode.start tip {}) [connect five, query] := by
  refine Run.Guarded.concat (l := [connect five]) (Run.Guarded.concat (l := []) ?_ ?_) ?_
  · exact .of_forall (by simp)
  · intro s hs _ tx _ qc _ _ quorum hq
    cases hs
    simp [ManagerNode.start] at hq
  · exact fun _ _ => trivial

end

local instance : ChainHash := tableHash [] [idle 0]
local instance : CommitmentHash := ⟨fun _ => 0⟩

theorem old_commitment_returned : ∃ s,
    (ManagerNode.start tip {}).run env history = .ok s ∧ ¬ s.ReturnsMined env :=
  history_stale quorumHash_ne_zero

theorem mined_commitment_returned : ∃ s,
    (ManagerNode.start tip {}).run env [connect five, query] = .ok s ∧ s.ReturnsMined env := by
  obtain ⟨s, hs⟩ := run_once quorumHash_ne_zero
  exact ⟨s, hs, returnsMined_of_guarded env tip {} _ s guarded_once hs⟩

end Reorganised
end Trivechain.Llmq
