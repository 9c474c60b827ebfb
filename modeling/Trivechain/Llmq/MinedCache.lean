import Trivechain.Evo.QuorumRootRuns

/-!
# What `HasMinedCommitment` remembers

The commitments are written in transactions of the evo database, but the answers of
`HasMinedCommitment` are remembered outside of them, also when the transaction is rolled back: after
`ProcessBlock` stored a commitment, or `UndoBlock` deleted it, whoever asks for it before the
rollback makes the answer wrong. `ProcessBlock` itself asks for a commitment only before it stores
it.
-/

namespace Trivechain.Llmq
open Evo List Work
open QuorumBlockProcessor

/-- `HasMinedCommitment` tells for every quorum whether the database has its commitment. -/
def QuorumBlockProcessor.Truthful (s : QuorumBlockProcessor) : Prop :=
  ∀ llmqType quorumHash, (exec (hasMinedCommitment llmqType quorumHash) s).1 =
    .ok (s.evoDb.mined.contains (llmqType, quorumHash))

lemma QuorumBlockProcessor.truthful_iff {s : QuorumBlockProcessor} :
    s.Truthful ↔ s.Remembers s.evoDb := by
  constructor
  · intro h k b hk
    have ha := h k.1 k.2
    rw [exec_hasMinedCommitment, hk] at ha
    exact Except.ok.inj ha
  · intro h type quorumHash
    rw [exec_hasMinedCommitment]
    split
    · rename_i cached hc
      exact congrArg Except.ok (h _ cached hc)
    · rfl

structure OpenProcessor where
  processor : QuorumBlockProcessor
  /-- The tables below the current transaction. -/
  committed : MinedTables

inductive DbEvent where
  | processBlock (view : ChainView) (chainActive pindexPrev : BlockIndex) (block : Block)
  | undoBlock (nHeight : Nat) (block : Block)
  | hasMinedCommitment (llmqType : LLMQType) (quorumHash : Uint256)
  /-- `CScopedDBTransaction::Commit` -/
  | commit
  /-- The scope of the transaction is left without a commit. -/
  | rollback

/-- The transaction that is open before these events ends with a rollback. -/
def rolledBack : List DbEvent → Bool
  | [] => false
  | .commit :: _ => false
  | .rollback :: _ => true
  | _ :: events => rolledBack events

section Runs
variable [ChainHash] [CommitmentHash] (env : Env)

namespace OpenProcessor

def start (t : MinedTables) : OpenProcessor := ⟨{ evoDb := t }, t⟩

def step (s : OpenProcessor) : DbEvent → Run OpenProcessor
  | .processBlock view chainActive pindexPrev block =>
    match exec (processBlock env view chainActive pindexPrev block)
        s.processor with
    | (.error (.fault f), _) => .error (.fault f)
    -- what was changed before a block is refused stays until the rollback
    | (_, processor) => .ok { s with processor }
  | .undoBlock nHeight block =>
    match s.processor.undoBlock env nHeight block with
    | .error (.fault f) => .error (.fault f)
    | .error (.rejected _) => .ok s
    | .ok processor => .ok { s with processor }
  | .hasMinedCommitment llmqType quorumHash =>
    .ok { s with processor :=
      (exec (hasMinedCommitment llmqType quorumHash) s.processor).2 }
  | .commit => .ok { s with committed := s.processor.evoDb }
  | .rollback => .ok { s with processor := { s.processor with evoDb := s.committed } }

def run (s : OpenProcessor) (events : List DbEvent) : Run OpenProcessor :=
  events.foldlM (step env) s

/-- The current transaction has not changed whether the quorum has a commitment. -/
def Untouched (s : OpenProcessor) (k : LLMQType × Uint256) : Prop :=
  s.committed.mined.contains k = s.processor.evoDb.mined.contains k

end OpenProcessor

open OpenProcessor

/-- The event looks for the commitment of a quorum, a block only for those of its sessions. -/
def DbEvent.Asks : DbEvent → LLMQType × Uint256 → Prop
  | .processBlock _ chainActive pindexPrev _, (llmqType, quorumHash) =>
    getQuorumBlockHash env chainActive llmqType (pindexPrev.nHeight + 1) = .ok quorumHash
  | .hasMinedCommitment llmqType quorumHash, k => k = (llmqType, quorumHash)
  | _, _ => False

namespace OpenProcessor

/-- In transactions that end with a rollback, nobody asks for a commitment that the transaction
has stored or deleted. -/
def Careful (s : OpenProcessor) (events : List DbEvent) : Prop :=
  ∀ pre e post, events = pre ++ e :: post → rolledBack post = true →
    ∀ s', s.run env pre = .ok s' → ∀ k, e.Asks env k → s'.Untouched k

/-- The remembered answers are right, also after the rollback if there will be one. -/
structure Sound (s : OpenProcessor) (events : List DbEvent) : Prop where
  now : s.processor.Remembers s.processor.evoDb
  after : rolledBack events = true → s.processor.Remembers s.committed

variable {env} {s s' : OpenProcessor} {events : List DbEvent}

lemma Sound.processBlock {view : ChainView} {active prev : BlockIndex} {block : Block}
    (h : s.Sound events) (hc : rolledBack events = true →
      ∀ k, (DbEvent.processBlock view active prev block).Asks env k → s.Untouched k)
    (hs' : s.step env (.processBlock view active prev block) = .ok s') :
    s'.Sound events := by
  rcases he : exec (QuorumBlockProcessor.processBlock env view active prev block)
    s.processor with ⟨r, processor⟩
  have ho : s' = { s with processor } := by
    rw [step, he] at hs'
    rcases r with (_ | _) | _ <;> cases hs' <;> rfl
  subst ho
  constructor
  · obtain ⟨t', hi⟩ := (QuorumBlockProcessor.Inside.refl h.now).processBlock (fun _ _ _ => rfl) he
    rw [hi.evoDb]
    exact hi.now
  · -- to the processor this is a block that was begun on the committed tables
    intro hr
    have hi : QuorumBlockProcessor.Inside { s.processor with evoDb := s.committed }
        s.processor.evoDb s.processor := ⟨rfl, h.after hr, h.now, rfl, rfl⟩
    obtain ⟨t', hi'⟩ := hi.processBlock
      (fun type quorumHash hq => hc hr (type, quorumHash) hq) he
    exact hi'.before

lemma Sound.undoBlock {nHeight : Nat} {block : Block} (h : s.Sound events)
    (hs' : s.step env (.undoBlock nHeight block) = .ok s') : s'.Sound events := by
  rw [step] at hs'
  cases hu : s.processor.undoBlock env nHeight block with
  | error e =>
    rw [hu] at hs'
    cases e <;> cases hs'
    exact h
  | ok processor =>
    rw [hu] at hs'
    cases hs'
    obtain ⟨hn, hk⟩ := undoBlock_remembers hu
    exact ⟨hn h.now, fun hr => hk _ (h.after hr)⟩

lemma Sound.hasMinedCommitment {type : LLMQType} {quorumHash : Uint256}
    (h : s.Sound events) (hc : rolledBack events = true → s.Untouched (type, quorumHash))
    (hs' : s.step env (.hasMinedCommitment type quorumHash) = .ok s') : s'.Sound events := by
  cases hs'
  have hs : ∀ t : MinedTables, s.processor.Remembers t → t.mined.contains (type, quorumHash) =
        s.processor.evoDb.mined.contains (type, quorumHash) →
      QuorumBlockProcessor.Inside { s.processor with evoDb := t } s.processor.evoDb
        (exec (hasMinedCommitment type quorumHash) s.processor).2 := by
    intro t ht hm
    have hi : QuorumBlockProcessor.Inside { s.processor with evoDb := t } s.processor.evoDb
        s.processor := ⟨rfl, ht, h.now, rfl, rfl⟩
    obtain ⟨b, processor, he, -, hi⟩ := (hasMinedCommitment_spec hm).exists_ok hi
    rw [he]
    exact hi
  constructor
  · have hi := hs _ h.now rfl
    rw [hi.evoDb]
    exact hi.now
  · exact fun hr => (hs _ (h.after hr) (hc hr)).before

lemma Sound.step {e : DbEvent} (h : s.Sound (e :: events))
    (hc : rolledBack events = true → ∀ k, e.Asks env k → s.Untouched k)
    (hs' : s.step env e = .ok s') : s'.Sound events := by
  cases e with
  | processBlock view active prev block =>
    exact Sound.processBlock ⟨h.now, h.after⟩ hc hs'
  | undoBlock nHeight block => exact Sound.undoBlock ⟨h.now, h.after⟩ hs'
  | hasMinedCommitment type quorumHash =>
    exact Sound.hasMinedCommitment ⟨h.now, h.after⟩ (fun hr => hc hr _ rfl) hs'
  | commit =>
    cases hs'
    exact ⟨h.now, fun _ => h.now⟩
  | rollback =>
    cases hs'
    have ha := h.after rfl
    exact ⟨ha, fun _ => ha⟩

lemma Sound.run {pre : List DbEvent} (h : s.Sound (pre ++ events))
    (hc : s.Careful env (pre ++ events)) (hs' : s.run env pre = .ok s') :
    s'.Sound events := by
  induction pre generalizing s with
  | nil => exact Except.ok.inj hs' ▸ h
  | cons e pre ih =>
    obtain ⟨s1, hs, hs'⟩ := Run.bind_ok.1 hs'
    refine ih (h.step (fun hr => hc [] e _ rfl hr s rfl) hs) ?_ hs'
    intro pre' e' post he hr s2 hs2
    exact hc (e :: pre') e' post (by rw [cons_append, he, cons_append]) hr s2
      (Run.bind_ok.2 ⟨s1, hs, hs2⟩)

end OpenProcessor

/-- On any database: if nobody asks for a commitment that was stored or deleted in a transaction
that will be rolled back, the answers are right at every point of the run. -/
theorem truthful_of_careful (t : MinedTables) (events : List DbEvent)
    (hcareful : (start t).Careful env events) :
    ∀ pre post, events = pre ++ post → ∀ s, (start t).run env pre = .ok s →
      s.processor.Truthful := by
  intro pre post he s hs
  have ht : (start t).Sound (pre ++ post) := ⟨fun k b hk => by simp [start] at hk,
      fun _ k b hk => by simp [start] at hk⟩
  exact truthful_iff.2 (ht.run (he ▸ hcareful) hs).now

end Runs

namespace Tested
open Remined

section
variable [ChainHash] [CommitmentHash]

def mine : DbEvent := .processBlock view tip tip (mining (commitment five))

def ask : DbEvent := .hasMinedCommitment LLMQ_5_60 quorum.getBlockHash

section
variable (hne : quorum.getBlockHash ≠ 0)
include hne

lemma step_mine : ∃ processor, (OpenProcessor.start {}).step env mine = .ok ⟨processor, {}⟩ ∧
      QuorumBlockProcessor.Inside {} (holding (commitment five)) processor := by
  have he : QuorumBlockProcessor.Remembers {} {} := fun k b hk => by simp at hk
  obtain ⟨processor, hc, hi⟩ := process_mining hne (rfl : five.length = 5) (by decide) rfl he
  refine ⟨processor, ?_, hi⟩
  have he' : exec (processBlock env view tip tip
    (mining (commitment five))) (OpenProcessor.start {}).processor = (.ok (), processor) := hc
  rw [mine, OpenProcessor.step, he']
  rfl

lemma asked_in_between : ∃ s,
    (OpenProcessor.start {}).run env [mine, ask, .rollback] = .ok s ∧ ¬ s.processor.Truthful := by
  obtain ⟨processor, hs, hi⟩ := step_mine hne
  have hm : processor.evoDb.mined.contains (LLMQ_5_60, quorum.getBlockHash) = true := by
    rw [hi.evoDb]
    simp [holding, MinedTables.store, commitment]
  have hc : ∃ processor', (OpenProcessor.mk processor {}).step env ask = .ok ⟨processor', {}⟩ ∧
      processor'.hasMinedCommitmentCache[(LLMQ_5_60, quorum.getBlockHash)]? = some true := by
    refine ⟨_, rfl, ?_⟩
    rw [exec_hasMinedCommitment]
    split
    · rename_i b hb
      rw [hb, hi.now _ _ hb, ← hi.evoDb, hm]
    · simp [hm]
  obtain ⟨processor', hk, hr⟩ := hc
  refine ⟨⟨{ processor' with evoDb := {} }, {}⟩, ?_, fun ht => ?_⟩
  · rw [OpenProcessor.run, foldlM_cons, hs, Run.ok_bind, foldlM_cons, hk, Run.ok_bind]
    rfl
  · have ha := truthful_iff.1 ht _ _ hr
    simp at ha

lemma asked_later : ∃ s, (OpenProcessor.start {}).run env [mine, .rollback, ask] = .ok s := by
  obtain ⟨processor, hs, -⟩ := step_mine hne
  rw [OpenProcessor.run, foldlM_cons, hs, Run.ok_bind]
  exact ⟨_, rfl⟩

end

lemma careful_asked_later : (OpenProcessor.start {}).Careful env [mine, .rollback, ask] := by
  intro pre e post he hr s hs k _
  rcases pre with _ | ⟨e1, pre⟩
  · cases hs
    rfl
  · -- the only rollback is over
    obtain ⟨-, ht⟩ := cons.inj he
    rcases pre with _ | ⟨e2, _ | ⟨e3, pre⟩⟩
    · obtain ⟨-, rfl⟩ := cons.inj ht
      cases hr
    · obtain ⟨-, ht⟩ := cons.inj ht
      obtain ⟨-, rfl⟩ := cons.inj ht
      cases hr
    · simp at ht

end

local instance : ChainHash := tableHash [] [idle 0]
local instance : CommitmentHash := ⟨fun _ => 0⟩

theorem remembered_after_rollback : ∃ s,
    (OpenProcessor.start {}).run env [mine, ask, .rollback] = .ok s ∧ ¬ s.processor.Truthful :=
  asked_in_between quorumHash_ne_zero

theorem truthful_after_rollback : ∃ s,
    (OpenProcessor.start {}).run env [mine, .rollback, ask] = .ok s ∧ s.processor.Truthful := by
  obtain ⟨s, hs⟩ := asked_later quorumHash_ne_zero
  exact ⟨s, hs, truthful_of_careful env {} [mine, .rollback, ask] careful_asked_later
    [mine, .rollback, ask] [] rfl s hs⟩

end Tested
end Trivechain.Llmq
