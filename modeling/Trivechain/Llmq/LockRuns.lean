import Trivechain.Llmq.DirectSendDb

/-!
# Runs of the DirectSend manager on its database

`ProcessDirectSendLock` looks for locks of the same transaction and of the same inputs, logs what it
finds, and writes the new lock in any case. The new lock takes over the index entries of the other
one, and when either is removed, they are gone.
-/

namespace Trivechain.Llmq
open Bls
open Std (ExtTreeMap ExtTreeSet)
variable [LockHash]

inductive LockEvent where
  /-- `ProcessDirectSendLock`, with the height at which the transaction is mined, if it is, and
  whether that block has a chain lock. -/
  | process (islock : DirectSendLock) (minedHeight : Option Nat) (hasChainLock : Bool)
  /-- `RemoveChainLockConflictingLock` -/
  | removeConflicting (islock : DirectSendLock) (tipHeight : Nat)
  /-- `SyncTransaction`, with the height of the block. -/
  | syncTransaction (txid : Uint256) (nHeight : Option Nat) (isDisconnect : Bool)
  /-- `HandleFullyConfirmedBlock` -/
  | fullyConfirmed (nHeight : Nat)
  | getByHash (hash : Uint256)
  | getByTxid (txid : Uint256)
  | getByInput (outpoint : OutPoint)

namespace DirectSendDb
variable (d : DirectSendDb)

/-- The lookups that `ProcessDirectSendLock` makes before it writes. What they find is logged. -/
def lookUpConflicts (islock : DirectSendLock) : DirectSendDb :=
  islock.inputs.foldl (fun d o => (d.getDirectSendLockByInput o).2)
    (d.getDirectSendLockByTxid islock.txid).2

def processDirectSendLock (islock : DirectSendLock) (minedHeight : Option Nat)
    (hasChainLock : Bool) : DirectSendDb :=
  if minedHeight.isSome ∧ hasChainLock then d
  else
    match d.getDirectSendLockByHash islock.hash with
    | (some _, d) => d
    | (none, d) =>
      let d := (d.lookUpConflicts islock).writeNewDirectSendLock islock.hash islock
      match minedHeight with
      | some nHeight => d.writeDirectSendLockMined islock.hash nHeight
      | none => d

def syncTransaction (txid : Uint256) (nHeight : Option Nat) (isDisconnect : Bool) :
    DirectSendDb :=
  let (islockHash, d) := d.getDirectSendLockHashByTxid txid
  match nHeight with
  | some nHeight =>
    if islockHash = 0 then d
    else if isDisconnect then d.removeDirectSendLockMined islockHash (nHeight + 1)
    else d.writeDirectSendLockMined islockHash nHeight
  | none => d

def handleFullyConfirmedBlock (nHeight : Nat) : DirectSendDb :=
  let d := d.removeConfirmedDirectSendLocks nHeight
  if 100 < nHeight then d.removeArchivedDirectSendLocks (nHeight - 100) else d

def step (d : DirectSendDb) : LockEvent → DirectSendDb
  | .process islock minedHeight hasChainLock =>
    d.processDirectSendLock islock minedHeight hasChainLock
  | .removeConflicting islock tipHeight =>
    (d.removeChainedDirectSendLocks islock.hash islock.txid tipHeight).2
  | .syncTransaction txid nHeight isDisconnect => d.syncTransaction txid nHeight isDisconnect
  | .fullyConfirmed nHeight => d.handleFullyConfirmedBlock nHeight
  | .getByHash hash => (d.getDirectSendLockByHash hash).2
  | .getByTxid txid => (d.getDirectSendLockByTxid txid).2
  | .getByInput outpoint => (d.getDirectSendLockByInput outpoint).2

def run (evs : List LockEvent) : DirectSendDb := evs.foldl step d

def Writes (islock : DirectSendLock) (ev : LockEvent) : Prop :=
  ∃ minedHeight hasChainLock, ev = .process islock minedHeight hasChainLock ∧
    ¬ (minedHeight.isSome ∧ hasChainLock) ∧ d.db.is_i[islock.hash]? = none

variable {d}

structure Sound (d : DirectSendDb) : Prop where
  coherent : d.Coherent
  exact : d.db.Exact

namespace Sound

omit [LockHash] in
lemma empty : Sound {} := ⟨.empty {}, LockTables.exact_empty⟩

variable (hd : d.Sound)
include hd

section

omit [LockHash]

lemma of_db_eq {d' : DirectSendDb} (hb : d'.db = d.db) (hc : d'.Coherent) :
    d'.Sound := ⟨hc, hb ▸ hd.exact⟩

lemma lookUpConflicts (islock : DirectSendLock) :
    (d.lookUpConflicts islock).db = d.db ∧ (d.lookUpConflicts islock).Coherent := by
  have hf (os : List OutPoint) : ∀ d' : DirectSendDb, d'.db = d.db → d'.Coherent →
      (os.foldl (fun d o => (d.getDirectSendLockByInput o).2) d').db = d.db ∧
        (os.foldl (fun d o => (d.getDirectSendLockByInput o).2) d').Coherent := by
    induction os with
    | nil => exact fun d' hb hc => ⟨hb, hc⟩
    | cons o os ih =>
      intro d' hb hc
      obtain ⟨-, hd', hc'⟩ := hc.getDirectSendLockByInput o
      exact ih _ (hd'.trans hb) hc'
  obtain ⟨-, hb, hc⟩ := hd.coherent.getDirectSendLockByTxid islock.txid
  exact hf islock.inputs _ hb hc

lemma writeDirectSendLockMined (hash : Uint256) (nHeight : Nat) :
    (d.writeDirectSendLockMined hash nHeight).Sound :=
  ⟨⟨hd.coherent.locks, hd.coherent.txids, hd.coherent.inputs⟩,
    ⟨hd.exact.ne_zero, hd.exact.txids, hd.exact.inputs⟩⟩

lemma removeDirectSendLockMined (hash : Uint256) (nHeight : Nat) :
    (d.removeDirectSendLockMined hash nHeight).Sound :=
  ⟨⟨hd.coherent.locks, hd.coherent.txids, hd.coherent.inputs⟩,
    ⟨hd.exact.ne_zero, hd.exact.txids, hd.exact.inputs⟩⟩

lemma of_collecting {d' : DirectSendDb} {batch : List LockOp} (h : Collecting d.db (d', batch)) :
    Sound { d' with db := d'.db.writeBatch batch } :=
  ⟨h.write, h.db_eq ▸ hd.exact.writeBatch h.stored⟩

lemma removeConfirmedDirectSendLocks (height : Nat) :
    (d.removeConfirmedDirectSendLocks height).Sound :=
  hd.of_collecting (Collecting.foldl_removeConfirmed _ (.start hd.coherent))

lemma removeArchivedDirectSendLocks (height : Nat) :
    (d.removeArchivedDirectSendLocks height).Sound :=
  hd.of_collecting ((Collecting.start hd.coherent).append _ (by simp))

lemma removeChainedDirectSendLocks (islockHash txid : Uint256) (nHeight : Nat) :
    (d.removeChainedDirectSendLocks islockHash txid nHeight).2.Sound :=
  hd.of_collecting (((hd.coherent.chained txid nHeight).1.removeDirectSendLockByHash
    islockHash).append _ (by simp))

end

lemma process_cases (islock : DirectSendLock) (mined : Option Nat) (hasChainLock : Bool) :
    (¬ d.Writes islock (.process islock mined hasChainLock) ∧
      (d.processDirectSendLock islock mined hasChainLock).Sound) ∨
    (d.Writes islock (.process islock mined hasChainLock) ∧
      ∃ d' : DirectSendDb, d'.db = d.db ∧ d'.Coherent ∧
        d.processDirectSendLock islock mined hasChainLock = match mined with
          | some nHeight => (d'.writeNewDirectSendLock islock.hash islock).writeDirectSendLockMined
              islock.hash nHeight
          | none => d'.writeNewDirectSendLock islock.hash islock) := by
  unfold processDirectSendLock
  by_cases hr : mined.isSome ∧ hasChainLock
  · rw [if_pos hr]
    refine .inl ⟨?_, hd⟩
    rintro ⟨_, _, he, hk, -⟩
    obtain ⟨-, rfl, rfl⟩ := LockEvent.process.inj he
    exact hk hr
  rw [if_neg hr]
  obtain ⟨hg, hb, hc⟩ := hd.coherent.getDirectSendLockByHash islock.hash
  have hd' := hd.of_db_eq hb hc
  rcases hp : d.getDirectSendLockByHash islock.hash with ⟨found, d1⟩
  rw [hp] at hg hb hd'
  cases found with
  | some other =>
    refine .inl ⟨?_, hd'⟩
    rintro ⟨_, _, -, -, hn⟩
    rw [hn] at hg
    cases hg
  | none =>
    obtain ⟨hb', hc'⟩ := hd'.lookUpConflicts islock
    exact .inr ⟨⟨mined, hasChainLock, rfl, hr, hg.symm⟩, d1.lookUpConflicts islock,
      hb'.trans hb, hc', by cases mined <;> rfl⟩

lemma process {islock : DirectSendLock} {mined : Option Nat}
    {hasChainLock : Bool} (hf : d.Writes islock (.process islock mined hasChainLock) →
      d.db.Free islock) : (d.processDirectSendLock islock mined hasChainLock).Sound := by
  rcases hd.process_cases islock mined hasChainLock with ⟨-, hs⟩ | ⟨hw, d', hb, hc, hq⟩
  · exact hs
  · have hn : d.db.is_i[islock.hash]? = none := by
      obtain ⟨_, _, -, -, hn⟩ := hw
      exact hn
    have he : (d'.db.write islock.hash islock).Exact := by
      rw [hb]
      exact hd.exact.write (LockHash.ne_zero islock) hn (hf hw)
    have hr : (d'.writeNewDirectSendLock islock.hash islock).Sound :=
      ⟨hc.writeNewDirectSendLock islock.hash islock, he⟩
    rw [hq]
    cases mined with
    | none => exact hr
    | some nHeight => exact hr.writeDirectSendLockMined islock.hash nHeight

lemma step {ev : LockEvent}
    (hf : ∀ islock, d.Writes islock ev → d.db.Free islock) : (d.step ev).Sound := by
  cases ev with
  | process islock mined hasChainLock => exact hd.process (hf islock)
  | removeConflicting islock tipHeight => exact hd.removeChainedDirectSendLocks _ _ _
  | syncTransaction txid nHeight isDisconnect =>
    obtain ⟨-, hb, hc⟩ := hd.coherent.getDirectSendLockHashByTxid txid
    have hd' := hd.of_db_eq hb hc
    change (d.syncTransaction txid nHeight isDisconnect).Sound
    unfold syncTransaction
    dsimp only
    cases nHeight with
    | none => exact hd'
    | some nHeight =>
      dsimp only
      split_ifs
      · exact hd'
      · exact hd'.removeDirectSendLockMined _ _
      · exact hd'.writeDirectSendLockMined _ _
  | fullyConfirmed nHeight =>
    have hd' := hd.removeConfirmedDirectSendLocks nHeight
    change (d.handleFullyConfirmedBlock nHeight).Sound
    unfold handleFullyConfirmedBlock
    dsimp only
    split_ifs
    · exact hd'.removeArchivedDirectSendLocks _
    · exact hd'
  | getByHash hash =>
    obtain ⟨-, hb, hc⟩ := hd.coherent.getDirectSendLockByHash hash
    exact hd.of_db_eq hb hc
  | getByTxid txid =>
    obtain ⟨-, hb, hc⟩ := hd.coherent.getDirectSendLockByTxid txid
    exact hd.of_db_eq hb hc
  | getByInput outpoint =>
    obtain ⟨-, hb, hc⟩ := hd.coherent.getDirectSendLockByInput outpoint
    exact hd.of_db_eq hb hc

lemma is_i_step {islock : DirectSendLock} {ev : LockEvent} (hw : d.Writes islock ev) {h : Uint256}
    {l : DirectSendLock} : (d.step ev).db.is_i[h]? = some l ↔
      (h = islock.hash ∧ l = islock) ∨ (h ≠ islock.hash ∧ d.db.is_i[h]? = some l) := by
  obtain ⟨mined, hasChainLock, rfl, hr⟩ := hw
  rcases hd.process_cases islock mined hasChainLock with ⟨hn, -⟩ | ⟨-, d', hb, -, he⟩
  · exact absurd ⟨mined, hasChainLock, rfl, hr⟩ hn
  · change (d.processDirectSendLock islock mined hasChainLock).db.is_i[h]? = some l ↔ _
    rw [he, ← hb, ← LockTables.is_i_write]
    cases mined <;> rfl

end Sound

/-- Every transaction and every input belongs to at most one stored lock, index entries lead to
stored locks, and every stored lock is found by its hash, its transaction and each input. -/
structure IndexesExact (d : DirectSendDb) : Prop where
  txid_unique : ∀ (h h' : Uint256) (l l' : DirectSendLock), d.db.is_i[h]? = some l →
    d.db.is_i[h']? = some l' → l.txid = l'.txid → h = h'
  input_unique : ∀ (h h' : Uint256) (l l' : DirectSendLock), d.db.is_i[h]? = some l →
    d.db.is_i[h']? = some l' → ∀ o ∈ l.inputs, o ∈ l'.inputs → h = h'
  txid_stored : ∀ txid h : Uint256, d.db.is_tx[txid]? = some h →
    ∃ l : DirectSendLock, d.db.is_i[h]? = some l ∧ l.txid = txid
  input_stored : ∀ (o : OutPoint) (h : Uint256), d.db.is_in[o]? = some h →
    ∃ l : DirectSendLock, d.db.is_i[h]? = some l ∧ o ∈ l.inputs
  by_hash : ∀ (h : Uint256) (l : DirectSendLock), d.db.is_i[h]? = some l →
    (d.getDirectSendLockByHash h).1 = some l
  by_txid : ∀ (h : Uint256) (l : DirectSendLock), d.db.is_i[h]? = some l →
    (d.getDirectSendLockByTxid l.txid).1 = some l
  by_input : ∀ (h : Uint256) (l : DirectSendLock), d.db.is_i[h]? = some l → ∀ o ∈ l.inputs,
    (d.getDirectSendLockByInput o).1 = some l

omit [LockHash] in
lemma Sound.indexesExact (hd : d.Sound) : d.IndexesExact where
  txid_unique _ _ _ _ hl hl' he := hd.exact.txids.eq_of_has hl rfl hl' he.symm
  input_unique _ _ _ _ hl hl' _ ho ho' := hd.exact.inputs.eq_of_has hl ho hl' ho'
  txid_stored txid h hh := (hd.exact.txids txid h).1 hh
  input_stored o h hh := (hd.exact.inputs o h).1 hh
  by_hash h l hl := (hd.coherent.getDirectSendLockByHash h).1.trans hl
  by_txid h l hl := by
    have hi : d.db.is_tx[l.txid]? = some h := (hd.exact.txids l.txid h).2 ⟨l, hl, rfl⟩
    rw [(hd.coherent.getDirectSendLockByTxid l.txid).1, hi, Option.getD_some,
      if_neg (hd.exact.ne_zero h l hl), hl]
  by_input h l hl o ho := by
    have hi : d.db.is_in[o]? = some h := (hd.exact.inputs o h).2 ⟨l, hl, ho⟩
    rw [(hd.coherent.getDirectSendLockByInput o).1, hi, Option.getD_some,
      if_neg (hd.exact.ne_zero h l hl), hl]

lemma Sound.free_of_indexesExact (hd : d.Sound) {islock : DirectSendLock} {ev : LockEvent}
    (hw : d.Writes islock ev) (he : (d.step ev).IndexesExact) : d.db.Free islock := by
  intro h l hl
  have hn : d.db.is_i[islock.hash]? = none := by
    obtain ⟨_, _, -, -, hn⟩ := hw
    exact hn
  have hne : h ≠ islock.hash := by
    rintro rfl
    rw [hn] at hl
    cases hl
  have hold := (hd.is_i_step hw).2 (.inr ⟨hne, hl⟩)
  have hn' := (hd.is_i_step hw).2 (.inl ⟨rfl, rfl⟩)
  exact ⟨fun hq => hne (he.txid_unique _ _ _ _ hold hn' hq),
    fun o ho hol => hne (he.input_unique _ _ _ _ hold hn' o hol ho)⟩

lemma run_concat (d : DirectSendDb) (evs : List LockEvent) (ev : LockEvent) :
    d.run (evs ++ [ev]) = (d.run evs).step ev := by simp [run]

/-- In every state of the run, the indexes are those of the stored locks. -/
def AlwaysExact (evs : List LockEvent) : Prop :=
  ∀ pre post, evs = pre ++ post → (run {} pre).IndexesExact

def WritesFree (evs : List LockEvent) : Prop :=
  ∀ pre ev post, evs = pre ++ ev :: post → ∀ islock, (run {} pre).Writes islock ev →
    (run {} pre).db.Free islock

/-- By induction on the events before: each is followed by a sound state. -/
lemma sound_run {pre post : List LockEvent} {evs : List LockEvent} (he : evs = pre ++ post)
    (hf : ∀ pre' ev post', evs = pre' ++ ev :: post' → pre'.length < pre.length →
      ∀ islock, (run {} pre').Writes islock ev → (run {} pre').db.Free islock) :
    (run {} pre).Sound := by
  induction pre using List.reverseRecOn generalizing post with
  | nil => exact .empty
  | append_singleton pre ev ih =>
    rw [run_concat]
    have he' : evs = pre ++ ev :: post := by simpa using he
    refine (ih he' fun pre' ev' post' h hl => hf pre' ev' post' h ?_).step
      (hf pre ev post he' (by simp))
    rw [List.length_append, List.length_singleton]
    omega

end DirectSendDb

open DirectSendDb

theorem indexesExact_iff (evs : List LockEvent) : AlwaysExact evs ↔ WritesFree evs := by
  constructor
  · intro he
    -- by induction on the length of the run before the write
    have ht (n : Nat) : ∀ pre ev post, evs = pre ++ ev :: post → pre.length = n →
        ∀ islock, (run {} pre).Writes islock ev → (run {} pre).db.Free islock := by
      induction n using Nat.strong_induction_on with
      | h n ih =>
        intro pre ev post hq hl islock hw
        have hs : (run {} pre).Sound := sound_run hq fun pre' ev' post' he' hlt =>
          ih pre'.length (by omega) pre' ev' post' he' rfl
        refine hs.free_of_indexesExact hw ?_
        rw [← run_concat]
        exact he (pre ++ [ev]) post (by simp [hq])
    exact fun pre ev post hq => ht pre.length pre ev post hq rfl
  · intro hf pre post hq
    exact (sound_run hq fun pre' ev' post' he' _ => hf pre' ev' post' he').indexesExact

end Trivechain.Llmq

/-! ### Two locks of one transaction

The quorum that is selected for a request changes when the active set rotates, so one lock can
have two valid signatures. -/

namespace Trivechain.Llmq.TwoLocks
open Bls DirectSendDb

local instance : LockHash where
  serializeHash islock := islock.sig.getD 0 + 1
  ne_zero _ := Nat.succ_ne_zero _

def context (quorumHash : Uint256) : LockContext :=
  { singleQuorumContext with
    signing := { singleQuorumContext.signing with
      getActiveQuorumSet := fun _ _ => [⟨quorumHash, 4⟩] } }

def islock (quorumHash : Uint256) : DirectSendLock :=
  let unsigned : DirectSendLock := ⟨[⟨5, 0⟩], 9, none⟩
  { unsigned with
    sig := some ((context quorumHash).signing.buildSignHash 1 quorumHash
      (unsigned.getRequestId (context quorumHash)) 9) }

def arrivals : List LockEvent := [.process (islock 3) none false, .process (islock 4) none false]

/-- Both locks verify and are stored. When the second is removed for a conflict, the first is still
stored, but not found by its transaction. -/
theorem two_locks_of_one_transaction :
    (∀ q ∈ [3, 4], PendingLock.verifies (context q) ⟨(islock q).hash, 0, islock q⟩ = true) ∧
    ¬ AlwaysExact arrivals ∧
    (run {} (arrivals ++ [.removeConflicting (islock 4) 100])).db.is_i[(islock 3).hash]? =
      some (islock 3) ∧
    ((run {} (arrivals ++ [.removeConflicting (islock 4) 100])).getDirectSendLockByTxid 9).1 =
      none := by
  refine ⟨by decide +kernel, fun he => ?_, by decide +kernel, by decide +kernel⟩
  have h3 : (run {} arrivals).db.is_i[(islock 3).hash]? = some (islock 3) := by decide +kernel
  have h4 : (run {} arrivals).db.is_i[(islock 4).hash]? = some (islock 4) := by decide +kernel
  have hq := (he arrivals [] (by simp)).txid_unique _ _ _ _ h3 h4 rfl
  exact absurd hq (by decide +kernel)

end Trivechain.Llmq.TwoLocks
