import Trivechain.Llmq.Signing

/-!
# Pending DirectSend locks

`CDirectSendManager::ProcessPendingDirectSendLocks` verifies the signatures of the locks that peers
have sent, in sub-batches of eight, and then processes those not found bad. Three kinds of locks
never get to the batch verifier: those of a peer already known to be bad, those whose signature
object is not valid, and those whose recovered signature is known. The second loop looks at the bad
messages only.
-/

namespace Trivechain.Llmq
open Bls
open Std (ExtTreeMap)
open List Or

structure DirectSendLock where
  inputs : List OutPoint
  txid : Uint256
  sig : Option Sig
deriving DecidableEq

structure PendingLock where
  hash : Uint256
  nodeId : NodeId
  islock : DirectSendLock
deriving DecidableEq

structure PendingLocks where
  locks : List PendingLock
  nodup : (locks.map PendingLock.hash).Nodup

structure Collected where
  batchVerifier : BatchVerifier NodeId Uint256 :=
    { secureVerification := false, perMessageFallback := true, subBatchSize := 8 }
  recSigs : ExtTreeMap Uint256 (Quorum × RecoveredSig) := ∅

/-- The calls of `ProcessDirectSendLock`, the recovered signatures passed on, the penalties, and the
set that is returned. -/
structure LocksResult where
  processed : List PendingLock := []
  reconstructed : List (Quorum × RecoveredSig) := []
  misbehaving : List (NodeId × Nat) := []
  badISLocks : List Uint256 := []

/-- Signature verification, the signing manager, the quorum type for DirectSend and the height at
which quorums are selected. -/
structure LockContext where
  verify : PubKey → Uint256 → Sig → Bool
  signing : SigningManager
  llmqType : LLMQType
  signHeight : Int

section Definitions
variable (ctx : LockContext)

def islockRequestIdPrefix : String := "islock"

def DirectSendLock.getRequestId (islock : DirectSendLock) : Uint256 :=
  ctx.signing.hashWriter (islockRequestIdPrefix.toList.map Char.toNat ++
    islock.inputs.flatMap fun o => [o.hash, o.n])

namespace PendingLock

def hasRecoveredSig (p : PendingLock) : Bool :=
  ctx.signing.hasRecoveredSig ctx.llmqType (p.islock.getRequestId ctx) p.islock.txid

def selectQuorum (p : PendingLock) : Option Quorum :=
  ctx.signing.selectQuorumForSigning ctx.llmqType ctx.signHeight (p.islock.getRequestId ctx)

def message (p : PendingLock) (quorum : Quorum) : Message Uint256 where
  msgId := p.hash
  msgHash := ctx.signing.buildSignHash ctx.llmqType quorum.quorumHash (p.islock.getRequestId ctx)
    p.islock.txid
  sig := p.islock.sig
  pubKey := some quorum.quorumPublicKey

def recSig (p : PendingLock) (quorum : Quorum) : RecoveredSig where
  llmqType := ctx.llmqType
  quorumHash := quorum.quorumHash
  id := p.islock.getRequestId ctx
  msgHash := p.islock.txid
  sig := p.islock.sig

end PendingLock

/-- One round of the first loop; `none` is the early return. -/
def collectLock (c : Collected) (p : PendingLock) : Run (Option Collected) := do
  if p.nodeId ∈ c.batchVerifier.badSources then
    return some c
  if p.islock.sig.isNone then
    return some { c with batchVerifier :=
      { c.batchVerifier with badSources := c.batchVerifier.badSources.insert p.nodeId } }
  -- no need to verify a lock if its recovered signature has been verified
  if p.hasRecoveredSig ctx then
    return some c
  match p.selectQuorum ctx with
  | none => return none
  | some quorum =>
    let batchVerifier ← c.batchVerifier.pushMessage ctx.verify p.nodeId (p.message ctx quorum)
    if ctx.signing.hasRecoveredSigForId ctx.llmqType (p.islock.getRequestId ctx) then
      return some { c with batchVerifier }
    return some { batchVerifier, recSigs :=
      c.recSigs.insertIfNew p.hash (quorum, p.recSig ctx quorum) }

def collectLocks (c : Collected) : List PendingLock → Run (Option Collected)
  | [] => return some c
  | p :: pend => do
    match ← collectLock ctx c p with
    | none => return none
    | some c => collectLocks c pend

def finishLock (v : BatchVerifier NodeId Uint256)
    (recSigs : ExtTreeMap Uint256 (Quorum × RecoveredSig)) (r : LocksResult) (p : PendingLock) :
    LocksResult :=
  if p.hash ∈ v.badMessages then { r with badISLocks := r.badISLocks ++ [p.hash] }
  else
    let reconstructed := (recSigs[p.hash]?).filter fun q =>
      !ctx.signing.hasRecoveredSigForId ctx.llmqType q.2.id
    { r with processed := r.processed ++ [p]
             reconstructed := r.reconstructed ++ reconstructed.toList }

def processPendingDirectSendLocks (pend : PendingLocks) (ban : Bool) : Run LocksResult := do
  match ← collectLocks ctx {} pend.locks with
  | none => return {}
  | some c =>
    let v ← c.batchVerifier.verifyAll ctx.verify
    let misbehaving := if ban then v.badSources.toList.map fun nodeId => (nodeId, 20) else []
    return pend.locks.foldl (finishLock ctx v c.recSigs) { misbehaving }

/-! ## What should be processed -/

def PendingLock.verifies (p : PendingLock) : Bool :=
  match p.selectQuorum ctx with
  | none => false
  | some quorum => (p.message ctx quorum).verifies ctx.verify

/-- The first loop, having gone through `earlier`, knows the peer of `p` to be bad. -/
def SkippedAfter (earlier : List PendingLock) (p : PendingLock) : Prop :=
  ∃ c, collectLocks ctx {} earlier = .ok (some c) ∧ p.nodeId ∈ c.batchVerifier.badSources

/-- Only locks with a valid signature object that verify or whose recovered signature is known are
processed, and none that was skipped for its peer. -/
def OnlyVerifiedProcessed (pend : PendingLocks) (ban : Bool) : Prop :=
  ∃ r, processPendingDirectSendLocks ctx pend ban = .ok r ∧
    ∀ p ∈ r.processed, p.islock.sig.isSome ∧ (p.verifies ctx ∨ p.hasRecoveredSig ctx) ∧
      ∀ earlier later, pend.locks = earlier ++ p :: later → ¬ SkippedAfter ctx earlier p

def PendingLock.needsVerification (p : PendingLock) : Bool :=
  p.islock.sig.isSome && !p.hasRecoveredSig ctx

/-- The part of the queue that has been verified in complete sub-batches of eight. -/
def completed (queue : List PendingLock) : List PendingLock := queue.take (8 * (queue.length / 8))

/-- No signature object is invalid, and no lock comes after a complete sub-batch in which its peer
had a lock that does not verify. -/
def Clean (pend : List PendingLock) : Prop :=
  ∀ earlier p later, pend = earlier ++ p :: later → p.islock.sig.isSome ∧
    ∀ e ∈ completed (earlier.filter (PendingLock.needsVerification ctx)),
      e.nodeId = p.nodeId → e.verifies ctx

/-- The first loop meets a lock to verify while there is no active quorum. -/
def StopsWithoutQuorum (pend : List PendingLock) : Prop :=
  ctx.signing.getActiveQuorumSet ctx.llmqType ctx.signHeight = [] ∧
    ∃ earlier p later, pend = earlier ++ p :: later ∧ p.needsVerification ctx ∧
      ∀ e ∈ earlier, e.nodeId = p.nodeId → e.islock.sig.isSome

end Definitions

section Proofs
variable {ctx : LockContext}

lemma clean_concat {pend : List PendingLock} {p : PendingLock} :
    Clean ctx (pend ++ [p]) ↔ Clean ctx pend ∧ p.islock.sig.isSome ∧
      ∀ e ∈ completed (pend.filter (PendingLock.needsVerification ctx)),
        e.nodeId = p.nodeId → e.verifies ctx := by
  constructor
  · intro h
    exact ⟨fun earlier q later hq => h earlier q (later ++ [p]) (by simp [hq]), h pend p [] rfl⟩
  · rintro ⟨h, hp⟩ earlier q later hq
    rcases eq_nil_or_concat later with rfl | ⟨later, r, rfl⟩
    · obtain ⟨rfl, hpq⟩ := append_inj' hq rfl
      cases hpq
      exact hp
    · have hq : pend ++ [p] = (earlier ++ q :: later) ++ [r] := by simpa using hq
      exact h earlier q later (append_inj' hq rfl).1

def PendingLock.queued (ctx : LockContext) (p : PendingLock) : NodeId × Message Uint256 :=
  (p.nodeId, match p.selectQuorum ctx with
    | some quorum => p.message ctx quorum
    | none => { msgId := p.hash, msgHash := 0, sig := p.islock.sig, pubKey := none })

@[simp] lemma PendingLock.queued_msgId (p : PendingLock) : (p.queued ctx).2.msgId = p.hash := by
  unfold queued
  split <;> rfl

@[simp] lemma PendingLock.queued_verifies (p : PendingLock) :
    (p.queued ctx).2.verifies ctx.verify = p.verifies ctx := by
  unfold queued verifies
  cases p.selectQuorum ctx with
  | some quorum => rfl
  | none => cases p.islock.sig <;> rfl

def uncompleted (queue : List PendingLock) : List PendingLock := queue.drop (8 * (queue.length / 8))

lemma completed_append_uncompleted (queue : List PendingLock) :
    completed queue ++ uncompleted queue = queue := take_append_drop _ _

lemma length_uncompleted (queue : List PendingLock) :
    (uncompleted queue).length = queue.length % 8 := by
  unfold uncompleted
  rw [length_drop]
  omega

lemma completed_concat_full {queue : List PendingLock} (p : PendingLock)
    (h : 8 ≤ (uncompleted queue).length + 1) :
    completed (queue ++ [p]) = queue ++ [p] ∧ uncompleted (queue ++ [p]) = [] := by
  rw [length_uncompleted] at h
  have hl : 8 * ((queue ++ [p]).length / 8) = (queue ++ [p]).length := by
    rw [length_append, length_singleton]
    omega
  simp only [completed, uncompleted, hl]
  exact ⟨take_length, drop_length⟩

lemma completed_concat_open {queue : List PendingLock} (p : PendingLock)
    (h : ¬ 8 ≤ (uncompleted queue).length + 1) : completed (queue ++ [p]) = completed queue ∧
      uncompleted (queue ++ [p]) = uncompleted queue ++ [p] := by
  rw [length_uncompleted] at h
  have hl : 8 * ((queue ++ [p]).length / 8) = 8 * (queue.length / 8) := by
    rw [length_append, length_singleton]
    omega
  have he : 8 * (queue.length / 8) ≤ queue.length := by omega
  simp only [completed, uncompleted, hl]
  exact ⟨take_append_of_le_length he, drop_append_of_le_length he⟩

lemma completed_subset_concat (queue : List PendingLock) (p : PendingLock) :
    completed queue ⊆ completed (queue ++ [p]) := by
  by_cases hf : 8 ≤ (uncompleted queue).length + 1
  · rw [(completed_concat_full p hf).1]
    exact subset_append_of_subset_left _ (take_subset _ _)
  · rw [(completed_concat_open p hf).1]
    exact List.Subset.refl _

/-- The first loop has gone through `earlier` and has queued the locks of `queue`. -/
structure Tracks (ctx : LockContext) (earlier : List PendingLock) (c : Collected)
    (queue : List PendingLock) (marked : List NodeId) : Prop where
  progress : BatchVerifier.Progress ctx.verify c.batchVerifier
    ((completed queue).map (PendingLock.queued ctx))
    ((uncompleted queue).map (PendingLock.queued ctx)) marked
  fallback : c.batchVerifier.perMessageFallback = true
  subBatchSize : c.batchVerifier.subBatchSize = 8
  needs : queue.Sublist (earlier.filter (PendingLock.needsVerification ctx))
  selected : ∀ e ∈ queue, (e.selectQuorum ctx).isSome
  marked_invalid : ∀ n ∈ marked, ∃ e ∈ earlier, e.nodeId = n ∧ e.islock.sig = none
  invalid_bad : ∀ e ∈ earlier, e.islock.sig = none → e.nodeId ∈ c.batchVerifier.badSources
  clean : Clean ctx earlier →
    queue = earlier.filter (PendingLock.needsVerification ctx) ∧ marked = []

lemma tracks_nil : Tracks ctx [] {} [] [] :=
  ⟨BatchVerifier.progress_init false true 8, rfl, rfl, by simp, by simp, by simp, by simp,
    fun _ => ⟨rfl, rfl⟩⟩

namespace Tracks
variable {earlier queue : List PendingLock} {c : Collected} {marked : List NodeId}
  (h : Tracks ctx earlier c queue marked)
include h

lemma mem_badSources (n : NodeId) : n ∈ c.batchVerifier.badSources ↔
    n ∈ marked ∨ ∃ e ∈ completed queue, e.nodeId = n ∧ e.verifies ctx = false := by
  rw [h.progress.sources]
  refine or_congr_right ⟨?_, ?_⟩
  · rintro ⟨q, hq, rfl, hv⟩
    obtain ⟨e, he, rfl⟩ := mem_map.1 hq
    exact ⟨e, he, rfl, by simpa using hv⟩
  · rintro ⟨e, he, rfl, hv⟩
    exact ⟨e.queued ctx, mem_map_of_mem he, rfl, by simpa using hv⟩

variable {p : PendingLock}

lemma not_bad_of_clean (hc : Clean ctx (earlier ++ [p])) :
    p.nodeId ∉ c.batchVerifier.badSources := by
  obtain ⟨hc, -, hv⟩ := clean_concat.1 hc
  obtain ⟨hq, hm⟩ := h.clean hc
  rw [h.mem_badSources, hm, hq]
  rintro (hn | ⟨e, he, hn, hb⟩)
  · simp at hn
  · simp [hv e he hn] at hb

lemma pass (hsig : p.islock.sig = none → p.nodeId ∈ c.batchVerifier.badSources)
    (hd : Clean ctx (earlier ++ [p]) → p.needsVerification ctx = false) :
    Tracks ctx (earlier ++ [p]) c queue marked := by
  refine ⟨h.progress, h.fallback, h.subBatchSize, ?_, h.selected, ?_, ?_, ?_⟩
  · rw [filter_append]
    exact h.needs.trans (sublist_append_left _ _)
  · intro n hn
    obtain ⟨e, he, hen⟩ := h.marked_invalid n hn
    exact ⟨e, mem_append_left _ he, hen⟩
  · intro e he hs
    rcases mem_append.1 he with he | he
    · exact h.invalid_bad e he hs
    · rw [mem_singleton] at he
      exact he ▸ hsig (he ▸ hs)
  · intro hc
    have hn := hd hc
    obtain ⟨hq, hm⟩ := h.clean (clean_concat.1 hc).1
    exact ⟨by simp [filter_append, hn, hq], hm⟩

lemma mark (hsig : p.islock.sig = none) : Tracks ctx (earlier ++ [p]) { c with batchVerifier :=
        { c.batchVerifier with badSources := c.batchVerifier.badSources.insert p.nodeId } }
      queue (p.nodeId :: marked) := by
  refine ⟨h.progress.mark p.nodeId, h.fallback, h.subBatchSize, ?_, h.selected, ?_, ?_, ?_⟩
  · rw [filter_append]
    exact h.needs.trans (sublist_append_left _ _)
  · intro n hn
    rcases mem_cons.1 hn with rfl | hn
    · exact ⟨p, by simp, rfl, hsig⟩
    · obtain ⟨e, he, hen⟩ := h.marked_invalid n hn
      exact ⟨e, mem_append_left _ he, hen⟩
  · intro e he hs
    rw [Std.ExtTreeSet.mem_insert, Std.LawfulEqCmp.compare_eq_iff_eq]
    rcases mem_append.1 he with he | he
    · exact inr (h.invalid_bad e he hs)
    · exact inl (by rw [mem_singleton.1 he])
  · intro hc
    have := (clean_concat.1 hc).2.1
    simp [hsig] at this

lemma fresh (hn : ∀ e ∈ earlier, e.hash ≠ p.hash) :
    ∀ q ∈ (uncompleted queue).map (PendingLock.queued ctx), q.2.msgId ≠ p.hash := by
  intro q hq
  obtain ⟨e, he, rfl⟩ := mem_map.1 hq
  rw [PendingLock.queued_msgId]
  exact hn e (mem_filter.1 (h.needs.subset (mem_of_mem_drop he))).1

lemma push {quorum : Quorum} (hd : p.needsVerification ctx = true)
    (hsl : p.selectQuorum ctx = some quorum) (hw : ∀ e ∈ earlier, e.hash ≠ p.hash) :
    ∃ v, c.batchVerifier.pushMessage ctx.verify p.nodeId (p.message ctx quorum) = .ok v ∧
      ∀ recSigs, Tracks ctx (earlier ++ [p]) ⟨v, recSigs⟩ (queue ++ [p]) marked := by
  have hq : p.queued ctx = (p.nodeId, p.message ctx quorum) := by
    unfold PendingLock.queued
    rw [hsl]
  have hsig : p.islock.sig.isSome := by
    simp only [PendingLock.needsVerification, Bool.and_eq_true] at hd
    exact hd.1
  have hv : (p.message ctx quorum).Valid := ⟨hsig, rfl⟩
  obtain ⟨v, hr, hfr, hi⟩ := h.progress.push p.nodeId hv (h.fresh hw)
  have hp : BatchVerifier.Progress ctx.verify v
      ((completed (queue ++ [p])).map (PendingLock.queued ctx))
      ((uncompleted (queue ++ [p])).map (PendingLock.queued ctx)) marked := by
    rw [h.subBatchSize, length_map] at hi
    by_cases hl : 8 ≤ (uncompleted queue).length + 1
    · obtain ⟨hcm, hu⟩ := completed_concat_full p hl
      rw [if_pos ⟨by decide, hl⟩, ← hq] at hi
      rw [hcm, hu, ← completed_append_uncompleted queue]
      simpa using hi
    · obtain ⟨hcm, hu⟩ := completed_concat_open p hl
      rw [if_neg (fun hf => hl hf.2), ← hq] at hi
      rw [hcm, hu]
      simpa using hi
  have hb : ∀ n ∈ c.batchVerifier.badSources, n ∈ v.badSources := by
    intro n hn
    rw [hp.sources]
    obtain hn | ⟨q, hq, hqn⟩ := (h.progress.sources n).1 hn
    · exact inl hn
    · exact inr ⟨q, map_subset _ (completed_subset_concat queue p) hq, hqn⟩
  refine ⟨v, hr, fun recSigs => ⟨hp, ?_, ?_, ?_, ?_, ?_, ?_, ?_⟩⟩
  · rw [hfr]
    exact h.fallback
  · rw [hfr]
    exact h.subBatchSize
  · rw [filter_append, filter_cons_of_pos hd, filter_nil]
    exact h.needs.append_right [p]
  · intro e he
    rcases mem_append.1 he with he | he
    · exact h.selected e he
    · rw [mem_singleton.1 he, hsl]
      rfl
  · intro n hn
    obtain ⟨e, he, hen⟩ := h.marked_invalid n hn
    exact ⟨e, mem_append_left _ he, hen⟩
  · intro e he hs
    rcases mem_append.1 he with he | he
    · exact hb _ (h.invalid_bad e he hs)
    · rw [mem_singleton] at he
      simp [← he, hs] at hsig
  · intro hc
    obtain ⟨hqu, hm⟩ := h.clean (clean_concat.1 hc).1
    exact ⟨by rw [filter_append, filter_cons_of_pos hd, filter_nil, ← hqu],
      hm⟩

end Tracks

variable {queue : List PendingLock} {c : Collected} {marked : List NodeId} {p : PendingLock}
  {pend : PendingLocks}

lemma collectLock_cases {earlier : List PendingLock} (h : Tracks ctx earlier c queue marked)
    (hw : ∀ e ∈ earlier, e.hash ≠ p.hash) :
    (∃ c' new marked', collectLock ctx c p = .ok (some c') ∧
      Tracks ctx (earlier ++ [p]) c' (queue ++ new) marked' ∧
      new.Sublist [p] ∧ (p.nodeId ∈ c.batchVerifier.badSources → new = [])) ∨
    (collectLock ctx c p = .ok none ∧ p.needsVerification ctx = true ∧
      p.nodeId ∉ c.batchVerifier.badSources ∧ p.selectQuorum ctx = none) := by
  unfold collectLock
  by_cases hd : p.nodeId ∈ c.batchVerifier.badSources
  · refine inl ⟨c, [], marked, by simp [hd], ?_, by simp, fun _ => rfl⟩
    rw [append_nil]
    exact h.pass (fun _ => hd) fun hc => absurd hd (h.not_bad_of_clean hc)
  rw [if_neg hd]
  cases hsig : p.islock.sig with
  | none =>
    refine inl ⟨_, [], p.nodeId :: marked, rfl, ?_, by simp, fun _ => rfl⟩
    rw [append_nil]
    exact h.mark hsig
  | some s =>
    by_cases hr : p.hasRecoveredSig ctx = true
    · refine inl ⟨c, [], marked, by simp [hr], ?_, by simp, fun _ => rfl⟩
      rw [append_nil]
      exact h.pass (fun hn => by simp [hsig] at hn) fun _ => by
        simp [PendingLock.needsVerification, hr]
    have hnd : p.needsVerification ctx = true := by
      simp [PendingLock.needsVerification, hsig, hr]
    cases hs : p.selectQuorum ctx with
    | none => exact inr ⟨by simp [hr], hnd, hd, rfl⟩
    | some quorum =>
      obtain ⟨v, hrn, ht⟩ := h.push hnd hs hw
      left
      by_cases hi : ctx.signing.hasRecoveredSigForId ctx.llmqType (p.islock.getRequestId ctx)
      · exact ⟨⟨v, c.recSigs⟩, [p], marked, by simp [hr, hrn, hi], ht _,
          List.Sublist.refl _, fun hb => absurd hb hd⟩
      · exact ⟨_, [p], marked, by simp [hr, hrn, hi]; rfl, ht _, List.Sublist.refl _,
          fun hb => absurd hb hd⟩

lemma collectLocks_append (c : Collected) (l1 l2 : List PendingLock) :
    collectLocks ctx c (l1 ++ l2) = collectLocks ctx c l1 >>= fun
      | none => .ok none
      | some c => collectLocks ctx c l2 := by
  induction l1 generalizing c with
  | nil => rfl
  | cons p l1 ih =>
    simp only [cons_append, collectLocks]
    cases collectLock ctx c p with
    | error e => rfl
    | ok o =>
      cases o with
      | none => rfl
      | some c => exact ih c

lemma collectLocks_cases : ∀ (later earlier queue : List PendingLock) (c : Collected)
    (marked : List NodeId), Tracks ctx earlier c queue marked →
    ((earlier ++ later).map PendingLock.hash).Nodup →
    (∃ c' new marked', collectLocks ctx c later = .ok (some c') ∧
      Tracks ctx (earlier ++ later) c' (queue ++ new) marked' ∧ new.Sublist later) ∨
    (collectLocks ctx c later = .ok none ∧ StopsWithoutQuorum ctx (earlier ++ later)) := by
  intro later
  induction later with
  | nil =>
    intro earlier queue c marked h _
    exact inl ⟨c, [], marked, rfl, by simpa using h, List.Sublist.refl _⟩
  | cons p later ih =>
    intro earlier queue c marked h hd
    have hw : ∀ e ∈ earlier, e.hash ≠ p.hash := by
      intro e he
      rw [map_append, nodup_append] at hd
      exact hd.2.2 e.hash (mem_map_of_mem he) p.hash (by simp)
    rcases collectLock_cases h hw with
      ⟨c1, new1, marked1, hr1, h1, hs1, -⟩ | ⟨hr1, hne, hb, hl⟩
    · rcases ih (earlier ++ [p]) (queue ++ new1) c1 marked1 h1 (by simpa using hd) with
        ⟨c2, new2, marked2, hr2, h2, hs2⟩ | ⟨hr2, ht⟩
      · refine inl ⟨c2, new1 ++ new2, marked2, ?_, by simpa using h2, hs1.append hs2⟩
        simp [collectLocks, hr1, hr2]
      · exact inr ⟨by simp [collectLocks, hr1, hr2], by simpa using ht⟩
    · refine inr ⟨by simp [collectLocks, hr1], ?_, earlier, p, later, rfl, hne, ?_⟩
      · exact ctx.signing.selectQuorumForSigning_eq_none.1 hl
      · intro e he hn
        by_contra hs
        exact hb (hn ▸ h.invalid_bad e he (by simpa using hs))

lemma foldl_finishLock (v : BatchVerifier NodeId Uint256)
    (recSigs : ExtTreeMap Uint256 (Quorum × RecoveredSig)) (l : List PendingLock) :
    ∀ r, (l.foldl (finishLock ctx v recSigs) r).processed =
      r.processed ++ l.filter fun p => p.hash ∉ v.badMessages := by
  induction l with
  | nil => simp
  | cons p l ih =>
    intro r
    rw [foldl_cons, ih]
    by_cases hp : p.hash ∈ v.badMessages
    · simp [finishLock, hp]
    · simp [finishLock, hp]

lemma processPendingDirectSendLocks_eq (hr : collectLocks ctx {} pend.locks = .ok (some c))
    (h : Tracks ctx pend.locks c queue marked) (ban : Bool) :
    ∃ r, processPendingDirectSendLocks ctx pend ban = .ok r ∧
      ∀ p, p ∈ r.processed ↔ p ∈ pend.locks ∧ (p ∈ queue → p.verifies ctx = true) := by
  obtain ⟨v, hv, hf⟩ := BatchVerifier.verify_spec ctx.verify h.progress.holds
  have hu : ∀ e ∈ queue, e ∈ pend.locks := fun e he =>
    (mem_filter.1 (h.needs.subset he)).1
  have hb : ∀ p ∈ pend.locks, p.hash ∈ v.badMessages ↔ p ∈ queue ∧ p.verifies ctx = false := by
    intro p hp
    rw [(h.progress.found hf).2, ← map_append, completed_append_uncompleted]
    constructor
    · rintro ⟨-, q, hq, hi, hb⟩
      obtain ⟨e, he, rfl⟩ := mem_map.1 hq
      have : e = p := inj_on_of_nodup_map pend.nodup (hu e he) hp (by simpa using hi)
      exact ⟨this ▸ he, by simpa [this] using hb⟩
    · rintro ⟨hq, hb⟩
      exact ⟨h.fallback, p.queued ctx, mem_map_of_mem hq, by simp, by simpa using hb⟩
  refine ⟨_, by simp only [processPendingDirectSendLocks, hr, hv, Run.ok_bind]; rfl, fun p => ?_⟩
  rw [foldl_finishLock, nil_append, mem_filter]
  refine and_congr_right fun hp => ?_
  rw [decide_eq_true_iff, hb p hp]
  simp

lemma collectLock_stops (hn : p.needsVerification ctx)
    (hb : p.nodeId ∉ c.batchVerifier.badSources) (hs : p.selectQuorum ctx = none) :
    collectLock ctx c p = .ok none := by
  simp only [PendingLock.needsVerification, Bool.and_eq_true, Bool.not_eq_true'] at hn
  obtain ⟨hsig, hr⟩ := hn
  simp [collectLock, hb, hr, hs, Option.isNone_eq_false_iff.2 hsig]

lemma tracks_before {earlier later : List PendingLock}
    (hn : ((earlier ++ p :: later).map PendingLock.hash).Nodup)
    (hr : collectLocks ctx {} (earlier ++ p :: later) = .ok (some c)) :
    ∃ c1 queue marked, collectLocks ctx {} earlier = .ok (some c1) ∧
      Tracks ctx earlier c1 queue marked ∧ collectLocks ctx c1 (p :: later) = .ok (some c) := by
  rw [collectLocks_append] at hr
  have hn' : (([] ++ earlier).map PendingLock.hash).Nodup :=
    hn.sublist ((sublist_append_left _ _).map _)
  rcases collectLocks_cases earlier [] [] {} [] tracks_nil hn' with
    ⟨c1, queue, marked, hr1, h1, -⟩ | ⟨hr1, -⟩
  · rw [hr1] at hr
    exact ⟨c1, queue, marked, hr1, h1, hr⟩
  · rw [hr1] at hr
    cases hr

lemma not_stopsWithoutQuorum {pend : List PendingLock} (hd : (pend.map PendingLock.hash).Nodup)
    (hr : collectLocks ctx {} pend = .ok (some c)) : ¬ StopsWithoutQuorum ctx pend := by
  rintro ⟨ha, earlier, p, later, rfl, hne, hv⟩
  obtain ⟨c1, queue, marked, -, h1, hr⟩ := tracks_before hd hr
  have hnn : ∀ e : PendingLock, e.selectQuorum ctx = none := fun e =>
    ctx.signing.selectQuorumForSigning_eq_none.2 ha
  have hq : queue = [] := by
    refine eq_nil_iff_forall_not_mem.2 fun e he => ?_
    have := h1.selected e he
    simp [hnn e] at this
  have hb : p.nodeId ∉ c1.batchVerifier.badSources := by
    rw [h1.mem_badSources, hq]
    rintro (hn | ⟨e, he, -⟩)
    · obtain ⟨e, he, hen, hsig⟩ := h1.marked_invalid _ hn
      have := hv e he hen
      simp [hsig] at this
    · simp [completed] at he
  simp [collectLocks, collectLock_stops hne hb (hnn p)] at hr

lemma onlyVerifiedProcessed_of_clean (hn : collectLocks ctx {} pend.locks = .ok (some c))
    (h : Tracks ctx pend.locks c queue marked) (hc : Clean ctx pend.locks) (ban : Bool) :
    OnlyVerifiedProcessed ctx pend ban := by
  obtain ⟨r, hr, hm⟩ := processPendingDirectSendLocks_eq hn h ban
  refine ⟨r, hr, fun p hp => ?_⟩
  obtain ⟨hp, hv⟩ := (hm p).1 hp
  obtain ⟨l1, l2, hs⟩ := append_of_mem hp
  have hsig := (hc l1 p l2 hs).1
  refine ⟨hsig, ?_, ?_⟩
  · by_cases hrc : p.hasRecoveredSig ctx = true
    · exact inr hrc
    · refine inl (hv ?_)
      rw [(h.clean hc).1]
      exact mem_filter.2 ⟨hp, by simp [PendingLock.needsVerification, hsig, hrc]⟩
  · rintro earlier later hs ⟨c1, hr1, hb⟩
    have hd := pend.nodup
    rw [hs] at hd hn hc
    obtain ⟨c2, queue2, marked2, hr2, h2, -⟩ := tracks_before hd hn
    rw [hr1] at hr2
    cases hr2
    refine h2.not_bad_of_clean (p := p) ?_ hb
    exact fun e q l hq => hc e q (l ++ later) (by
      rw [append_cons earlier p later, hq, append_assoc, cons_append])

lemma clean_of_onlyVerifiedProcessed {ban : Bool}
    (hrn : collectLocks ctx {} pend.locks = .ok (some c))
    (hpr : OnlyVerifiedProcessed ctx pend ban) :
    ∀ earlier later, pend.locks = earlier ++ later → Clean ctx earlier := by
  intro earlier
  induction earlier using List.reverseRecOn with
  | nil => exact fun _ _ e p l hl => by simp at hl
  | append_singleton earlier p ih =>
    intro later hs
    rw [append_assoc, singleton_append] at hs
    have hc := ih _ hs
    have hd := pend.nodup
    have hp : p ∈ pend.locks := by simp [hs]
    rw [hs] at hd hrn
    obtain ⟨c1, queue, marked, hr1, h1, hrs⟩ := tracks_before hd hrn
    obtain ⟨hq, hm⟩ := h1.clean hc
    have hw : ∀ e ∈ earlier, e.hash ≠ p.hash := by
      intro e he
      rw [map_append, nodup_append] at hd
      exact hd.2.2 e.hash (mem_map_of_mem he) p.hash (by simp)
    have ht : p ∉ later := by
      rw [map_append, nodup_append, map_cons, nodup_cons] at hd
      exact fun hp => hd.2.1.1 (mem_map_of_mem hp)
    obtain ⟨c2, new, marked2, hr2, h2, -, hk⟩ | ⟨hr2, -⟩ := collectLock_cases h1 hw
    swap
    · simp [collectLocks, hr2] at hrs
    simp only [collectLocks, hr2, Run.ok_bind] at hrs
    obtain ⟨c3, new3, marked3, hr3, h3, hs3⟩ | ⟨hr3, -⟩ :=
      collectLocks_cases later (earlier ++ [p]) (queue ++ new) c2 marked2 h2 (by simpa using hd)
    swap
    · simp [hr3] at hrs
    rw [hr3] at hrs
    cases hrs
    rw [← append_cons, ← hs] at h3
    rw [← hs] at hrn
    obtain ⟨r, hr, hmm⟩ := processPendingDirectSendLocks_eq hrn h3 ban
    obtain ⟨r', hr', ho⟩ := hpr
    rw [hr] at hr'
    cases hr'
    refine clean_concat.2 ⟨hc, ?_, fun e he hn => ?_⟩
    · by_contra hsig
      refine hsig (ho p ((hmm p).2 ⟨hp, fun hq => ?_⟩)).1
      have := (mem_filter.1 (h3.needs.subset hq)).2
      simp [PendingLock.needsVerification, hsig] at this
    · by_contra hv
      have hb : p.nodeId ∈ c1.batchVerifier.badSources := by
        rw [h1.mem_badSources, hq]
        exact inr ⟨e, he, hn, by simpa using hv⟩
      refine (ho p ((hmm p).2 ⟨hp, fun hq => ?_⟩)).2.2 earlier later hs ⟨c1, hr1, hb⟩
      rw [hk hb, append_nil] at hq
      rcases mem_append.1 hq with hq | hq
      · exact absurd rfl (hw p (mem_filter.1 (h1.needs.subset hq)).1)
      · exact absurd (hs3.subset hq) ht

end Proofs

/-- `ProcessPendingDirectSendLocks` processes only verified locks exactly when it stops early for
lack of a quorum or the batch is clean. -/
theorem onlyVerifiedProcessed_iff (ctx : LockContext) (pend : PendingLocks) (ban : Bool) :
    OnlyVerifiedProcessed ctx pend ban ↔
      StopsWithoutQuorum ctx pend.locks ∨ Clean ctx pend.locks := by
  have hcs := @collectLocks_cases ctx pend.locks [] [] {} [] tracks_nil pend.nodup
  rw [List.nil_append] at hcs
  rcases hcs with ⟨c, queue, marked, hr, h, -⟩ | ⟨hr, ht⟩
  · have ht := not_stopsWithoutQuorum pend.nodup hr
    constructor
    · exact fun hp => inr (clean_of_onlyVerifiedProcessed hr hp pend.locks [] (by simp))
    · rintro (hs | hc)
      · exact absurd hs ht
      · exact onlyVerifiedProcessed_of_clean hr h hc ban
  · refine ⟨fun _ => inl ht, fun _ => ⟨{}, ?_, by simp⟩⟩
    simp [processPendingDirectSendLocks, hr]

def singleQuorumContext : LockContext where
  verify _ hash sig := hash == sig
  signing :=
    { hashWriter := List.sum
      getActiveQuorumSet := fun _ _ => [⟨3, 4⟩]
      hasRecoveredSig := fun _ _ _ => false
      hasRecoveredSigForId := fun _ _ => false }
  llmqType := 1
  signHeight := 100

def invalidLock : PendingLock := ⟨1, 7, ⟨[⟨5, 0⟩], 9, none⟩⟩

def invalidLocks : PendingLocks := ⟨[invalidLock], by decide⟩

theorem invalidLock_processed :
    (∃ r, processPendingDirectSendLocks singleQuorumContext invalidLocks true = .ok r ∧
      r.processed = [invalidLock] ∧ r.misbehaving = [(7, 20)]) ∧
    ¬ OnlyVerifiedProcessed singleQuorumContext invalidLocks true := by
  have hn : processPendingDirectSendLocks singleQuorumContext invalidLocks true =
      .ok { processed := [invalidLock], misbehaving := [(7, 20)] } := by rfl
  refine ⟨⟨_, hn, rfl, rfl⟩, ?_⟩
  rintro ⟨r, hr, ho⟩
  rw [hn] at hr
  cases hr
  exact absurd (ho invalidLock (by simp)).1 (by decide)

end Trivechain.Llmq
