import Trivechain.Bls.Basic

/-!
# Batched signature verification

`CBLSBatchVerifier` verifies the signatures of messages from several sources together. When a batch
fails it falls back to one batch per source and, if asked to, to one verification per message. The
map of messages never overwrites: a second message with a known id is recorded for its source as the
first one.

An iterator into the map is the message it points to, which does not change while it lives.
-/

namespace Trivechain.Bls
open Std (ExtTreeMap ExtTreeSet TransOrd LawfulEqOrd)
open Run
open List Std.ExtTreeMap

structure Message (MessageId : Type) where
  msgId : MessageId
  msgHash : Uint256
  sig : Option Sig
  pubKey : Option PubKey

open Message

abbrev MessagesByHash (MessageId : Type) := ExtTreeMap Uint256 (List (Message MessageId))

structure BatchVerifier (SourceId MessageId : Type) [Ord SourceId] [Ord MessageId] where
  secureVerification : Bool
  perMessageFallback : Bool
  subBatchSize : Nat := 0
  messages : ExtTreeMap MessageId (Message MessageId) := ∅
  messagesBySource : ExtTreeMap SourceId (List (Message MessageId)) := ∅
  badSources : ExtTreeSet SourceId := ∅
  badMessages : ExtTreeSet MessageId := ∅

structure Batch (MessageId : Type) [Ord MessageId] where
  aggSig : Agg Sig := .empty
  msgHashes : List Uint256 := []
  pubKeys : List (Agg PubKey) := []
  dups : ExtTreeSet MessageId := ∅

section Definitions
variable {SourceId MessageId : Type} [Ord SourceId] [TransOrd SourceId]
  [Ord MessageId] [TransOrd MessageId]
variable (verify : PubKey → Uint256 → Sig → Bool)

def Message.verifies (msg : Message MessageId) : Bool :=
  verifyInsecure verify msg.sig msg.pubKey msg.msgHash

def groupByHash (msgs : List (Message MessageId)) : MessagesByHash MessageId :=
  msgs.foldl (fun g msg => g.alter msg.msgHash fun l => some (l.getD [] ++ [msg])) ∅

namespace Batch

def addMessage (acc : Agg Sig × Agg PubKey × ExtTreeSet MessageId) (msg : Message MessageId) :
    Run (Agg Sig × Agg PubKey × ExtTreeSet MessageId) := do
  if msg.msgId ∈ acc.2.2 then
    return acc
  let aggSig ← acc.1.add msg.sig
  let aggPubKey ← acc.2.1.add msg.pubKey
  return (aggSig, aggPubKey, acc.2.2.insert msg.msgId)

def addGroup (b : Batch MessageId) (p : Uint256 × List (Message MessageId)) :
    Run (Batch MessageId) := do
  let acc ← p.2.foldlM addMessage (b.aggSig, .empty, b.dups)
  -- only duplicates for this hash
  if !acc.2.1.isValid then
    return { b with aggSig := acc.1, dups := acc.2.2 }
  return { aggSig := acc.1, dups := acc.2.2, msgHashes := b.msgHashes ++ [p.1],
           pubKeys := b.pubKeys ++ [acc.2.1] }

/-- One message per hash: the secure form never aggregates keys for the same hash. -/
def addBack (b : Batch MessageId) (p : Uint256 × List (Message MessageId)) :
    Run (Batch MessageId) := do
  let msg ← Run.demand .undefined p.2.getLast?
  if msg.msgId ∈ b.dups then
    return b
  let aggSig ← b.aggSig.add msg.sig
  return { aggSig := aggSig, dups := b.dups.insert msg.msgId, msgHashes := b.msgHashes ++ [p.1],
           pubKeys := b.pubKeys ++ [.ofObject msg.pubKey] }

end Batch

def verifyBatchInsecure (byMessageHash : MessagesByHash MessageId) : Run Bool := do
  let b ← byMessageHash.toList.foldlM Batch.addGroup {}
  if b.msgHashes.isEmpty then
    return true
  verifyInsecureAggregated verify b.aggSig b.pubKeys b.msgHashes

/-- Remove the last message of every hash, and the hashes that are left without any. -/
def popBack (byMessageHash : MessagesByHash MessageId) : MessagesByHash MessageId :=
  byMessageHash.filterMap fun _ its => if its.dropLast.isEmpty then none else some its.dropLast

def verifyBatchSecureStep (byMessageHash : MessagesByHash MessageId) : Run Bool := do
  let b ← byMessageHash.toList.foldlM Batch.addBack {}
  Run.ensure (b.msgHashes ≠ [])
  verifyInsecureAggregated verify b.aggSig b.pubKeys b.msgHashes

/-- Each step takes a message from every hash, so there are at most as many steps as messages. -/
def verifyBatchSecureLoop : Nat → MessagesByHash MessageId → Run Bool
  | 0, _ => return true
  | n + 1, byMessageHash => do
    if byMessageHash.isEmpty then
      return true
    if !(← verifyBatchSecureStep verify byMessageHash) then
      return false
    verifyBatchSecureLoop n (popBack byMessageHash)

def verifyBatchSecure (byMessageHash : MessagesByHash MessageId) : Run Bool :=
  verifyBatchSecureLoop verify (byMessageHash.toList.map (·.2.length)).sum byMessageHash

namespace BatchVerifier

def verifyBatch (v : BatchVerifier SourceId MessageId)
    (byMessageHash : MessagesByHash MessageId) : Run Bool :=
  if v.secureVerification then verifyBatchSecure verify byMessageHash
  else verifyBatchInsecure verify byMessageHash

def markBadMessage (v : BatchVerifier SourceId MessageId) (msg : Message MessageId) :
    BatchVerifier SourceId MessageId :=
  -- the same message might be invalid from a different source, no need to verify it again
  if msg.msgId ∈ v.badMessages then v
  else if !msg.verifies verify then { v with badMessages := v.badMessages.insert msg.msgId }
  else v

def markBadSource (v : BatchVerifier SourceId MessageId)
    (p : SourceId × List (Message MessageId)) : BatchVerifier SourceId MessageId :=
  let v := { v with badSources := v.badSources.insert p.1 }
  if v.perMessageFallback then
    match p.2 with
    -- no need to verify a single message again
    | [msg] => { v with badMessages := v.badMessages.insert msg.msgId }
    | msgs => msgs.foldl (markBadMessage verify) v
  else v

def verifySourceBatch (nSources : Nat) (v : BatchVerifier SourceId MessageId)
    (p : SourceId × List (Message MessageId)) : Run Bool :=
  -- no need to verify it again if there was just one source
  if nSources ≠ 1 then v.verifyBatch verify (groupByHash p.2) else return false

def verifySource (nSources : Nat) (v : BatchVerifier SourceId MessageId)
    (p : SourceId × List (Message MessageId)) : Run (BatchVerifier SourceId MessageId) := do
  if ← verifySourceBatch verify nSources v p then
    return v
  return v.markBadSource verify p

/-- `CBLSBatchVerifier::Verify` -/
def verifyAll (v : BatchVerifier SourceId MessageId) : Run (BatchVerifier SourceId MessageId) := do
  if ← v.verifyBatch verify (groupByHash (v.messages.toList.map (·.2))) then
    return v
  v.messagesBySource.toList.foldlM (verifySource verify v.messagesBySource.size) v

def clearMessages (v : BatchVerifier SourceId MessageId) : BatchVerifier SourceId MessageId :=
  { v with messages := ∅, messagesBySource := ∅ }

/-- The message map and the per-source list after `emplace`, which keeps what is there. -/
def record (v : BatchVerifier SourceId MessageId) (sourceId : SourceId) (msg : Message MessageId) :
    BatchVerifier SourceId MessageId :=
  let messages := v.messages.insertIfNew msg.msgId msg
  let it := (messages[msg.msgId]?).getD msg
  { v with
    messages := messages
    messagesBySource := v.messagesBySource.alter sourceId fun l => some (l.getD [] ++ [it]) }

def pushMessage (v : BatchVerifier SourceId MessageId) (sourceId : SourceId)
    (msg : Message MessageId) : Run (BatchVerifier SourceId MessageId) := do
  Run.ensure (msg.sig.isSome ∧ msg.pubKey.isSome)
  let v := v.record sourceId msg
  if v.subBatchSize ≠ 0 ∧ v.subBatchSize ≤ v.messages.size then
    let v ← v.verifyAll verify
    return v.clearMessages
  return v

end BatchVerifier
end Definitions

section Groups
variable {MessageId : Type}

def Grouped (g : MessagesByHash MessageId) : Prop :=
  ∀ (h : Uint256) (its : List (Message MessageId)), g[h]? = some its → its ≠ [] ∧ ∀ msg ∈ its,
    msg.msgHash = h

def grouped (g : MessagesByHash MessageId) : List (Message MessageId) := g.toList.flatMap (·.2)

lemma mem_grouped {g : MessagesByHash MessageId} {msg : Message MessageId} : msg ∈ grouped g ↔
      ∃ (h : Uint256) (its : List (Message MessageId)), g[h]? = some its ∧ msg ∈ its := by
  simp [grouped, mem_toList_iff_getElem?_eq_some]

lemma getElem?_popBack (g : MessagesByHash MessageId) (h : Uint256) : (popBack g)[h]? =
      (g[h]?).bind fun its => if its.dropLast.isEmpty then none else some its.dropLast := by
  simp [popBack, getElem?_filterMap]

lemma getElem?_popBack_eq_some {g : MessagesByHash MessageId} {h : Uint256}
    {its : List (Message MessageId)} :
    (popBack g)[h]? = some its ↔ ∃ its', g[h]? = some its' ∧ its = its'.dropLast ∧ its ≠ [] := by
  rw [getElem?_popBack, Option.bind_eq_some_iff]
  refine exists_congr fun its' => and_congr_right fun _ => ?_
  by_cases hd : its'.dropLast = []
  · simp only [hd, isEmpty_nil, if_true]
    exact ⟨nofun, fun hi => absurd hi.1 hi.2⟩
  · simp only [List.isEmpty_iff, hd, if_false, Option.some.injEq]
    exact ⟨fun hi => ⟨hi.symm, hi ▸ hd⟩, fun hi => hi.1.symm⟩

lemma all_grouped (g : MessagesByHash MessageId) (f : Message MessageId → Bool) :
    (grouped g).all f =
      ((g.toList.flatMap (·.2.getLast?.toList)).all f && (grouped (popBack g)).all f) := by
  apply Bool.eq_iff_iff.2
  simp only [Bool.and_eq_true, all_eq_true, mem_grouped, mem_flatMap, Prod.exists,
    mem_toList_iff_getElem?_eq_some, getElem?_popBack_eq_some]
  constructor
  · intro hf
    refine ⟨?_, ?_⟩
    · rintro msg ⟨h, its, hg, hm⟩
      exact hf msg ⟨h, its, hg, mem_of_getLast? (by simpa using hm)⟩
    · rintro msg ⟨h, -, ⟨its, hg, rfl, -⟩, hm⟩
      exact hf msg ⟨h, its, hg, dropLast_subset _ hm⟩
  · rintro ⟨hl, hr⟩ msg ⟨h, its, hg, hm⟩
    have hn : its ≠ [] := ne_nil_of_mem hm
    rw [← dropLast_append_getLast hn] at hm
    rcases mem_append.1 hm with hm | hm
    · exact hr msg ⟨h, _, ⟨its, hg, rfl, ne_nil_of_mem hm⟩, hm⟩
    · refine hl msg ⟨h, its, hg, ?_⟩
      simpa [getLast?_eq_some_getLast hn] using hm

end Groups

section Batches
variable {MessageId : Type} [Ord MessageId] [TransOrd MessageId]
variable (verify : PubKey → Uint256 → Sig → Bool)

/-- Both objects of the message are valid, as `PushMessage` asserts. -/
def Message.Valid (msg : Message MessageId) : Prop := msg.sig.isSome ∧ msg.pubKey.isSome

def Batchable (msgs : List (Message MessageId)) : Prop :=
  (∀ msg ∈ msgs, msg.Valid) ∧
  ∀ msg ∈ msgs, ∀ msg' ∈ msgs, msg.msgId = msg'.msgId → msg = msg'

namespace Batch

/-- The batch aggregates exactly the messages `fresh`, in this order. -/
structure Covers (b : Batch MessageId) (fresh : List (Message MessageId)) : Prop where
  sigs : b.aggSig.parts = fresh.map fun msg => msg.sig.getD 0
  keys : ((b.pubKeys.zip b.msgHashes).flatMap fun p => p.1.parts.map fun k => (p.2, k)) =
    fresh.map fun msg => (msg.msgHash, msg.pubKey.getD 0)
  ids : ∀ id, id ∈ b.dups ↔ ∃ msg ∈ fresh, msg.msgId = id
  lengths : b.pubKeys.length = b.msgHashes.length
  valid : ∀ p ∈ b.pubKeys, p.isValid
  hashes : b.msgHashes = [] ↔ fresh = []

lemma covers_empty : Covers ({} : Batch MessageId) [] := by
  constructor <;> simp

lemma Covers.verify_eq {b : Batch MessageId} {fresh : List (Message MessageId)}
    (h : Covers b fresh) (hf : fresh ≠ []) (hv : ∀ msg ∈ fresh, msg.Valid) :
    verifyInsecureAggregated verify b.aggSig b.pubKeys b.msgHashes =
      .ok (fresh.all (verifies verify)) := by
  have hs : b.aggSig.isValid = true := by simp [h.sigs, hf]
  have hh : b.msgHashes ≠ [] := fun hn => hf (h.hashes.1 hn)
  have hk : b.pubKeys ≠ [] := fun hn =>
    hh (length_eq_zero_iff.1 (by rw [← h.lengths, hn]; rfl))
  have ha : b.pubKeys.any (fun p => !p.isValid) = false := by
    simpa using h.valid
  have he : Run.ensure (b.pubKeys ≠ [] ∧ b.msgHashes ≠ [] ∧
      b.pubKeys.length = b.msgHashes.length) = .ok () := ensure_pos ⟨hk, hh, h.lengths⟩
  unfold verifyInsecureAggregated
  rw [he, h.sigs, h.keys, verifyParts_map]
  simp only [hs, Bool.not_true, Bool.false_eq_true, if_false, ha, ok_bind, pure_eq]
  congr 1
  apply Bool.eq_iff_iff.2
  simp only [all_eq_true]
  refine forall₂_congr fun msg hm => ?_
  obtain ⟨s, hsig⟩ := Option.isSome_iff_exists.1 (hv msg hm).1
  obtain ⟨k, hy⟩ := Option.isSome_iff_exists.1 (hv msg hm).2
  simp [verifies, verifyInsecure, hsig, hy]

lemma foldlM_covers (pick : Uint256 × List (Message MessageId) → List (Message MessageId))
    (step : Batch MessageId → Uint256 × List (Message MessageId) → Run (Batch MessageId)) :
    ∀ (groups : List (Uint256 × List (Message MessageId))) (b : Batch MessageId) (fresh),
      (∀ p ∈ groups, ∀ b fresh, Covers b fresh → ∃ b' new, step b p = .ok b' ∧
        Covers b' (fresh ++ new) ∧ new ⊆ pick p ∧ ∀ msg ∈ pick p, msg.msgId ∈ b'.dups) →
      Covers b fresh → ∃ b' new, groups.foldlM step b = .ok b' ∧ Covers b' (fresh ++ new) ∧
        new ⊆ groups.flatMap pick ∧ ∀ msg ∈ groups.flatMap pick, msg.msgId ∈ b'.dups := by
  intro groups
  induction groups with
  | nil => exact fun b fresh _ h => ⟨b, [], rfl, by simpa using h, by simp, by simp⟩
  | cons p groups ih =>
    intro b fresh hs h
    obtain ⟨b1, new1, hr1, h1, hs1, hi1⟩ := hs p (by simp) b fresh h
    obtain ⟨b2, new2, hr2, h2, hs2, hi2⟩ :=
      ih b1 (fresh ++ new1) (fun q hq => hs q (by simp [hq])) h1
    refine ⟨b2, new1 ++ new2, by simp [hr1, hr2], by simpa using h2, ?_, ?_⟩
    · rw [flatMap_cons]
      exact append_subset.2 ⟨subset_append_of_subset_left _ hs1,
        subset_append_of_subset_right _ hs2⟩
    · intro msg hm
      rcases mem_append.1 (flatMap_cons ▸ hm) with hm | hm
      · obtain ⟨msg', hm', hi⟩ := (h1.ids _).1 (hi1 msg hm)
        exact (h2.ids _).2 ⟨msg', mem_append_left _ hm', hi⟩
      · exact hi2 msg hm

lemma Covers.all_eq {b : Batch MessageId} {fresh msgs : List (Message MessageId)}
    (h : Covers b fresh) (hb : Batchable msgs) (hs : fresh ⊆ msgs)
    (hi : ∀ msg ∈ msgs, msg.msgId ∈ b.dups) (f : Message MessageId → Bool) :
    fresh.all f = msgs.all f := by
  have hs' : msgs ⊆ fresh := by
    intro msg hm
    obtain ⟨msg', hm', hd⟩ := (h.ids _).1 (hi msg hm)
    rwa [hb.2 msg hm msg' (hs hm') hd.symm]
  exact Bool.eq_iff_iff.2 (by
    simp only [all_eq_true]
    exact ⟨fun hf msg hm => hf msg (hs' hm), fun hf msg hm => hf msg (hs hm)⟩)

end Batch

variable [LawfulEqOrd MessageId]

namespace Batch

lemma foldlM_addMessage (msgs : List (Message MessageId)) (hv : ∀ msg ∈ msgs, msg.Valid) :
    ∀ acc : Agg Sig × Agg PubKey × ExtTreeSet MessageId,
      ∃ acc' new, msgs.foldlM addMessage acc = .ok acc' ∧ new ⊆ msgs ∧
        acc'.1.parts = acc.1.parts ++ new.map (fun msg => msg.sig.getD 0) ∧
        acc'.2.1.parts = acc.2.1.parts ++ new.map (fun msg => msg.pubKey.getD 0) ∧
        (∀ id, id ∈ acc'.2.2 ↔ id ∈ acc.2.2 ∨ ∃ msg ∈ new, msg.msgId = id) ∧
        ∀ msg ∈ msgs, msg.msgId ∈ acc'.2.2 := by
  induction msgs with
  | nil => exact fun acc => ⟨acc, [], rfl, by simp, by simp, by simp, by simp, by simp⟩
  | cons msg msgs ih =>
    intro acc
    have hv' : ∀ m ∈ msgs, m.Valid := fun m hm => hv m (mem_cons_of_mem _ hm)
    by_cases hd : msg.msgId ∈ acc.2.2
    · obtain ⟨acc', new, hr, hb, hs, hk, hi, ha⟩ := ih hv' acc
      refine ⟨acc', new, ?_, subset_cons_of_subset _ hb, hs, hk, hi, ?_⟩
      · simp only [foldlM_cons, addMessage, hd, if_true]
        exact hr
      · intro m hm
        rcases mem_cons.1 hm with rfl | hm
        · exact (hi _).2 (Or.inl hd)
        · exact ha m hm
    · obtain ⟨s, hsig⟩ := Option.isSome_iff_exists.1 (hv msg (by simp)).1
      obtain ⟨k, hy⟩ := Option.isSome_iff_exists.1 (hv msg (by simp)).2
      obtain ⟨acc', new, hr, hb, hs, hk, hi, ha⟩ := ih hv'
        (⟨acc.1.parts ++ [s]⟩, ⟨acc.2.1.parts ++ [k]⟩, acc.2.2.insert msg.msgId)
      refine ⟨acc', msg :: new, ?_, cons_subset_cons _ hb, ?_, ?_, ?_, ?_⟩
      · simp only [foldlM_cons, addMessage, hd, if_false, hsig, hy, Agg.add_some, ok_bind]
        exact hr
      · simpa [hsig] using hs
      · simpa [hy] using hk
      · intro id
        rw [hi]
        simp [ExtTreeSet.mem_insert, or_assoc, or_left_comm]
      · intro m hm
        rcases mem_cons.1 hm with rfl | hm
        · exact (hi _).2 (Or.inl (by simp))
        · exact ha m hm

variable {b : Batch MessageId} {fresh : List (Message MessageId)} (h : Covers b fresh)
  (p : Uint256 × List (Message MessageId)) (hv : ∀ msg ∈ p.2, msg.Valid)
  (hh : ∀ msg ∈ p.2, msg.msgHash = p.1)
include h hv hh

lemma Covers.addGroup :
    ∃ b' new, b.addGroup p = .ok b' ∧ Covers b' (fresh ++ new) ∧ new ⊆ p.2 ∧
      ∀ msg ∈ p.2, msg.msgId ∈ b'.dups := by
  obtain ⟨acc, new, hr, hb, hs, hk, hd, ha⟩ := foldlM_addMessage p.2 hv (b.aggSig, .empty, b.dups)
  have hi : ∀ id, id ∈ acc.2.2 ↔ ∃ msg ∈ fresh ++ new, msg.msgId = id := by
    intro id
    rw [hd, h.ids]
    simp [or_and_right, exists_or]
  by_cases hn : new = []
  · subst hn
    refine ⟨{ b with aggSig := acc.1, dups := acc.2.2 }, [], ?_, ?_, hb, ha⟩
    · have hkv : acc.2.1.isValid = false := by simp [Agg.isValid, hk]
      simp [Batch.addGroup, hr, hkv]
    · exact ⟨by simpa [h.sigs] using hs, by simpa using h.keys, hi, h.lengths, h.valid,
        by simpa using h.hashes⟩
  · have hkv : acc.2.1.isValid = true := by simpa [hk] using hn
    refine ⟨⟨acc.1, b.msgHashes ++ [p.1], b.pubKeys ++ [acc.2.1], acc.2.2⟩, new, ?_, ?_, hb, ha⟩
    · simp [Batch.addGroup, hr, hkv]
    · refine ⟨by simpa [h.sigs] using hs, ?_, hi, by simp [h.lengths], ?_, by simp [hn]⟩
      · have hp : new.map (fun msg => (p.1, msg.pubKey.getD 0)) =
            new.map fun msg => (msg.msgHash, msg.pubKey.getD 0) :=
          map_congr_left fun msg hm => by rw [hh msg (hb hm)]
        simp only [zip_append h.lengths, flatMap_append, h.keys, map_append, ← hp]
        simp [hk, Function.comp_def]
      · intro q hq
        rcases mem_append.1 hq with hq | hq
        · exact h.valid q hq
        · rw [mem_singleton.1 hq]
          exact hkv

lemma Covers.addBack (hp : p.2 ≠ []) :
    ∃ b' new, b.addBack p = .ok b' ∧ Covers b' (fresh ++ new) ∧ new ⊆ p.2.getLast?.toList ∧
      ∀ msg ∈ p.2.getLast?.toList, msg.msgId ∈ b'.dups := by
  have hl := getLast?_eq_some_getLast hp
  have hm := getLast_mem hp
  generalize p.2.getLast hp = msg at hl hm
  by_cases hd : msg.msgId ∈ b.dups
  · refine ⟨b, [], ?_, by simpa using h, by simp, by simpa [hl] using hd⟩
    simp [Batch.addBack, hl, Run.demand, hd]
  · obtain ⟨s, hsig⟩ := Option.isSome_iff_exists.1 (hv msg hm).1
    obtain ⟨k, hk⟩ := Option.isSome_iff_exists.1 (hv msg hm).2
    refine ⟨⟨⟨b.aggSig.parts ++ [s]⟩, b.msgHashes ++ [p.1], b.pubKeys ++ [⟨[k]⟩],
      b.dups.insert msg.msgId⟩, [msg], ?_, ?_, by simp [hl], by simp [hl]⟩
    · simp [Batch.addBack, hl, Run.demand, hd, hsig, hk, Agg.ofObject]
    · refine ⟨by simp [h.sigs, hsig], ?_, ?_, by simp [h.lengths], ?_, by simp⟩
      · simp [zip_append h.lengths, h.keys, hk, hh msg hm]
      · intro id
        simp [ExtTreeSet.mem_insert, h.ids, or_and_right, exists_or, or_comm]
      · intro q hq
        rcases mem_append.1 hq with hq | hq
        · exact h.valid q hq
        · simp [mem_singleton.1 hq, Agg.isValid]

end Batch

variable {g : MessagesByHash MessageId}

lemma verifyBatchInsecure_eq (hg : Grouped g) (hb : Batchable (grouped g)) :
    verifyBatchInsecure verify g = .ok ((grouped g).all (verifies verify)) := by
  obtain ⟨b, fresh, hr, hc, hs, hi⟩ := Batch.foldlM_covers (·.2) Batch.addGroup g.toList {} []
    (fun p hp b fresh h => h.addGroup p (fun msg hm => hb.1 msg (mem_flatMap.2 ⟨p, hp, hm⟩))
      (hg p.1 p.2 (mem_toList_iff_getElem?_eq_some.1 hp)).2)
    Batch.covers_empty
  rw [nil_append] at hc
  unfold verifyBatchInsecure
  rw [hr, ok_bind]
  by_cases hf : fresh = []
  · have ha := hc.all_eq hb hs hi (verifies verify)
    rw [← ha, hc.hashes.2 hf, hf]
    rfl
  · have hn : b.msgHashes.isEmpty = false := by simpa using mt hc.hashes.1 hf
    rw [hn, hc.verify_eq verify hf fun msg hm => hb.1 msg (hs hm), hc.all_eq hb hs hi]
    simp

lemma verifyBatchSecureStep_eq (hg : Grouped g) (hb : Batchable (grouped g)) (hn : g ≠ ∅) :
    verifyBatchSecureStep verify g =
      .ok ((g.toList.flatMap (·.2.getLast?.toList)).all (verifies verify)) := by
  have ht : ∀ p ∈ g.toList, p.2 ≠ [] ∧ ∀ msg ∈ p.2, msg.msgHash = p.1 := fun p hp =>
    hg p.1 p.2 (mem_toList_iff_getElem?_eq_some.1 hp)
  have hl : g.toList.flatMap (·.2.getLast?.toList) ⊆ grouped g := by
    intro msg hm
    obtain ⟨p, hp, hm⟩ := mem_flatMap.1 hm
    exact mem_flatMap.2 ⟨p, hp, mem_of_getLast? (by simpa using hm)⟩
  have hb' : Batchable (g.toList.flatMap (·.2.getLast?.toList)) :=
    ⟨fun msg hm => hb.1 msg (hl hm), fun msg hm msg' hm' => hb.2 msg (hl hm) msg' (hl hm')⟩
  obtain ⟨b, fresh, hr, hc, hs, hi⟩ :=
    Batch.foldlM_covers (·.2.getLast?.toList) Batch.addBack g.toList {} []
      (fun p hp b fresh h => h.addBack p
        (fun msg hm => hb.1 msg (mem_flatMap.2 ⟨p, hp, hm⟩)) (ht p hp).2 (ht p hp).1)
      Batch.covers_empty
  rw [nil_append] at hc
  have hf : fresh ≠ [] := by
    rintro rfl
    obtain ⟨p, hp⟩ := exists_mem_of_ne_nil g.toList (by simpa using hn)
    have hp' := getLast?_eq_some_getLast (ht p hp).1
    have := hi _ (mem_flatMap.2 ⟨p, hp, by rw [hp']; exact mem_singleton.2 rfl⟩)
    simp [hc.ids] at this
  unfold verifyBatchSecureStep
  rw [hr, ok_bind, ensure_pos (mt hc.hashes.1 hf), ok_bind,
    hc.verify_eq verify hf fun msg hm => hb'.1 msg (hs hm), hc.all_eq hb' hs hi]

lemma verifyBatchSecureLoop_eq : ∀ (n : Nat) (g : MessagesByHash MessageId), Grouped g →
    Batchable (grouped g) → (∀ (h : Uint256) its, g[h]? = some its → its.length ≤ n) →
    verifyBatchSecureLoop verify n g = .ok ((grouped g).all (verifies verify)) := by
  intro n
  induction n with
  | zero =>
    intro g hg hb hl
    have : (grouped g).all (verifies verify) = true := by
      simp only [all_eq_true, mem_grouped]
      rintro msg ⟨h, its, ht, hm⟩
      exact absurd (length_eq_zero_iff.1 (Nat.le_zero.1 (hl h its ht))) (hg h its ht).1
    rw [this]
    rfl
  | succ n ih =>
    intro g hg hb hl
    by_cases hn : g = ∅
    · subst hn
      simp [verifyBatchSecureLoop, grouped]
    have hs : grouped (popBack g) ⊆ grouped g := by
      intro msg hm
      obtain ⟨h, its, ht, hm⟩ := mem_grouped.1 hm
      obtain ⟨its', hg', rfl, -⟩ := getElem?_popBack_eq_some.1 ht
      exact mem_grouped.2 ⟨h, its', hg', dropLast_subset _ hm⟩
    have hp := ih (popBack g) (fun h its ht => by
        obtain ⟨its', hg', rfl, hn⟩ := getElem?_popBack_eq_some.1 ht
        exact ⟨hn, fun msg hm => (hg h its' hg').2 msg (dropLast_subset _ hm)⟩)
      ⟨fun msg hm => hb.1 msg (hs hm), fun msg hm msg' hm' => hb.2 msg (hs hm) msg' (hs hm')⟩
      (fun h its ht => by
        obtain ⟨its', hg', rfl, -⟩ := getElem?_popBack_eq_some.1 ht
        have := hl h its' hg'
        simp only [length_dropLast]
        omega)
    have he : g.isEmpty = false := by simpa using hn
    simp only [verifyBatchSecureLoop, he, Bool.false_eq_true, if_false,
      verifyBatchSecureStep_eq verify hg hb hn, ok_bind, hp, all_grouped g]
    cases (g.toList.flatMap (·.2.getLast?.toList)).all (verifies verify) <;> rfl

lemma verifyBatch_eq {SourceId : Type} [Ord SourceId] (v : BatchVerifier SourceId MessageId)
    (hg : Grouped g) (hb : Batchable (grouped g)) :
    v.verifyBatch verify g = .ok ((grouped g).all (verifies verify)) := by
  unfold BatchVerifier.verifyBatch
  split_ifs
  · refine verifyBatchSecureLoop_eq verify _ g hg hb fun h its ht => ?_
    exact le_sum_of_mem (mem_map.2 ⟨(h, its), mem_toList_iff_getElem?_eq_some.2 ht, rfl⟩)
  · exact verifyBatchInsecure_eq verify hg hb

end Batches

section GroupByHash
variable {MessageId : Type}

section
variable (msgs : List (Message MessageId))
include msgs

lemma groupByHash_concat (msg : Message MessageId) : groupByHash (msgs ++ [msg]) =
      (groupByHash msgs).alter msg.msgHash fun l => some (l.getD [] ++ [msg]) := by
  simp [groupByHash]

lemma getElem?_groupByHash (h : Uint256) :
    (groupByHash msgs)[h]? = match msgs.filter (·.msgHash = h) with
      | [] => none
      | its => some its := by
  induction msgs using List.reverseRecOn with
  | nil => simp [groupByHash]
  | append_singleton msgs msg ih =>
    rw [groupByHash_concat, getElem?_alter]
    by_cases hh : msg.msgHash = h
    · subst hh
      simp only [Std.ReflCmp.compare_self, if_true, ih, filter_append, filter_cons, decide_true,
        filter_nil]
      cases msgs.filter (·.msgHash = msg.msgHash) <;> simp
    · have : compare msg.msgHash h ≠ .eq := by simpa using hh
      simp [this, ih, hh]

lemma groupByHash_grouped : Grouped (groupByHash msgs) := by
  intro h its hg
  rw [getElem?_groupByHash] at hg
  split at hg
  · cases hg
  · rename_i its' hn
    cases hg
    exact ⟨hn, fun msg hm => by simpa using (mem_filter.1 hm).2⟩

end

lemma mem_grouped_groupByHash {msgs : List (Message MessageId)} {msg : Message MessageId} :
    msg ∈ grouped (groupByHash msgs) ↔ msg ∈ msgs := by
  rw [mem_grouped]
  constructor
  · rintro ⟨h, its, hg, hm⟩
    rw [getElem?_groupByHash] at hg
    split at hg
    · cases hg
    · cases hg
      exact (mem_filter.1 hm).1
  · intro hm
    have hf : msg ∈ msgs.filter (·.msgHash = msg.msgHash) := by simpa using hm
    refine ⟨msg.msgHash, _, ?_, hf⟩
    rw [getElem?_groupByHash]
    split
    · simp_all
    · rfl

end GroupByHash

/-! ## What `Verify` finds -/

section Verify
variable {SourceId MessageId : Type} [Ord SourceId] [TransOrd SourceId] [LawfulEqOrd SourceId]
  [Ord MessageId] [TransOrd MessageId] [LawfulEqOrd MessageId]
variable (verify : PubKey → Uint256 → Sig → Bool)

omit [TransOrd SourceId] [LawfulEqOrd SourceId] in
lemma verifyBatch_groupByHash (v : BatchVerifier SourceId MessageId)
    {msgs : List (Message MessageId)} (hb : Batchable msgs) :
    v.verifyBatch verify (groupByHash msgs) = .ok (msgs.all (verifies verify)) := by
  rw [verifyBatch_eq verify v (groupByHash_grouped msgs)
    ⟨fun msg hm => hb.1 msg (mem_grouped_groupByHash.1 hm), fun msg hm msg' hm' =>
      hb.2 msg (mem_grouped_groupByHash.1 hm) msg' (mem_grouped_groupByHash.1 hm')⟩]
  congr 1
  exact Bool.eq_iff_iff.2 (by simp only [all_eq_true, mem_grouped_groupByHash])

namespace BatchVerifier

omit [TransOrd SourceId] [LawfulEqOrd SourceId] in
lemma foldl_markBadMessage (msgs : List (Message MessageId)) :
    ∀ v : BatchVerifier SourceId MessageId, ∃ bad,
      msgs.foldl (markBadMessage verify) v = { v with badMessages := bad } ∧
      ∀ id, id ∈ bad ↔ id ∈ v.badMessages ∨
        ∃ msg ∈ msgs, msg.msgId = id ∧ msg.verifies verify = false := by
  induction msgs with
  | nil => exact fun v => ⟨v.badMessages, rfl, by simp⟩
  | cons msg msgs ih =>
    intro v
    obtain ⟨bad, hr, hb⟩ := ih (markBadMessage verify v msg)
    refine ⟨bad, ?_, fun id => ?_⟩
    · rw [foldl_cons, hr]
      unfold markBadMessage
      split_ifs <;> rfl
    · rw [hb]
      unfold markBadMessage
      by_cases hk : msg.msgId ∈ v.badMessages
      · simp only [hk, if_true, mem_cons, exists_eq_or_imp]
        grind
      · by_cases hv : msg.verifies verify
        · simp [hk, hv]
        · simp [hk, hv, ExtTreeSet.mem_insert, or_assoc, or_left_comm]

/-- `v'` is `v` with more bad sources and messages found among `found`. -/
structure Found (v v' : BatchVerifier SourceId MessageId)
    (found : List (SourceId × Message MessageId)) : Prop where
  frame : v' = { v with badSources := v'.badSources, badMessages := v'.badMessages }
  sources : ∀ s, s ∈ v'.badSources ↔
    s ∈ v.badSources ∨ ∃ p ∈ found, p.1 = s ∧ p.2.verifies verify = false
  messages : ∀ id, id ∈ v'.badMessages ↔ id ∈ v.badMessages ∨
    (v.perMessageFallback = true ∧ ∃ p ∈ found, p.2.msgId = id ∧ p.2.verifies verify = false)

variable {verify}
variable {v v' : BatchVerifier SourceId MessageId}
  {pending verified : List (SourceId × Message MessageId)} {msg : Message MessageId}
  {p : SourceId × Message MessageId} {marked : List SourceId}

omit [LawfulEqOrd SourceId] [LawfulEqOrd MessageId] in
lemma Found.refl {found : List (SourceId × Message MessageId)}
    (h : ∀ p ∈ found, p.2.verifies verify = true) : Found verify v v found := by
  have hn : ¬ ∃ p ∈ found, p.2.verifies verify = false := by
    rintro ⟨p, hp, hv⟩
    simp [h p hp] at hv
  refine ⟨rfl, fun s => ⟨Or.inl, ?_⟩, fun id => ⟨Or.inl, ?_⟩⟩
  · rintro (hs | ⟨p, hp, -, hv⟩)
    exacts [hs, absurd ⟨p, hp, hv⟩ hn]
  · rintro (hs | ⟨-, p, hp, -, hv⟩)
    exacts [hs, absurd ⟨p, hp, hv⟩ hn]

omit [LawfulEqOrd SourceId] [LawfulEqOrd MessageId] in
lemma Found.append {v'' : BatchVerifier SourceId MessageId}
    {found found' : List (SourceId × Message MessageId)} (h : Found verify v v' found)
    (h' : Found verify v' v'' found') : Found verify v v'' (found ++ found') := by
  have hf : v'.perMessageFallback = v.perMessageFallback := by rw [h.frame]
  refine ⟨?_, fun s => ?_, fun id => ?_⟩
  · rw [h'.frame, h.frame]
  · rw [h'.sources, h.sources]
    simp [or_and_right, exists_or, or_assoc]
  · rw [h'.messages, h.messages, hf]
    simp only [mem_append, or_and_right, exists_or, and_or_left, or_assoc]

lemma markBadSource_spec {p : SourceId × List (Message MessageId)}
    (hb : p.2.all (verifies verify) = false) :
    Found verify v (v.markBadSource verify p) (p.2.map fun msg => (p.1, msg)) := by
  obtain ⟨bad, hb, hv⟩ : ∃ msg ∈ p.2, msg.verifies verify = false := by simpa using hb
  have hsr : ∀ s, s ∈ v.badSources.insert p.1 ↔ s ∈ v.badSources ∨
      ∃ q ∈ p.2.map (fun msg => (p.1, msg)), q.1 = s ∧ q.2.verifies verify = false := by
    intro s
    rw [ExtTreeSet.mem_insert, Std.LawfulEqCmp.compare_eq_iff_eq]
    constructor
    · rintro (rfl | hs)
      exacts [Or.inr ⟨(p.1, bad), mem_map_of_mem hb, rfl, hv⟩, Or.inl hs]
    · rintro (hs | ⟨q, hq, rfl, -⟩)
      · exact Or.inr hs
      · obtain ⟨msg, -, rfl⟩ := mem_map.1 hq
        exact Or.inl rfl
  dsimp only [markBadSource]
  by_cases hf : v.perMessageFallback = true
  · rw [if_pos hf]
    split
    · rename_i msg hm
      have hb' : bad = msg := by simpa [hm] using hb
      refine ⟨rfl, hsr, fun id => ?_⟩
      simp [ExtTreeSet.mem_insert, hm, hf, ← hb', hv, or_comm]
    · obtain ⟨badMessages, hr, hmm⟩ :=
        foldl_markBadMessage verify p.2 { v with badSources := v.badSources.insert p.1 }
      rw [hr]
      refine ⟨rfl, hsr, fun id => ?_⟩
      simpa [hf] using hmm id
  · rw [if_neg hf]
    exact ⟨rfl, hsr, by simp [hf]⟩

lemma verifySource_spec (nSources : Nat) (v : BatchVerifier SourceId MessageId)
    {p : SourceId × List (Message MessageId)} (hb : Batchable p.2)
    (ho : nSources = 1 → p.2.all (verifies verify) = false) :
    ∃ v', verifySource verify nSources v p = .ok v' ∧
      Found verify v v' (p.2.map fun msg => (p.1, msg)) := by
  have hv : verifySourceBatch verify nSources v p = .ok (p.2.all (verifies verify)) := by
    unfold verifySourceBatch
    split_ifs with hn
    · exact verifyBatch_groupByHash verify v hb
    · rw [ho (not_not.1 hn)]
      rfl
  unfold verifySource
  rw [hv, ok_bind]
  by_cases ha : p.2.all (verifies verify) = true
  · refine ⟨v, by simp [ha], Found.refl ?_⟩
    rintro q hq
    obtain ⟨msg, hm, rfl⟩ := mem_map.1 hq
    exact all_eq_true.1 ha msg hm
  · rw [if_neg ha]
    exact ⟨_, rfl, markBadSource_spec (by simpa using ha)⟩

variable (verify) in
lemma foldlM_verifySource (nSources : Nat) :
    ∀ (l : List (SourceId × List (Message MessageId))) (v : BatchVerifier SourceId MessageId),
      (∀ p ∈ l, Batchable p.2) → (nSources = 1 → ∀ p ∈ l, p.2.all (verifies verify) = false) →
      ∃ v', l.foldlM (verifySource verify nSources) v = .ok v' ∧
        Found verify v v' (l.flatMap fun p => p.2.map fun msg => (p.1, msg)) := by
  intro l
  induction l with
  | nil => exact fun v _ _ => ⟨v, rfl, Found.refl (by simp)⟩
  | cons p l ih =>
    intro v hb ho
    obtain ⟨v1, hr1,
      h1⟩ := verifySource_spec nSources v (hb p (by simp)) fun hn => ho hn p (by simp)
    obtain ⟨v2, hr2, h2⟩ := ih v1 (fun q hq => hb q (by simp [hq]))
      fun hn q hq => ho hn q (by simp [hq])
    exact ⟨v2, by simp [hr1, hr2], h1.append h2⟩

def stored (pending : List (SourceId × Message MessageId)) (id : MessageId) :
    Option (Message MessageId) :=
  (pending.find? fun p => compare p.2.msgId id == .eq).map (·.2)

/-- What is checked for each source: the recorded messages under the ids that it pushed. -/
def recorded (pending : List (SourceId × Message MessageId)) :
    List (SourceId × Message MessageId) :=
  pending.filterMap fun p => (stored pending p.2.msgId).map fun msg => (p.1, msg)

/-- The verifier holds the messages `pending`, pushed in this order since it was last empty. -/
structure Holds (v : BatchVerifier SourceId MessageId)
    (pending : List (SourceId × Message MessageId)) : Prop where
  valid : ∀ p ∈ pending, p.2.Valid
  messages : ∀ id, v.messages[id]? = stored pending id
  sources : ∀ s, s ∈ v.messagesBySource ↔ ∃ p ∈ pending, p.1 = s
  bySource : ∀ s its, v.messagesBySource[s]? = some its →
    ∀ msg, msg ∈ its ↔ ∃ p ∈ pending, p.1 = s ∧ stored pending p.2.msgId = some msg

section Stored

omit [Ord SourceId] [TransOrd SourceId] [LawfulEqOrd SourceId] [TransOrd MessageId]

lemma stored_mem {id : MessageId} (h : stored pending id = some msg) :
    msg.msgId = id ∧ ∃ p ∈ pending, p.2 = msg := by
  obtain ⟨p, hp, rfl⟩ := Option.map_eq_some_iff.1 h
  exact ⟨by simpa using find?_some hp, p, mem_of_find?_eq_some hp, rfl⟩

lemma exists_stored (hp : p ∈ pending) : ∃ msg, stored pending p.2.msgId = some msg := by
  have : (pending.find? fun q => compare q.2.msgId p.2.msgId == .eq).isSome :=
    find?_isSome.2 ⟨p, hp, by simp⟩
  obtain ⟨q, hq⟩ := Option.isSome_iff_exists.1 this
  exact ⟨q.2, by simp [stored, hq]⟩

omit [LawfulEqOrd MessageId] in
lemma stored_concat (pending : List (SourceId × Message MessageId)) (s : SourceId)
    (msg : Message MessageId) (id : MessageId) : stored (pending ++ [(s, msg)]) id =
      (stored pending id).or (if compare msg.msgId id == .eq then some msg else none) := by
  unfold stored
  rw [find?_append]
  cases pending.find? fun p => compare p.2.msgId id == .eq with
  | some q => rfl
  | none =>
    by_cases hi : compare msg.msgId id == .eq
    · simp [hi]
    · simp [hi]

lemma stored_concat_of_mem {s : SourceId} (hp : p ∈ pending) :
    stored (pending ++ [(s, msg)]) p.2.msgId = stored pending p.2.msgId := by
  obtain ⟨m, hm⟩ := exists_stored hp
  rw [stored_concat, hm]
  rfl

omit [LawfulEqOrd MessageId] in
lemma mem_recorded {q : SourceId × Message MessageId} :
    q ∈ recorded pending ↔ ∃ p ∈ pending, p.1 = q.1 ∧ stored pending p.2.msgId = some q.2 := by
  obtain ⟨s, msg⟩ := q
  simp only [recorded, mem_filterMap, Option.map_eq_some_iff, Prod.mk.injEq]
  refine exists_congr fun p => and_congr_right fun _ => ?_
  constructor
  · rintro ⟨m, hm, hs, rfl⟩
    exact ⟨hs, hm⟩
  · rintro ⟨hs, hm⟩
    exact ⟨msg, hm, hs, rfl⟩

end Stored

omit [LawfulEqOrd SourceId] in
lemma Holds.batchable (h : Holds v pending) {msgs : List (Message MessageId)}
    (hs : ∀ msg ∈ msgs, stored pending msg.msgId = some msg) : Batchable msgs := by
  refine ⟨fun msg hm => ?_, fun msg hm msg' hm' hi => ?_⟩
  · obtain ⟨p, hp, rfl⟩ := (stored_mem (hs msg hm)).2
    exact h.valid p hp
  · have := hs msg hm
    rw [hi, hs msg' hm'] at this
    exact (Option.some.inj this).symm

omit [LawfulEqOrd SourceId] [LawfulEqOrd MessageId] in
lemma Found.congr {found found' : List (SourceId × Message MessageId)}
    (h : Found verify v v' found) (hm : ∀ q, q ∈ found ↔ q ∈ found') : Found verify v v' found' :=
  ⟨h.frame, by simpa only [hm] using h.sources, by simpa only [hm] using h.messages⟩

omit [LawfulEqOrd SourceId] in
lemma Holds.mem_messages (h : Holds v pending) :
    msg ∈ v.messages.toList.map (·.2) ↔ stored pending msg.msgId = some msg := by
  simp only [mem_map, Prod.exists, mem_toList_iff_getElem?_eq_some, h.messages]
  constructor
  · rintro ⟨id, m, hm, rfl⟩
    rwa [(stored_mem hm).1]
  · exact fun hm => ⟨_, msg, hm, rfl⟩

variable (verify) in
lemma verify_spec (h : Holds v pending) :
    ∃ v', v.verifyAll verify = .ok v' ∧ Found verify v v' (recorded pending) := by
  have hg : ∀ p ∈ v.messagesBySource.toList, ∀ msg, msg ∈ p.2 ↔
      ∃ q ∈ pending, q.1 = p.1 ∧ stored pending q.2.msgId = some msg := fun p hp =>
    h.bySource p.1 p.2 (mem_toList_iff_getElem?_eq_some.1 hp)
  unfold verifyAll
  rw [verifyBatch_groupByHash verify v (h.batchable fun msg hm => h.mem_messages.1 hm), ok_bind]
  by_cases ha : (v.messages.toList.map (·.2)).all (verifies verify) = true
  · rw [if_pos ha]
    refine ⟨v, rfl, Found.refl fun q hq => ?_⟩
    obtain ⟨p, -, -, hm⟩ := mem_recorded.1 hq
    refine all_eq_true.1 ha q.2 (h.mem_messages.2 ?_)
    rwa [(stored_mem hm).1]
  · rw [if_neg ha]
    obtain ⟨v', hr, hf⟩ := foldlM_verifySource verify v.messagesBySource.size
      v.messagesBySource.toList v
      (fun p hp => h.batchable fun msg hm => by
        obtain ⟨q, -, -, hq⟩ := (hg p hp msg).1 hm
        rwa [(stored_mem hq).1])
      (fun ho p hp => by
        obtain ⟨bad, hb, hv⟩ := all_eq_false.1 (Bool.eq_false_iff.2 ha)
        have ht := h.mem_messages.1 hb
        obtain ⟨q, hq, rfl⟩ := (stored_mem ht).2
        -- the only source has pushed every message
        obtain ⟨p', hp'⟩ := length_eq_one_iff.1 ((length_toList (t := v.messagesBySource)).trans ho)
        obtain ⟨its, hi⟩ : ∃ its, v.messagesBySource[q.1]? = some its := by
          have := (h.sources q.1).2 ⟨q, hq, rfl⟩
          exact ⟨_, getElem?_eq_some_getElem this⟩
        have hmm := mem_toList_iff_getElem?_eq_some.2 hi
        rw [hp', mem_singleton] at hp hmm
        subst hp
        exact all_eq_false.2 ⟨q.2, (hg p (by simp [hp']) _).2
          ⟨q, hq, by rw [← hmm], ht⟩, hv⟩)
    refine ⟨v', hr, hf.congr fun q => ?_⟩
    rw [mem_recorded]
    constructor
    · intro hq
      obtain ⟨p, hp, hq⟩ := mem_flatMap.1 hq
      obtain ⟨msg, hm, rfl⟩ := mem_map.1 hq
      exact (hg p hp msg).1 hm
    · rintro ⟨p, hp, hs, hm⟩
      have := getElem?_eq_some_getElem ((h.sources q.1).2 ⟨p, hp, hs⟩)
      refine mem_flatMap.2 ⟨_, mem_toList_iff_getElem?_eq_some.2 this, ?_⟩
      exact mem_map.2 ⟨q.2, (h.bySource _ _ this _).2 ⟨p, hp, hs, hm⟩, rfl⟩

omit [LawfulEqOrd SourceId] [LawfulEqOrd MessageId] in
lemma holds_clearMessages (v : BatchVerifier SourceId MessageId) : Holds v.clearMessages [] := by
  constructor <;> simp [clearMessages, stored]

omit [LawfulEqOrd SourceId] [LawfulEqOrd MessageId] in
lemma Holds.of_frame (h : Holds v pending) (hm : v'.messages = v.messages)
    (hs : v'.messagesBySource = v.messagesBySource) :
    Holds v' pending :=
  ⟨h.valid, hm ▸ h.messages, hs ▸ h.sources, hs ▸ h.bySource⟩

omit [LawfulEqOrd SourceId] [LawfulEqOrd MessageId] in
lemma Holds.mem_bySource (h : Holds v pending) (s : SourceId) (msg : Message MessageId) :
    msg ∈ (v.messagesBySource[s]?).getD [] ↔
      ∃ p ∈ pending, p.1 = s ∧ stored pending p.2.msgId = some msg := by
  by_cases hs : s ∈ v.messagesBySource
  · have hg := getElem?_eq_some_getElem hs
    rw [hg]
    exact h.bySource s _ hg msg
  · rw [getElem?_eq_none hs]
    refine ⟨fun hm => by simp at hm, ?_⟩
    rintro ⟨p, hp, hps, -⟩
    exact absurd ((h.sources s).2 ⟨p, hp, hps⟩) hs

omit [LawfulEqOrd SourceId] in
lemma Holds.getElem?_record (h : Holds v pending) (s : SourceId) (msg : Message MessageId)
    (id : MessageId) : (v.record s msg).messages[id]? = stored (pending ++ [(s, msg)]) id := by
  have hg := h.messages id
  rw [stored_concat]
  simp only [BatchVerifier.record, getElem?_insertIfNew, hg]
  by_cases hi : compare msg.msgId id = .eq
  · have hi' := Std.LawfulEqCmp.compare_eq_iff_eq.1 hi
    subst hi'
    simp only [mem_iff_isSome_getElem?, hg]
    cases stored pending msg.msgId <;> simp
  · simp [hi]

omit [Ord SourceId] [TransOrd SourceId] [LawfulEqOrd SourceId] [TransOrd MessageId] in
lemma mem_pending_concat {s s' : SourceId} {msg' : Message MessageId} :
    (∃ p ∈ pending ++ [(s, msg)], p.1 = s' ∧ stored (pending ++ [(s, msg)]) p.2.msgId = some msg') ↔
      (∃ p ∈ pending, p.1 = s' ∧ stored pending p.2.msgId = some msg') ∨
        s = s' ∧ stored (pending ++ [(s, msg)]) msg.msgId = some msg' := by
  simp only [mem_append, mem_singleton, or_and_right, exists_or, exists_eq_left]
  refine or_congr_left (exists_congr fun p => and_congr_right fun hp => ?_)
  rw [stored_concat_of_mem hp]

lemma Holds.record (h : Holds v pending) (s : SourceId) (hv : msg.Valid) :
    Holds (v.record s msg) (pending ++ [(s, msg)]) := by
  have hm := h.getElem?_record s msg
  refine ⟨?_, hm, fun s' => ?_, fun s' its hi msg' => ?_⟩
  · intro p hp
    rcases mem_append.1 hp with hp | hp
    · exact h.valid p hp
    · rwa [mem_singleton.1 hp]
  · simp only [BatchVerifier.record, mem_alter, Std.LawfulEqCmp.compare_eq_iff_eq]
    by_cases hs : s = s'
    · simp [hs]
    · simp [hs, h.sources]
  · rw [mem_pending_concat]
    have hmm : (s, msg) ∈ pending ++ [(s, msg)] := by simp
    obtain ⟨it, ht⟩ := exists_stored hmm
    have hr : (v.record s msg).messagesBySource =
        v.messagesBySource.alter s fun l => some (l.getD [] ++ [it]) := by
      have := hm msg.msgId
      simp only [BatchVerifier.record] at this ⊢
      rw [this, ht]
      rfl
    rw [hr, getElem?_alter] at hi
    by_cases hs : s = s'
    · subst hs
      have hi' : its = (v.messagesBySource[s]?).getD [] ++ [it] := by simpa using hi.symm
      simp only [hi', mem_append, h.mem_bySource, mem_singleton, true_and, ht,
        Option.some.injEq, eq_comm]
    · have hc : compare s s' ≠ .eq := mt Std.LawfulEqCmp.compare_eq_iff_eq.1 hs
      rw [if_neg hc] at hi
      simp [h.bySource s' its hi, hs]

omit [LawfulEqOrd SourceId] [LawfulEqOrd MessageId] in
lemma pushMessage_eq (v : BatchVerifier SourceId MessageId) (s : SourceId) (hv : msg.Valid) :
    v.pushMessage verify s msg =
      if v.subBatchSize ≠ 0 ∧ v.subBatchSize ≤ (v.record s msg).messages.size then
        (v.record s msg).verifyAll verify >>= fun v => .ok v.clearMessages
      else .ok (v.record s msg) := by
  have he : Run.ensure (msg.sig.isSome ∧ msg.pubKey.isSome) = .ok () := ensure_pos hv
  simp only [pushMessage, he, ok_bind, pure_eq]
  rfl

/-- The messages `verified` were checked in complete sub-batches, `pending` are held, and the caller
has put the sources `marked` among the bad ones. -/
structure Progress (verify : PubKey → Uint256 → Sig → Bool) (v : BatchVerifier SourceId MessageId)
    (verified pending : List (SourceId × Message MessageId)) (marked : List SourceId) : Prop where
  holds : Holds v pending
  nodup : (pending.map fun p => p.2.msgId).Nodup
  size : v.messages.size = pending.length
  sources : ∀ s, s ∈ v.badSources ↔
    s ∈ marked ∨ ∃ p ∈ verified, p.1 = s ∧ p.2.verifies verify = false
  messages : ∀ id, id ∈ v.badMessages ↔
    v.perMessageFallback = true ∧ ∃ p ∈ verified, p.2.msgId = id ∧ p.2.verifies verify = false

def OnePerId (pushed : List (SourceId × Message MessageId)) : Prop :=
  ∀ p ∈ pushed, ∀ q ∈ pushed, p.2.msgId = q.2.msgId → p.2 = q.2

omit [Ord SourceId] [TransOrd SourceId] [LawfulEqOrd SourceId] [TransOrd MessageId] in
lemma stored_of_onePerId (h : OnePerId pending) (hp : p ∈ pending) :
    stored pending p.2.msgId = some p.2 := by
  obtain ⟨msg, hm⟩ := exists_stored hp
  obtain ⟨hi, q, hq, rfl⟩ := stored_mem hm
  rw [hm, h q hq p hp hi]

omit [Ord SourceId] [TransOrd SourceId] [LawfulEqOrd SourceId] [TransOrd MessageId] in
lemma mem_recorded_of_onePerId (h : OnePerId pending) (q : SourceId × Message MessageId) :
    q ∈ recorded pending ↔ q ∈ pending := by
  rw [mem_recorded]
  constructor
  · rintro ⟨p, hp, hs, hm⟩
    rw [stored_of_onePerId h hp, Option.some.injEq] at hm
    rwa [show q = p from Prod.ext hs.symm hm.symm]
  · exact fun hq => ⟨q, hq, rfl, stored_of_onePerId h hq⟩

omit [LawfulEqOrd SourceId] [LawfulEqOrd MessageId] in
lemma Progress.onePerId (h : Progress verify v verified pending marked) : OnePerId pending :=
  fun _ hp _ hq hi => congrArg Prod.snd (inj_on_of_nodup_map h.nodup hp hq hi)

omit [LawfulEqOrd SourceId] [LawfulEqOrd MessageId] in
lemma progress_init (secureVerification perMessageFallback : Bool) (subBatchSize : Nat) :
    Progress verify
      ({ secureVerification, perMessageFallback, subBatchSize } : BatchVerifier SourceId MessageId)
      [] [] [] := by
  refine ⟨?_, by simp, by simp, by simp, by simp⟩
  constructor <;> simp [stored]

section
variable (h : Progress verify v verified pending marked)
include h

omit [LawfulEqOrd MessageId] in
lemma Progress.mark (s : SourceId) :
    Progress verify { v with badSources := v.badSources.insert s } verified pending
      (s :: marked) := by
  refine ⟨h.holds.of_frame rfl rfl, h.nodup, h.size, fun s' => ?_, h.messages⟩
  rw [ExtTreeSet.mem_insert, Std.LawfulEqCmp.compare_eq_iff_eq, h.sources, mem_cons,
    eq_comm (a := s), or_assoc]

omit [LawfulEqOrd SourceId] in
lemma Progress.found (hf : Found verify v v' (recorded pending)) : (∀ s, s ∈ v'.badSources ↔
      s ∈ marked ∨ ∃ p ∈ verified ++ pending, p.1 = s ∧ p.2.verifies verify = false) ∧
    ∀ id, id ∈ v'.badMessages ↔ v.perMessageFallback = true ∧
      ∃ p ∈ verified ++ pending, p.2.msgId = id ∧ p.2.verifies verify = false := by
  have hf := hf.congr (mem_recorded_of_onePerId h.onePerId)
  refine ⟨fun s => ?_, fun id => ?_⟩
  · rw [hf.sources, h.sources]
    simp only [mem_append, or_and_right, exists_or, or_assoc]
  · rw [hf.messages, h.messages]
    simp only [mem_append, or_and_right, exists_or, and_or_left]

lemma Progress.record (s : SourceId) (hv : msg.Valid) (hn : ∀ p ∈ pending, p.2.msgId ≠ msg.msgId) :
    Progress verify (v.record s msg) verified (pending ++ [(s, msg)]) marked := by
  refine ⟨h.holds.record s hv, ?_, ?_, h.sources, h.messages⟩
  · rw [map_append, nodup_append]
    refine ⟨h.nodup, by simp, ?_⟩
    intro id hi id' hi'
    obtain ⟨p, hp, rfl⟩ := mem_map.1 hi
    rw [map_singleton, mem_singleton] at hi'
    exact hi' ▸ hn p hp
  · have ht : msg.msgId ∉ v.messages := by
      rw [mem_iff_isSome_getElem?, h.holds.messages]
      intro hs
      obtain ⟨m, hm⟩ := Option.isSome_iff_exists.1 hs
      obtain ⟨hi, p, hp, rfl⟩ := stored_mem hm
      exact hn p hp hi
    simp [BatchVerifier.record, size_insertIfNew, ht, h.size]

lemma Progress.push (s : SourceId) (hv : msg.Valid) (hn : ∀ p ∈ pending, p.2.msgId ≠ msg.msgId) :
    ∃ v', v.pushMessage verify s msg = .ok v' ∧
      v' = { v with badSources := v'.badSources, badMessages := v'.badMessages,
                    messages := v'.messages, messagesBySource := v'.messagesBySource } ∧
      if v.subBatchSize ≠ 0 ∧ v.subBatchSize ≤ pending.length + 1 then
        Progress verify v' (verified ++ (pending ++ [(s, msg)])) [] marked
      else Progress verify v' verified (pending ++ [(s, msg)]) marked := by
  have hr := h.record s hv hn
  have hs : (v.record s msg).messages.size = pending.length + 1 := by
    simpa using hr.size
  rw [pushMessage_eq v s hv, hs]
  by_cases hf : v.subBatchSize ≠ 0 ∧ v.subBatchSize ≤ pending.length + 1
  · obtain ⟨v', hrn, hfn⟩ := verify_spec verify hr.holds
    have hfr := hfn.frame
    rw [if_pos hf, hrn]
    refine ⟨v'.clearMessages, rfl, ?_, ?_⟩
    · rw [hfr]
      rfl
    rw [if_pos hf]
    refine ⟨holds_clearMessages v', by simp, rfl, ?_, ?_⟩
    · exact (hr.found hfn).1
    · have hb : v'.clearMessages.perMessageFallback = v.perMessageFallback := by
        rw [hfr]
        rfl
      rw [hb]
      exact (hr.found hfn).2
  · rw [if_neg hf]
    exact ⟨_, rfl, rfl, by rwa [if_neg hf]⟩

end

variable (verify) in
/-- `PushMessage` for each of the messages, and `Verify` at the end. -/
def verifyPushed (v : BatchVerifier SourceId MessageId)
    (pushed : List (SourceId × Message MessageId)) : Run (BatchVerifier SourceId MessageId) := do
  let v ← pushed.foldlM (fun v p => v.pushMessage verify p.1 p.2) v
  v.verifyAll verify

/-- The bad sources and messages are those of `verified`, and `pending` are held. -/
structure Checked (verify : PubKey → Uint256 → Sig → Bool) (v : BatchVerifier SourceId MessageId)
    (verified pending : List (SourceId × Message MessageId)) : Prop where
  fallback : v.perMessageFallback = true
  holds : Holds v pending
  sources : ∀ s, s ∈ v.badSources ↔ ∃ p ∈ verified, p.1 = s ∧ p.2.verifies verify = false
  messages : ∀ id, id ∈ v.badMessages ↔
    ∃ p ∈ verified, p.2.msgId = id ∧ p.2.verifies verify = false

section
variable (h : Checked verify v verified pending)
include h

lemma Checked.verifyAll (hi : OnePerId pending) :
    ∃ v', v.verifyAll verify = .ok v' ∧ v'.perMessageFallback = true ∧ (∀ s, s ∈ v'.badSources ↔
        ∃ p ∈ verified ++ pending, p.1 = s ∧ p.2.verifies verify = false) ∧
      ∀ id, id ∈ v'.badMessages ↔
        ∃ p ∈ verified ++ pending, p.2.msgId = id ∧ p.2.verifies verify = false := by
  obtain ⟨v', hr, hf⟩ := verify_spec verify h.holds
  have hf := hf.congr (mem_recorded_of_onePerId hi)
  refine ⟨v', hr, by rw [hf.frame]; exact h.fallback, fun s => ?_, fun id => ?_⟩
  · rw [hf.sources, h.sources]
    simp only [mem_append, or_and_right, exists_or]
  · rw [hf.messages, h.messages]
    simp only [h.fallback, true_and, mem_append, or_and_right, exists_or]

lemma Checked.push (hv : p.2.Valid) (hi : OnePerId (pending ++ [p])) :
    ∃ v' verified' pending', v.pushMessage verify p.1 p.2 = .ok v' ∧
      Checked verify v' verified' pending' ∧
      verified' ++ pending' = verified ++ (pending ++ [p]) ∧ pending' ⊆ pending ++ [p] := by
  have hr : Checked verify (v.record p.1 p.2) verified (pending ++ [p]) :=
    ⟨h.fallback, h.holds.record p.1 hv, h.sources, h.messages⟩
  rw [pushMessage_eq v p.1 hv]
  split_ifs
  · obtain ⟨v', hn, hf, hs, hm⟩ := hr.verifyAll hi
    exact ⟨v'.clearMessages, _, [], by rw [hn]; rfl,
      ⟨hf, holds_clearMessages v', hs, hm⟩, by simp, by simp⟩
  · exact ⟨_, verified, _, rfl, hr, rfl, List.Subset.refl _⟩

lemma Checked.foldlM_push {pushed : List (SourceId × Message MessageId)}
    (hv : ∀ p ∈ pushed, p.2.Valid) (hi : OnePerId (pending ++ pushed)) :
    ∃ v' verified' pending', pushed.foldlM (fun v p => v.pushMessage verify p.1 p.2) v = .ok v' ∧
      Checked verify v' verified' pending' ∧
      verified' ++ pending' = verified ++ (pending ++ pushed) ∧ OnePerId pending' := by
  induction pushed generalizing v verified pending with
  | nil => exact ⟨v, verified, pending, rfl, h, by simp, by simpa using hi⟩
  | cons p pushed ih =>
    have hs : pending ++ [p] ⊆ pending ++ p :: pushed := by simp
    obtain ⟨v1, verified1, pending1, hr1, h1, he1, hs1⟩ := h.push (hv p (by simp))
      fun a ha b hb => hi a (hs ha) b (hs hb)
    have hs' : pending1 ++ pushed ⊆ pending ++ p :: pushed := by
      rw [append_cons]
      exact append_subset.2 ⟨List.Subset.trans hs1 (by simp), by simp⟩
    obtain ⟨v2, verified2, pending2, hr2, h2, he2, hi2⟩ := ih h1
      (fun q hq => hv q (by simp [hq])) fun a ha b hb => hi a (hs' ha) b (hs' hb)
    refine ⟨v2, verified2, pending2, by simp [hr1, hr2], h2, ?_, hi2⟩
    rw [he2, ← append_assoc, he1]
    simp

end

variable (verify) in
/-- With fallback to single messages, the bad sources are those that pushed an invalid message, and
the bad messages the invalid ones, however they are distributed. -/
theorem verifyPushed_exact (secureVerification : Bool) (subBatchSize : Nat)
    {pushed : List (SourceId × Message MessageId)} (hv : ∀ p ∈ pushed, p.2.Valid)
    (hids : OnePerId pushed) :
    ∃ v, verifyPushed verify { secureVerification, perMessageFallback := true, subBatchSize }
        pushed = .ok v ∧
      (∀ s, s ∈ v.badSources ↔ ∃ p ∈ pushed, p.1 = s ∧ p.2.verifies verify = false) ∧
      ∀ id, id ∈ v.badMessages ↔ ∃ p ∈ pushed, p.2.msgId = id ∧ p.2.verifies verify = false := by
  have hi : Checked verify ({ secureVerification, perMessageFallback := true, subBatchSize } :
      BatchVerifier SourceId MessageId) [] [] :=
    ⟨rfl, (@progress_init SourceId MessageId _ _ _ _ verify secureVerification true
      subBatchSize).holds, by simp, by simp⟩
  obtain ⟨v1, verified, pending, hr1, h1, he, hi1⟩ := hi.foldlM_push hv (by simpa using hids)
  obtain ⟨v, hr, -, hs, hm⟩ := h1.verifyAll hi1
  rw [he] at hs hm
  exact ⟨v, by rw [verifyPushed, hr1]; exact hr, hs, hm⟩

theorem same_message_twice : ∃ v, verifyPushed (fun _ _ _ => false)
      ({ secureVerification := true, perMessageFallback := true, subBatchSize := 1 } :
        BatchVerifier Nat Nat) [(1, ⟨7, 0, some 0, some 0⟩), (2, ⟨7, 0, some 0, some 0⟩)] = .ok v ∧
    1 ∈ v.badSources ∧ 2 ∈ v.badSources ∧ 7 ∈ v.badMessages := by
  obtain ⟨v, hr, hs, hm⟩ := @verifyPushed_exact Nat Nat _ _ _ _ _ _
    (fun _ _ _ => false) true 1 [(1, ⟨7, 0, some 0, some 0⟩), (2, ⟨7, 0, some 0, some 0⟩)]
    (by simp [Message.Valid]) (by simp [OnePerId])
  exact ⟨v, hr, (hs 1).2 (by simp [verifies, verifyInsecure]),
    (hs 2).2 (by simp [verifies, verifyInsecure]),
    (hm 7).2 (by simp [verifies, verifyInsecure])⟩

end BatchVerifier
end Verify
end Trivechain.Bls
