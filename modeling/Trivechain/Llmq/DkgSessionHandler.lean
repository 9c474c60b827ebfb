import Trivechain.Llmq.DkgSession

/-!
# Batched verification of DKG messages

`BatchVerifyMessageSigs` verifies the signatures of pre-verified messages of one kind in one
aggregate, and returns the peers that sent invalid ones. If two messages have the same sign hash it
verifies one by one. If the aggregate fails, a loop is meant to find out whether all messages are
from one peer; if not, they are verified one by one.
-/

namespace Trivechain.Llmq
open Bls Run
open Std (ExtTreeSet)
open List DkgMessage Prod Agg Or

structure DkgContext (M : Type) where
  verify : PubKey → Uint256 → Sig → Bool
  hashWriter : List Nat → Uint256
  /-- `ReceiveMessage`, with its `retBan` -/
  receiveMessage : DkgSession → M → DkgSession × Bool

structure SigBatch where
  ret : ExtTreeSet NodeId := ∅
  first : Bool := true
  aggSig : Agg Sig := .empty
  pubKeys : List (Option PubKey) := []
  messageHashes : List Uint256 := []

/-- The calls of `ReceiveMessage` and of `Misbehaving`, and the session afterwards. -/
structure MessagesResult (M : Type) where
  session : DkgSession
  received : List (NodeId × M) := []
  misbehaving : List (NodeId × Nat) := []

section Definitions
variable {M : Type} [DkgMessage M] (ctx : DkgContext M) (session : DkgSession)

def getSignHash (m : M) : Uint256 := DkgMessage.getSignHash ctx.hashWriter m

def SigBatch.addSig (b : SigBatch) (sig : Option Sig) : Run (Agg Sig) :=
  if b.first then .ok (ofObject sig) else b.aggSig.aggregateInsecure sig

def SigBatch.push (b : SigBatch) (aggSig : Agg Sig) (pubKey : Option PubKey) (msgHash : Uint256) :
    SigBatch where
  ret := b.ret
  first := false
  aggSig := aggSig
  pubKeys := b.pubKeys ++ [pubKey]
  messageHashes := b.messageHashes ++ [msgHash]

/-- The first loop. The flag says that it was left because of a duplicate sign hash. -/
def gatherSigs (b : SigBatch) : List (NodeId × M) → Run (SigBatch × Bool)
  | [] => return (b, false)
  | p :: messages => do
    match session.getMember (proTxHash p.2) with
    | none => gatherSigs { b with ret := b.ret.insert p.1 } messages
    | some member =>
      let aggSig ← b.addSig (DkgMessage.sig p.2)
      let msgHash := getSignHash ctx p.2
      if msgHash ∈ b.messageHashes then
        return ({ b with first := false, aggSig }, true)
      gatherSigs (b.push aggSig member.pubKeyOperator msgHash) messages

/-- The loop that compares the senders: `firstNodeId` and `nodeIdsAllSame` at its end. -/
def compareNodeIds : Bool → NodeId → List (NodeId × M) → NodeId × Bool
  | _, firstNodeId, [] => (firstNodeId, true)
  | true, _, p :: messages => compareNodeIds true p.1 messages
  | false, firstNodeId, p :: messages =>
    if p.1 ≠ firstNodeId then (firstNodeId, false) else compareNodeIds false firstNodeId messages

def verifySingle (ret : ExtTreeSet NodeId) (p : NodeId × M) : Run (ExtTreeSet NodeId) := do
  if p.1 ∈ ret then
    return ret
  let member ← demand .undefined (session.getMember (DkgMessage.proTxHash p.2))
  if verifyInsecure ctx.verify (DkgMessage.sig p.2) member.pubKeyOperator (getSignHash ctx p.2) then
    return ret
  return ret.insert p.1

def batchVerifyMessageSigs (messages : List (NodeId × M)) : Run (ExtTreeSet NodeId) := do
  if messages.isEmpty then
    return ∅
  let (b, revertToSingleVerification) ← gatherSigs ctx session {} messages
  if revertToSingleVerification then
    return ← messages.foldlM (verifySingle ctx session) b.ret
  if ← verifyInsecureAggregated ctx.verify b.aggSig (b.pubKeys.map ofObject) b.messageHashes then
    return b.ret
  -- the value that `firstNodeId` starts with is not read
  let (firstNodeId, nodeIdsAllSame) := compareNodeIds true 0 messages
  if nodeIdsAllSame then
    return b.ret.insert firstNodeId
  messages.foldlM (verifySingle ctx session) b.ret

/-- The messages that can be deserialised and pass the first checks, and the penalties for the
others. -/
def preVerifyMessages : List (NodeId × Option M) → List (NodeId × M) × List (NodeId × Nat)
  | [] => ([], [])
  | (nodeId, none) :: msgs =>
    let r := preVerifyMessages msgs
    (r.1, (nodeId, 100) :: r.2)
  | (nodeId, some m) :: msgs =>
    let r := preVerifyMessages msgs
    match preVerifyMessage session m with
    | .accepted => ((nodeId, m) :: r.1, r.2)
    | .rejected ban => (r.1, if ban then (nodeId, 100) :: r.2 else r.2)

def receiveOne (acc : ExtTreeSet NodeId × MessagesResult M) (p : NodeId × M) :
    ExtTreeSet NodeId × MessagesResult M :=
  if p.1 ∈ acc.1 then acc
  else
    let (session, ban) := ctx.receiveMessage acc.2.session p.2
    let r := { acc.2 with session, received := acc.2.received ++ [p] }
    if ban then (acc.1.insert p.1, { r with misbehaving := r.misbehaving ++ [(p.1, 100)] })
    else (acc.1, r)

def processPendingMessageBatch (msgs : List (NodeId × Option M)) : Run (MessagesResult M) := do
  let (preverifiedMessages, misbehaving) := preVerifyMessages session msgs
  if preverifiedMessages.isEmpty then
    return { session, misbehaving }
  let badNodes ← batchVerifyMessageSigs ctx session preverifiedMessages
  let misbehaving := misbehaving ++ badNodes.toList.map fun nodeId => (nodeId, 100)
  return (preverifiedMessages.foldl (receiveOne ctx) (badNodes, { session, misbehaving })).2

def memberSigVerifies (m : M) : Bool :=
  match session.getMember (proTxHash m) with
  | none => false
  | some member =>
    verifyInsecure ctx.verify (DkgMessage.sig m) member.pubKeyOperator (getSignHash ctx m)

/-- Every message of a peer that is not returned has a valid signature. -/
def BatchSound (messages : List (NodeId × M)) : Prop :=
  ∀ ret, batchVerifyMessageSigs ctx session messages = .ok ret →
    ∀ p ∈ messages, p.1 ∉ ret → memberSigVerifies ctx session p.2

/-- No message with an invalid signature is passed to `ReceiveMessage`. -/
def OnlyVerifiedReceived (msgs : List (NodeId × Option M)) : Prop :=
  ∀ r, processPendingMessageBatch ctx session msgs = .ok r →
    ∀ p ∈ r.received, memberSigVerifies ctx session p.2

/-- The messages that get aggregated: up to the first whose sign hash has been seen. -/
def scanned (seen : List Uint256) : List M → List M
  | [] => []
  | m :: messages =>
    if getSignHash ctx m ∈ seen then [m]
    else m :: scanned (seen ++ [getSignHash ctx m]) messages

/-- Aggregating several signatures asserts that they are valid objects. -/
def AggregationAsserts (messages : List M) : Prop :=
  2 ≤ messages.length ∧ ∃ m ∈ messages, sig m = none

end Definitions

section Proofs
variable {M : Type} [DkgMessage M] {ctx : DkgContext M} {session : DkgSession}

def memberKey (session : DkgSession) (m : M) : Option PubKey :=
  (session.getMember (proTxHash m)).bind DkgMember.pubKeyOperator

lemma memberSigVerifies_eq (m : M) : memberSigVerifies ctx session m =
    verifyInsecure ctx.verify (DkgMessage.sig m) (memberKey session m) (getSignHash ctx m) := by
  unfold memberSigVerifies memberKey
  cases session.getMember (proTxHash m) with
  | some member => rfl
  | none => cases sig m <;> rfl

/-- The first loop has gathered the messages of `gathered`. -/
structure Gathers (ctx : DkgContext M) (session : DkgSession) (b : SigBatch) (gathered : List M) :
    Prop where
  ret : b.ret = ∅
  first : b.first = gathered.isEmpty
  sigs : b.aggSig.parts = gathered.filterMap sig
  valid : ¬ AggregationAsserts gathered
  keys : b.pubKeys = gathered.map (memberKey session)
  hashes : b.messageHashes = gathered.map (getSignHash ctx)

variable {b : SigBatch} {messages : List (NodeId × M)}

lemma addSig_cases {sigs : List M} (h : Gathers ctx session b sigs) (m : M) :
    (b.addSig (sig m) = .error (.fault .assertion) ∧ AggregationAsserts (sigs ++ [m])) ∨
    ∃ aggSig, b.addSig (sig m) = .ok aggSig ∧ aggSig.parts = (sigs ++ [m]).filterMap sig ∧
      ¬ AggregationAsserts (sigs ++ [m]) := by
  unfold SigBatch.addSig
  cases sigs with
  | nil =>
    refine inr ⟨ofObject (sig m), by simp [h.first], ?_, by
      simp [AggregationAsserts]⟩
    cases hs : sig m <;> simp [ofObject, hs]
  | cons g sigs =>
    have hl : 2 ≤ (g :: sigs ++ [m]).length := by simp
    rw [h.first, isEmpty_cons, if_neg (by decide)]
    cases hs : sig m with
    | none => exact inl ⟨rfl, hl, m, by simp, hs⟩
    | some x =>
      cases hg : sig g with
      | none =>
        cases sigs with
        | nil =>
          left
          have hp : b.aggSig.isValid = false := by simp [isValid, h.sigs, hg]
          exact ⟨by simp [Agg.aggregateInsecure, hp], hl, g, by simp, hg⟩
        | cons g' sigs => exact absurd ⟨by simp, g, by simp, hg⟩ h.valid
      | some y =>
        right
        have hp : b.aggSig.isValid = true := by simp [h.sigs, hg]
        refine ⟨⟨b.aggSig.parts ++ [x]⟩, by simp [Agg.aggregateInsecure, hp], ?_, ?_⟩
        · rw [filterMap_append, h.sigs, filterMap_cons_some hs, filterMap_nil]
        · rintro ⟨-, m', hm', hn⟩
          rcases mem_append.1 hm' with hm' | hm'
          · rcases mem_cons.1 hm' with rfl | hm'
            · simp [hg] at hn
            · refine h.valid ⟨?_, m', mem_cons_of_mem _ hm', hn⟩
              have := length_pos_of_mem hm'
              simp only [length_cons]
              omega
          · rw [mem_singleton.1 hm', hs] at hn
            cases hn

lemma asserts_append {l1 l2 : List M} (h : AggregationAsserts l1) :
    AggregationAsserts (l1 ++ l2) := by
  obtain ⟨hl, m, hm, hs⟩ := h
  exact ⟨by rw [length_append]; omega, m, mem_append_left _ hm, hs⟩

lemma gatherSigs_cons {p : NodeId × M} {member : DkgMember}
    (h : session.getMember (DkgMessage.proTxHash p.2) = some member) :
    gatherSigs ctx session b (p :: messages) = b.addSig (DkgMessage.sig p.2) >>= fun aggSig =>
      if getSignHash ctx p.2 ∈ b.messageHashes then .ok ({ b with first := false, aggSig }, true)
      else gatherSigs ctx session
        (b.push aggSig member.pubKeyOperator (getSignHash ctx p.2)) messages := by
  rw [gatherSigs, h]
  rfl

lemma gatherSigs_cases : ∀ (messages : List (NodeId × M)) (b : SigBatch) (sigs : List M),
    (∀ p ∈ messages, (session.getMember (DkgMessage.proTxHash p.2)).isSome) →
    Gathers ctx session b sigs → (sigs.map (getSignHash ctx)).Nodup →
    (gatherSigs ctx session b messages = .error (.fault .assertion) ∧ AggregationAsserts
      (sigs ++ scanned ctx (sigs.map (getSignHash ctx)) (messages.map snd))) ∨
    (∃ b' dup, gatherSigs ctx session b messages = .ok (b', dup) ∧ b'.ret = ∅ ∧ ¬ AggregationAsserts
        (sigs ++ scanned ctx (sigs.map (getSignHash ctx)) (messages.map snd)) ∧
      (dup = true → ¬ ((sigs ++ messages.map snd).map (getSignHash ctx)).Nodup) ∧
      (dup = false → Gathers ctx session b' (sigs ++ messages.map snd) ∧
        ((sigs ++ messages.map snd).map (getSignHash ctx)).Nodup)) := by
  intro messages
  induction messages with
  | nil =>
    intro b sigs _ h hn
    exact inr ⟨b, false, rfl, h.ret, by simpa [scanned] using h.valid, by simp,
      fun _ => ⟨by simpa using h, by simpa using hn⟩⟩
  | cons p messages ih =>
    intro b sigs hmm h hn
    obtain ⟨member, hm⟩ := Option.isSome_iff_exists.1 (hmm p (by simp))
    rw [gatherSigs_cons hm, map_cons, scanned]
    rcases addSig_cases h p.2 with ⟨had, ht⟩ | ⟨aggSig, had, hp, hv⟩
    · refine inl ⟨by simp [had], ?_⟩
      split
      · exact ht
      · rw [append_cons]
        exact asserts_append ht
    rw [had, ok_bind, h.hashes]
    by_cases hd : getSignHash ctx p.2 ∈ sigs.map (getSignHash ctx)
    · rw [if_pos hd, if_pos hd]
      refine inr ⟨{ b with first := false, aggSig }, true, by rw [← h.hashes],
        h.ret, hv, fun _ => ?_, by simp⟩
      rw [map_append, map_cons]
      intro hn'
      exact (nodup_append.1 hn').2.2 _ hd _ (by simp) rfl
    · have hg : Gathers ctx session
          (b.push aggSig member.pubKeyOperator (getSignHash ctx p.2)) (sigs ++ [p.2]) :=
        ⟨h.ret, by simp [SigBatch.push], hp, hv,
          by simp [SigBatch.push, h.keys, memberKey, hm], by simp [SigBatch.push, h.hashes]⟩
      have hn' : ((sigs ++ [p.2]).map (getSignHash ctx)).Nodup := by
        rw [map_append, nodup_append]
        refine ⟨hn, by simp, fun a ha b hb => ?_⟩
        rw [map_singleton, mem_singleton] at hb
        exact fun hab => hd (hb ▸ hab ▸ ha)
      have := ih _ (sigs ++ [p.2]) (fun q hq => hmm q (by simp [hq])) hg hn'
      rw [if_neg hd, if_neg hd]
      simpa using this

lemma filterMap_sig {messages : List M} (h : ∀ m ∈ messages, (sig m).isSome) :
    messages.filterMap sig = messages.map fun m => (sig m).getD 0 := by
  induction messages with
  | nil => rfl
  | cons m messages ih =>
    obtain ⟨s, hs⟩ := Option.isSome_iff_exists.1 (h m (by simp))
    rw [filterMap_cons_some hs, ih fun m' hm' => h m' (by simp [hm'])]
    simp [hs]

lemma flatMap_keys {messages : List M} (h : ∀ m ∈ messages, (memberKey session m).isSome) :
    ((((messages.map (memberKey session)).map ofObject).zip
        (messages.map (getSignHash ctx))).flatMap fun p => p.1.parts.map fun k => (p.2, k)) =
      messages.map fun m => (getSignHash ctx m, (memberKey session m).getD 0) := by
  induction messages with
  | nil => rfl
  | cons m messages ih =>
    obtain ⟨k, hk⟩ := Option.isSome_iff_exists.1 (h m (by simp))
    simp only [map_cons, zip_cons_cons, flatMap_cons, ih fun m' hm' => h m' (by simp [hm'])]
    simp [hk, ofObject]

lemma Gathers.verify_eq {messages : List M} (hne : messages ≠ [])
    (h : Gathers ctx session b messages) :
    verifyInsecureAggregated ctx.verify b.aggSig (b.pubKeys.map ofObject) b.messageHashes =
      .ok (messages.all (memberSigVerifies ctx session)) := by
  unfold verifyInsecureAggregated
  by_cases hg : ∀ m ∈ messages, (DkgMessage.sig m).isSome
  · have hv : b.aggSig.isValid = true := by simp [h.sigs, filterMap_sig hg, hne]
    have he : ensure (b.pubKeys.map ofObject ≠ [] ∧ b.messageHashes ≠ [] ∧
        (b.pubKeys.map ofObject).length = b.messageHashes.length) = .ok () :=
      ensure_pos (by simp [h.keys, h.hashes, hne])
    simp only [hv, Bool.not_true, Bool.false_eq_true, if_false, he, ok_bind, pure_eq]
    by_cases hy : ∀ m ∈ messages, (memberKey session m).isSome
    · have ha : (b.pubKeys.map ofObject).any (fun p => !p.isValid) = false := by
        rw [h.keys]
        simp only [any_map, any_eq_false]
        intro m hm
        obtain ⟨k, hk⟩ := Option.isSome_iff_exists.1 (hy m hm)
        simp [hk, ofObject, isValid]
      rw [ha, h.sigs, filterMap_sig hg, h.keys, h.hashes, flatMap_keys hy, verifyParts_map]
      simp only [Bool.false_eq_true, if_false]
      congr 1
      refine Bool.eq_iff_iff.2 ?_
      simp only [all_eq_true]
      refine forall₂_congr fun m hm => ?_
      obtain ⟨s, hs⟩ := Option.isSome_iff_exists.1 (hg m hm)
      obtain ⟨k, hk⟩ := Option.isSome_iff_exists.1 (hy m hm)
      simp [memberSigVerifies_eq, verifyInsecure, hs, hk]
    · obtain ⟨m, hm, hk⟩ : ∃ m ∈ messages, memberKey session m = none := by simpa using hy
      have ha : (b.pubKeys.map ofObject).any (fun p => !p.isValid) = true := by
        rw [h.keys]
        simp only [any_map, any_eq_true]
        exact ⟨m, hm, by simp [hk, ofObject, isValid]⟩
      have hal : messages.all (memberSigVerifies ctx session) = false := all_eq_false.2 ⟨m, hm, by
          rw [memberSigVerifies_eq, hk]
          cases DkgMessage.sig m <;> simp [verifyInsecure]⟩
      rw [ha, hal]
      rfl
  · obtain ⟨m, hm, hs⟩ : ∃ m ∈ messages, DkgMessage.sig m = none := by simpa using hg
    -- more than one signature would have been aggregated
    have ho : messages = [m] := by
      have hn : ¬ 2 ≤ messages.length := fun hn => h.valid ⟨hn, m, hm, hs⟩
      have hl : messages.length = 1 := by
        have := length_pos_of_mem hm
        omega
      obtain ⟨m', rfl⟩ := length_eq_one_iff.1 hl
      rw [mem_singleton.1 hm]
    have hv : b.aggSig.isValid = false := by simp [isValid, h.sigs, ho, hs]
    simp [hv, ho, memberSigVerifies_eq, verifyInsecure, hs]

omit [DkgMessage M] in
lemma compareNodeIds_true (firstNodeId : NodeId) (messages : List (NodeId × M)) :
    compareNodeIds true firstNodeId messages =
      ((messages.getLast?.map fst).getD firstNodeId, true) := by
  induction messages generalizing firstNodeId with
  | nil => rfl
  | cons p messages ih =>
    rw [compareNodeIds, ih]
    cases messages with
    | nil => rfl
    | cons q messages =>
      rw [getLast?_cons_cons, getLast?_eq_some_getLast (cons_ne_nil q messages)]
      rfl

lemma foldlM_verifySingle (messages : List (NodeId × M))
    (hmm : ∀ p ∈ messages, (session.getMember (proTxHash p.2)).isSome) :
    ∀ ret, ∃ ret', messages.foldlM (verifySingle ctx session) ret = .ok ret' ∧
      ∀ n, n ∈ ret' ↔ n ∈ ret ∨
        ∃ p ∈ messages, p.1 = n ∧ memberSigVerifies ctx session p.2 = false := by
  induction messages with
  | nil => exact fun ret => ⟨ret, rfl, by simp⟩
  | cons p messages ih =>
    intro ret
    have ih := ih fun q hq => hmm q (by simp [hq])
    obtain ⟨member, hm⟩ := Option.isSome_iff_exists.1 (hmm p (by simp))
    rw [foldlM_cons]
    by_cases hn : p.1 ∈ ret
    · obtain ⟨ret', hr, hi⟩ := ih ret
      refine ⟨ret', by simpa [verifySingle, hn] using hr, fun n => ?_⟩
      rw [hi]
      grind
    · have hv : verifyInsecure ctx.verify (DkgMessage.sig p.2) member.pubKeyOperator
          (getSignHash ctx p.2) = memberSigVerifies ctx session p.2 := by
        simp [memberSigVerifies, hm]
      by_cases hp : memberSigVerifies ctx session p.2 = true
      · obtain ⟨ret', hr, hi⟩ := ih ret
        refine ⟨ret', by simpa [verifySingle, hn, hm, hv, hp] using hr, fun n => ?_⟩
        rw [hi]
        grind
      · obtain ⟨ret', hr, hi⟩ := ih (ret.insert p.1)
        refine ⟨ret', by simpa [verifySingle, hn, hm, hv, hp] using hr, fun n => ?_⟩
        rw [hi, ExtTreeSet.mem_insert, Std.LawfulEqCmp.compare_eq_iff_eq]
        grind

lemma batchVerifyMessageSigs_cases (hn : messages ≠ [])
    (hm : ∀ p ∈ messages, (session.getMember (DkgMessage.proTxHash p.2)).isSome) :
    (batchVerifyMessageSigs ctx session messages = .error (.fault .assertion) ∧
      AggregationAsserts (scanned ctx [] (messages.map snd))) ∨
    ∃ ret, batchVerifyMessageSigs ctx session messages = .ok ret ∧
      ¬ AggregationAsserts (scanned ctx [] (messages.map snd)) ∧
      ((¬ ((messages.map snd).map (getSignHash ctx)).Nodup ∧
          ∀ n, n ∈ ret ↔ ∃ p ∈ messages, p.1 = n ∧ memberSigVerifies ctx session p.2 = false) ∨
        (((messages.map snd).map (getSignHash ctx)).Nodup ∧
          ∀ n, n ∈ ret ↔ some n = messages.getLast?.map fst ∧
            ∃ p ∈ messages, memberSigVerifies ctx session p.2 = false)) := by
  have hi : Gathers ctx session {} ([] : List M) :=
    ⟨rfl, rfl, rfl, by simp [AggregationAsserts], rfl, rfl⟩
  have he : messages.isEmpty = false := by simpa using hn
  have hc := gatherSigs_cases messages {} [] hm hi (by simp)
  simp only [nil_append, map_nil] at hc
  unfold batchVerifyMessageSigs
  simp only [he, Bool.false_eq_true, if_false]
  rcases hc with ⟨hr, ha⟩ | ⟨b, dup, hr, ht, ha, hd, hal⟩
  · exact inl ⟨by simp [hr], ha⟩
  right
  cases dup with
  | true =>
    obtain ⟨ret, hf, hif⟩ := @foldlM_verifySingle M _ ctx session messages hm b.ret
    refine ⟨ret, by simp [hr, hf], ha, inl ⟨hd rfl, fun n => ?_⟩⟩
    rw [hif, ht]
    simp
  | false =>
    obtain ⟨hg, hnd⟩ := hal rfl
    have hvr := hg.verify_eq (by simpa using hn)
    have hl := getLast?_eq_some_getLast hn
    simp only [hr, ok_bind, Bool.false_eq_true, if_false, hvr,
      compareNodeIds_true, pure_eq, ht, if_true, hl, Option.map_some, Option.getD_some]
    by_cases hv : (messages.map snd).all (memberSigVerifies ctx session) = true
    · refine ⟨∅, by rw [if_pos hv], ha, inr ⟨hnd, fun n => ?_⟩⟩
      simp only [all_map, all_eq_true, Function.comp_apply] at hv
      simp only [ExtTreeSet.not_mem_empty, false_iff]
      rintro ⟨-, p, hp, hb⟩
      simp [hv p hp] at hb
    · refine ⟨_, by rw [if_neg hv], ha, inr ⟨hnd, fun n => ?_⟩⟩
      have hb : ∃ p ∈ messages, memberSigVerifies ctx session p.2 = false := by
        simpa using hv
      rw [ExtTreeSet.mem_insert, Std.LawfulEqCmp.compare_eq_iff_eq]
      simp only [ExtTreeSet.not_mem_empty, or_false, Option.some.injEq]
      exact ⟨fun h => ⟨h.symm, hb⟩, fun h => h.1.symm⟩

lemma batchSound_iff (hm : ∀ p ∈ messages, (session.getMember (DkgMessage.proTxHash p.2)).isSome) :
    BatchSound ctx session messages ↔ AggregationAsserts (scanned ctx [] (messages.map snd)) ∨
      ¬ ((messages.map snd).map (getSignHash ctx)).Nodup ∨
      ∀ p ∈ messages, memberSigVerifies ctx session p.2 = false →
        some p.1 = messages.getLast?.map fst := by
  by_cases he : messages = []
  · subst he
    simp [BatchSound]
  rcases @batchVerifyMessageSigs_cases M _ ctx session messages he hm with
    ⟨hrn, ha⟩ | ⟨ret, hrn, ha, hr⟩
  · refine ⟨fun _ => inl ha, fun _ ret hr => ?_⟩
    rw [hrn] at hr
    cases hr
  have hs : BatchSound ctx session messages ↔
      ∀ p ∈ messages, p.1 ∉ ret → memberSigVerifies ctx session p.2 := by
    unfold BatchSound
    rw [hrn]
    exact ⟨fun h => h ret rfl, fun h ret' hr' => by cases hr'; exact h⟩
  rw [hs]
  rcases hr with ⟨hd, hr⟩ | ⟨hnd, hr⟩
  · refine ⟨fun _ => inr (inl hd), fun _ p hp hn => ?_⟩
    by_contra hv
    exact hn ((hr _).2 ⟨p, hp, rfl, by simpa using hv⟩)
  · constructor
    · refine fun h => inr (inr fun p hp hv => ?_)
      by_contra hl
      have := h p hp fun hi => hl ((hr _).1 hi).1
      simp [hv] at this
    · rintro (h | h | h) p hp hn
      · exact absurd h ha
      · exact absurd hnd h
      · by_contra hv
        have hv : memberSigVerifies ctx session p.2 = false := by simpa using hv
        exact hn ((hr _).2 ⟨h p hp hv, p, hp, hv⟩)

lemma member_of_preVerifyMessages (msgs : List (NodeId × Option M)) :
    ∀ p ∈ (preVerifyMessages session msgs).1, (session.getMember (proTxHash p.2)).isSome := by
  induction msgs with
  | nil => simp [preVerifyMessages]
  | cons p msgs ih =>
    obtain ⟨nodeId, _ | m⟩ := p
    · exact ih
    · intro q hq
      rw [preVerifyMessages] at hq
      cases hm : preVerifyMessage session m with
      | rejected ban =>
        rw [hm] at hq
        exact ih q hq
      | accepted =>
        rw [hm] at hq
        rcases mem_cons.1 hq with rfl | hq
        · exact member_of_accepted hm
        · exact ih q hq

omit [DkgMessage M] in
lemma foldl_receiveOne (badNodes : ExtTreeSet NodeId) (messages : List (NodeId × M)) :
    ∀ acc : ExtTreeSet NodeId × MessagesResult M, (∀ n ∈ badNodes, n ∈ acc.1) →
      ∀ p ∈ (messages.foldl (receiveOne ctx) acc).2.received,
        p ∈ acc.2.received ∨ p ∈ messages ∧ p.1 ∉ badNodes := by
  induction messages with
  | nil => exact fun acc _ p hp => inl hp
  | cons q messages ih =>
    intro acc hs p hp
    rw [foldl_cons] at hp
    have hst : (∀ n ∈ badNodes, n ∈ (receiveOne ctx acc q).1) ∧
        ∀ p ∈ (receiveOne ctx acc q).2.received, p ∈ acc.2.received ∨ p = q ∧ q.1 ∉ badNodes := by
      unfold receiveOne
      by_cases hq : q.1 ∈ acc.1
      · rw [if_pos hq]
        exact ⟨hs, fun p hp => inl hp⟩
      · rw [if_neg hq]
        have ht := mt (hs q.1) hq
        dsimp only
        split
        · refine ⟨fun n hn => ExtTreeSet.mem_insert.2 (inr (hs n hn)), fun p hp => ?_⟩
          simpa [ht] using hp
        · refine ⟨hs, fun p hp => ?_⟩
          simpa [ht] using hp
    rcases ih _ hst.1 p hp with hp | ⟨hp, hn⟩
    · rcases hst.2 p hp with hp | ⟨rfl, hn⟩
      · exact inl hp
      · exact inr ⟨by simp, hn⟩
    · exact inr ⟨mem_cons_of_mem _ hp, hn⟩

lemma onlyVerifiedReceived_of_batchSound {msgs : List (NodeId × Option M)}
    (h : BatchSound ctx session (preVerifyMessages session msgs).1) :
    OnlyVerifiedReceived ctx session msgs := by
  intro r hr p hp
  unfold processPendingMessageBatch at hr
  dsimp only at hr
  split at hr
  · cases hr
    simp at hp
  · obtain ⟨badNodes, hb, hr⟩ := bind_ok.1 hr
    cases hr
    rcases foldl_receiveOne badNodes _ _ (fun n hn => hn) p hp with hp | ⟨hp, hn⟩
    · simp at hp
    · exact h badNodes hb p hp hn

end Proofs

/-- The peers that are not returned have sent valid signatures only, and only such messages are
received, exactly when aggregation stops at an invalid object, two messages have the same sign hash,
or all invalid signatures are from the last sender. -/
theorem batchSound_and_onlyVerifiedReceived_iff {M : Type} [DkgMessage M] (ctx : DkgContext M)
    (session : DkgSession) (msgs : List (NodeId × Option M)) :
    let messages := (preVerifyMessages session msgs).1
    BatchSound ctx session messages ∧ OnlyVerifiedReceived ctx session msgs ↔
      AggregationAsserts (scanned ctx [] (messages.map snd)) ∨
      ¬ ((messages.map snd).map (getSignHash ctx)).Nodup ∨
      ∀ p ∈ messages, memberSigVerifies ctx session p.2 = false →
        some p.1 = messages.getLast?.map fst := by
  dsimp only
  rw [← batchSound_iff (member_of_preVerifyMessages msgs)]
  exact ⟨fun h => h.1, fun h => ⟨h, onlyVerifiedReceived_of_batchSound h⟩⟩

def complaintContext : DkgContext DkgComplaint where
  verify _ hash sig := hash == sig
  hashWriter := List.sum
  receiveMessage session _ := (session, false)

def twoMemberSession : DkgSession where
  params := llmq5_60
  quorumHash := 3
  members := [{ proTxHash := 10, pubKeyOperator := some 1 },
    { proTxHash := 20, pubKeyOperator := some 2 }]
  verifyVerificationVector _ := true

def complaintOf (proTxHash : Uint256) (sig : Sig) : DkgComplaint :=
  ⟨LLMQ_5_60, 3, proTxHash, List.replicate 5 false, List.replicate 5 false, some sig⟩

def twoComplaints : List (NodeId × Option DkgComplaint) :=
  [(7, some (complaintOf 10 0)), (8, some (complaintOf 20 24))]

theorem invalid_complaint_received :
    (∃ r, processPendingMessageBatch complaintContext twoMemberSession twoComplaints = .ok r ∧
      r.received = [(7, complaintOf 10 0)] ∧ r.misbehaving = [(8, 100)]) ∧
    memberSigVerifies complaintContext twoMemberSession (complaintOf 10 0) = false ∧
    ¬ BatchSound complaintContext twoMemberSession
      (preVerifyMessages twoMemberSession twoComplaints).1 ∧
    ¬ OnlyVerifiedReceived complaintContext twoMemberSession twoComplaints := by
  have hr : processPendingMessageBatch complaintContext twoMemberSession twoComplaints =
      .ok ⟨twoMemberSession, [(7, complaintOf 10 0)], [(8, 100)]⟩ := by rfl
  have ht : batchVerifyMessageSigs complaintContext twoMemberSession
      (preVerifyMessages twoMemberSession twoComplaints).1 = .ok (ExtTreeSet.empty.insert 8) := by
    rfl
  have hb : memberSigVerifies complaintContext twoMemberSession (complaintOf 10 0) = false := by
    decide
  refine ⟨⟨_, hr, rfl, rfl⟩, hb, fun h => ?_, fun h => ?_⟩
  · have := h _ ht (7, complaintOf 10 0) (by decide) (by decide)
    simp [hb] at this
  · have := h _ hr (7, complaintOf 10 0) (by simp)
    simp [hb] at this

end Trivechain.Llmq
