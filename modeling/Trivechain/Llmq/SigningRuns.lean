import Trivechain.Llmq.RecoveredSigsDb
import Trivechain.Llmq.SigShares

/-!
# Runs of the signing manager

`CSigningManager` signs a message hash for an id only if it has not voted on the id, and writes the
vote before it signs. It takes recovered signatures, one for each id, and forgets them when they are
removed or old. A run is any sequence of these calls, with reads and restarts on the same database
in between; its state also remembers the shares produced.
-/

namespace Trivechain.Llmq
open Bls Function Nat Except RecSigHash LruCache
open Std (ExtTreeMap ExtTreeSet)
open Option List

namespace MemberQuorum

def isValidMember (quorum : MemberQuorum) (proTxHash : Uint256) : Bool :=
  match quorum.members.idxOf? proTxHash with
  | some i => quorum.validMembers.getD i false
  | none => false

def getMemberIndex (quorum : MemberQuorum) (proTxHash : Uint256) : Option Nat :=
  quorum.members.idxOf? proTxHash

end MemberQuorum

structure SignContext where
  now : Int
  fMasternodeMode : Bool
  /-- `activeMasternodeInfo.proTxHash` -/
  proTxHash : Uint256
  tipHeight : Int
  signing : SigningManager
  members : Quorum → MemberQuorum
  /-- What our secret key share signs, if we have one. -/
  skShare : Quorum → Option (Uint256 → Option Sig)

structure PendingSign where
  llmqType : LLMQType
  quorum : Quorum
  id : Uint256
  msgHash : Uint256

/-- `CSigningManager`, and of the shares manager what it has to sign and what it has signed. -/
structure SigningNode where
  db : RecoveredSigsDb
  pendingSigns : List PendingSign := []
  signed : List SigShare := []

namespace RecoveredSigsDb
variable [RecSigHash] (d : RecoveredSigsDb)

/-- `CSigningManager::ProcessRecoveredSig`. For a known id it only writes to the log, whatever the
message hash. -/
def processRecoveredSig (now : Int) (recoveredSig : RecoveredSig) : RecoveredSigsDb :=
  match d.hasRecoveredSigForId recoveredSig.key with
  | (true, d) =>
    match d.getRecoveredSigById recoveredSig.key with
    | some _ => d
    | none => d.writeRecoveredSig now recoveredSig
  | (false, d) => d.writeRecoveredSig now recoveredSig

/-- `CSigningManager::IsConflicting` -/
def isConflicting (k : SigId) (msgHash : Uint256) : Bool × RecoveredSigsDb :=
  match d.hasRecoveredSigForId k with
  | (false, d) => (false, d)
  | (true, d) => (!d.hasRecoveredSig k msgHash, d)

end RecoveredSigsDb

open RecoveredSigsDb

namespace SigningNode
variable [RecSigHash]

def asyncSignIfMember (env : Env) (ctx : SignContext) (s : SigningNode) (llmqType : LLMQType)
    (id msgHash : Uint256) : Run (Bool × SigningNode) := do
  let _ ← env.consensus.getLLMQ llmqType
  if !ctx.fMasternodeMode ∨ ctx.proTxHash = 0 then return (false, s)
  -- the message hash of the vote matters to the log only
  if s.db.hasVotedOnId (llmqType, id) then return (false, s)
  let (hasSig, db) := s.db.hasRecoveredSigForId (llmqType, id)
  if hasSig then return (true, { s with db })
  let s := { s with db := db.writeVoteForId ctx.now (llmqType, id) msgHash }
  match ctx.signing.selectQuorumForSigning llmqType ctx.tipHeight id with
  | none => return (false, s)
  | some quorum =>
    if !(ctx.members quorum).isValidMember ctx.proTxHash then return (false, s)
    return (true, { s with pendingSigns := s.pendingSigns ++ [{ llmqType, quorum, id, msgHash }] })

/-- `CSigSharesManager::Sign` -/
def sign (ctx : SignContext) (signed : List SigShare) (p : PendingSign) : List SigShare :=
  let quorum := ctx.members p.quorum
  if !quorum.isValidMember ctx.proTxHash then signed
  else
    match ctx.skShare p.quorum, quorum.getMemberIndex ctx.proTxHash with
    | some sign, some memberIdx =>
      let signHash := buildSignHash p.llmqType p.quorum.quorumHash p.id p.msgHash
      match sign signHash with
      | none => signed
      | some sig =>
        signed ++ [{
          llmqType := p.llmqType
          quorumHash := p.quorum.quorumHash
          quorumMember := memberIdx % 2 ^ 16
          id := p.id
          msgHash := p.msgHash
          sigShare := some sig }]
    | _, _ => signed

def signPendingSigShares (ctx : SignContext) (s : SigningNode) : SigningNode :=
  { s with pendingSigns := [], signed := s.pendingSigns.foldl (sign ctx) s.signed }

end SigningNode

open SigningNode

inductive SigningEvent where
  | asyncSignIfMember (ctx : SignContext) (llmqType : LLMQType) (id msgHash : Uint256)
  | signPendingSigShares (ctx : SignContext)
  | writeVoteForId (now : Int) (k : SigId) (msgHash : Uint256)
  | processRecoveredSig (now : Int) (recoveredSig : RecoveredSig)
  | removeRecoveredSig (k : SigId)
  | cleanupOldRecoveredSigs (now maxAge : Int)
  | cleanupOldVotes (now maxAge : Int)
  | isConflicting (k : SigId) (msgHash : Uint256)
  | hasRecoveredSigForId (k : SigId)
  | hasRecoveredSigForSession (signHash : Uint256)
  | hasRecoveredSigForHash (hash : Uint256)
  | restart (now : Int)

namespace SigningNode
variable [RecSigHash] (env : Env)

def start (now : Int) (t : RecSigTables) : SigningNode := ⟨.openDb env now t, [], []⟩

def step (s : SigningNode) : SigningEvent → Run SigningNode
  | .asyncSignIfMember ctx llmqType id msgHash => do
    let (_, s) ← asyncSignIfMember env ctx s llmqType id msgHash
    return s
  | .signPendingSigShares ctx => .ok (signPendingSigShares ctx s)
  | .writeVoteForId now k msgHash => .ok { s with db := s.db.writeVoteForId now k msgHash }
  | .processRecoveredSig now recoveredSig =>
    .ok { s with db := s.db.processRecoveredSig now recoveredSig }
  | .removeRecoveredSig k => .ok { s with db := s.db.removeRecoveredSig k }
  | .cleanupOldRecoveredSigs now maxAge =>
    .ok { s with db := s.db.cleanupOldRecoveredSigs now maxAge }
  | .cleanupOldVotes now maxAge => .ok { s with db := s.db.cleanupOldVotes now maxAge }
  | .isConflicting k msgHash => .ok { s with db := (s.db.isConflicting k msgHash).2 }
  | .hasRecoveredSigForId k => .ok { s with db := (s.db.hasRecoveredSigForId k).2 }
  | .hasRecoveredSigForSession signHash =>
    .ok { s with db := (s.db.hasRecoveredSigForSession signHash).2 }
  | .hasRecoveredSigForHash hash => .ok { s with db := (s.db.hasRecoveredSigForHash hash).2 }
  | .restart now => .ok { s with db := .openDb env now s.db.db, pendingSigns := [] }

def run (s : SigningNode) (events : List SigningEvent) : Run SigningNode :=
  events.foldlM (step env) s

end SigningNode

namespace RecoveredSigsDb
variable [RecSigHash] {d : RecoveredSigsDb}

structure SameVotes (t t' : RecSigTables) : Prop where
  rs_v : t'.rs_v = t.rs_v
  rs_upgraded : t'.rs_upgraded = t.rs_upgraded

section

omit [RecSigHash]

lemma SameVotes.refl (t : RecSigTables) : SameVotes t t := ⟨rfl, rfl⟩

lemma SameVotes.trans {t1 t2 t3 : RecSigTables} (h : SameVotes t1 t2) (h' : SameVotes t2 t3) :
    SameVotes t1 t3 :=
  ⟨h'.rs_v.trans h.rs_v, h'.rs_upgraded.trans h.rs_upgraded⟩

lemma sameVotes_writeBatch (t : RecSigTables) (batch : List RecSigKey) :
    SameVotes t (t.writeBatch batch) := by
  induction batch generalizing t with
  | nil => exact .refl t
  | cons key batch ih =>
    have ho : SameVotes t (t.erase key) := by cases key <;> exact ⟨rfl, rfl⟩
    exact ho.trans (ih _)

end

lemma sameVotes_removeToBatch (batch : List RecSigKey) (k : SigId) (deleteTimeKey : Bool) :
    SameVotes d.db (d.removeToBatch batch k deleteTimeKey).1.db := by
  unfold removeToBatch
  cases d.readRecoveredSig k <;> exact .refl _

lemma sameVotes_removeRecoveredSig (k : SigId) : SameVotes d.db (d.removeRecoveredSig k).db :=
  (sameVotes_removeToBatch [] k true).trans (sameVotes_writeBatch ..)

lemma sameVotes_cleanupOne (s : RecoveredSigsDb × List RecSigKey) (k : SigId) :
    SameVotes s.1.db (cleanupOne s k).1.db := by
  have hr := sameVotes_removeToBatch (d := s.1) s.2 k false
  unfold cleanupOne
  dsimp only
  split_ifs
  · exact hr.trans (sameVotes_writeBatch ..)
  · exact hr

lemma sameVotes_cleanupOldRecoveredSigs (now maxAge : Int) :
    SameVotes d.db (d.cleanupOldRecoveredSigs now maxAge).db := by
  have hl : ∀ (ks : List SigId) (s : RecoveredSigsDb × List RecSigKey),
      SameVotes s.1.db (ks.foldl cleanupOne s).1.db := by
    intro ks
    induction ks with
    | nil => exact fun s => .refl _
    | cons k ks ih => exact fun s => (sameVotes_cleanupOne s k).trans (ih _)
  unfold cleanupOldRecoveredSigs
  dsimp only
  split_ifs
  · exact .refl _
  · exact (hl _ (d, [])).trans (sameVotes_writeBatch ..)

lemma sameVotes_processRecoveredSig (now : Int) (recoveredSig : RecoveredSig) :
    SameVotes d.db (d.processRecoveredSig now recoveredSig).db := by
  unfold processRecoveredSig
  rcases hh : d.hasRecoveredSigForId recoveredSig.key with ⟨has, d'⟩
  obtain rfl : d' = (d.hasRecoveredSigForId recoveredSig.key).2 := by rw [hh]
  cases has with
  | false => exact ⟨rfl, rfl⟩
  | true => dsimp only; split <;> exact ⟨rfl, rfl⟩

omit [RecSigHash]

lemma isConflicting_snd (k : SigId) (msgHash : Uint256) :
    (d.isConflicting k msgHash).2 = (d.hasRecoveredSigForId k).2 := by
  unfold isConflicting
  rcases d.hasRecoveredSigForId k with ⟨_ | _, d'⟩ <;> rfl

lemma rs_v_openDb (env : Env) (now : Int) (t : RecSigTables) :
    (openDb env now t).db.rs_v = t.rs_v := by
  unfold openDb
  dsimp only
  split_ifs <;> rfl

end RecoveredSigsDb

namespace SigningNode
variable [RecSigHash] {env : Env} {s s' : SigningNode}

omit [RecSigHash] in
/-- A call changes nothing, or only a cache, or it votes on a new id and maybe asks for a share. -/
lemma asyncSignIfMember_cases {ctx : SignContext} {type : LLMQType} {id msgHash : Uint256}
    {b : Bool} (h : asyncSignIfMember env ctx s type id msgHash = .ok (b, s')) :
    s' = s ∨ s' = { s with db := (s.db.hasRecoveredSigForId (type, id)).2 } ∨
    (s.db.db.rs_v[(type, id)]? = none ∧ ∃ asked : List PendingSign,
      (∀ p ∈ asked, p.llmqType = type ∧ p.id = id ∧ p.msgHash = msgHash) ∧
      s' = ⟨(s.db.hasRecoveredSigForId (type, id)).2.writeVoteForId ctx.now (type, id) msgHash,
        s.pendingSigns ++ asked, s.signed⟩) := by
  obtain ⟨params, -, h⟩ := Run.bind_ok.1 h
  rcases hh : s.db.hasRecoveredSigForId (type, id) with ⟨ha, db⟩
  rw [hh] at h
  dsimp only at h
  split_ifs at h with hi hv hsig
  · exact .inl (Prod.mk.inj (ok.inj h)).2.symm
  · exact .inl (Prod.mk.inj (ok.inj h)).2.symm
  · exact .inr (.inl (Prod.mk.inj (ok.inj h)).2.symm)
  · have hf : s.db.db.rs_v[(type, id)]? = none := by
      rw [hasVotedOnId, ExtTreeMap.contains_eq_isSome_getElem?] at hv
      simpa using hv
    refine .inr (.inr ⟨hf, ?_⟩)
    cases hs : ctx.signing.selectQuorumForSigning type ctx.tipHeight id with
    | none =>
      rw [hs] at h
      exact ⟨[], by simp, by simp [← (Prod.mk.inj (ok.inj h)).2]⟩
    | some quorum =>
      rw [hs] at h
      dsimp only at h
      split_ifs at h
      · exact ⟨[], by simp, by simp [← (Prod.mk.inj (ok.inj h)).2]⟩
      · exact ⟨[⟨type, quorum, id, msgHash⟩], by simp, (Prod.mk.inj (ok.inj h)).2.symm⟩

def requests (s : SigningNode) : List (SigId × Uint256) :=
  s.pendingSigns.map (fun p => ((p.llmqType, p.id), p.msgHash)) ++
    s.signed.map fun share => ((share.llmqType, share.id), share.msgHash)

/-- There is one message hash for an id, and the id has a vote. -/
structure VotedOnce (s : SigningNode) : Prop where
  voted : ∀ r ∈ s.requests, (s.db.db.rs_v[r.1]?).isSome
  functional : ∀ r ∈ s.requests, ∀ r' ∈ s.requests, r.1 = r'.1 → r.2 = r'.2

section

omit [RecSigHash]

lemma VotedOnce.mono (h : s.VotedOnce)
    (hv : ∀ k : SigId, (s.db.db.rs_v[k]?).isSome → (s'.db.db.rs_v[k]?).isSome)
    (hq : s'.requests ⊆ s.requests) : s'.VotedOnce :=
  ⟨fun r hr => hv _ (h.voted r (hq hr)), fun r hr r' hr' => h.functional r (hq hr) r' (hq hr')⟩

lemma VotedOnce.of_sameVotes (h : s.VotedOnce) {db : RecoveredSigsDb}
    (hs : RecoveredSigsDb.SameVotes s.db.db db.db) : VotedOnce { s with db } :=
  h.mono (fun _ hk => hs.rs_v ▸ hk) (List.Subset.refl _)

lemma isSome_writeVoteForId {d : RecoveredSigsDb} (now : Int) (k k' : SigId) (msgHash : Uint256)
    (h : (d.db.rs_v[k']?).isSome) : ((d.writeVoteForId now k msgHash).db.rs_v[k']?).isSome := by
  rw [writeVoteForId, Maps.getElem?_insert]
  split_ifs
  · rfl
  · exact h

/-- The heart of the matter: what is asked for now was not asked for before, since it has no vote. -/
lemma VotedOnce.asyncSignIfMember (h : s.VotedOnce) {ctx : SignContext} {type : LLMQType}
    {id msgHash : Uint256} {b : Bool}
    (hs' : asyncSignIfMember env ctx s type id msgHash = .ok (b, s')) :
    s'.VotedOnce := by
  rcases asyncSignIfMember_cases hs' with rfl | rfl | ⟨hf, asked, ha, rfl⟩
  · exact h
  · exact h.of_sameVotes ⟨rfl, rfl⟩
  · have hn : ∀ r ∈ s.requests, r.1 ≠ (type, id) := by
      intro r hr he
      have hv := h.voted r hr
      rw [he, hf] at hv
      cases hv
    have hq : ∀ r, r ∈ requests ⟨(s.db.hasRecoveredSigForId (type, id)).2.writeVoteForId
        ctx.now (type, id) msgHash, s.pendingSigns ++ asked, s.signed⟩ →
        r ∈ s.requests ∨ r = ((type, id), msgHash) := by
      intro r hr
      simp only [requests, List.map_append, List.mem_append, List.mem_map] at hr ⊢
      rcases hr with (hr | ⟨p, hp, rfl⟩) | hr
      · exact .inl (.inl hr)
      · obtain ⟨rfl, rfl, rfl⟩ := ha p hp
        exact .inr rfl
      · exact .inl (.inr hr)
    refine ⟨fun r hr => ?_, fun r hr r' hr' he => ?_⟩
    · rcases hq r hr with hr | rfl
      · exact isSome_writeVoteForId _ _ _ _ (h.voted r hr)
      · simp [writeVoteForId]
    · rcases hq r hr with hr | rfl <;> rcases hq r' hr' with hr' | rfl
      · exact h.functional r hr r' hr' he
      · exact absurd he (hn r hr)
      · exact absurd he.symm (hn r' hr')
      · rfl

end

lemma foldl_sign_subset (ctx : SignContext) (ps : List PendingSign) (signed : List SigShare) :
    (ps.foldl (sign ctx) signed).map (fun share => ((share.llmqType, share.id), share.msgHash)) ⊆
      ps.map (fun p => ((p.llmqType, p.id), p.msgHash)) ++
        signed.map fun share => ((share.llmqType, share.id), share.msgHash) := by
  induction ps generalizing signed with
  | nil => simp
  | cons p ps ih =>
    have ho : (sign ctx signed p).map (fun share => ((share.llmqType, share.id), share.msgHash)) ⊆
        ((p.llmqType, p.id), p.msgHash) ::
          signed.map fun share => ((share.llmqType, share.id), share.msgHash) := by
      unfold sign
      dsimp only
      split_ifs
      · exact subset_cons_self ..
      · split
        · split
          · exact subset_cons_self ..
          · simp
        · exact subset_cons_self ..
    rw [foldl_cons]
    intro r hr
    rcases mem_append.1 (ih _ hr) with hr | hr
    · exact mem_append_left _ (mem_cons_of_mem _ hr)
    · rcases mem_cons.1 (ho hr) with rfl | hr
      · exact mem_append_left _ (mem_cons_self ..)
      · exact mem_append_right _ hr

lemma VotedOnce.step (h : s.VotedOnce) {e : SigningEvent}
    (hp : ∀ now maxAge, e ≠ .cleanupOldVotes now maxAge) (hs' : s.step env e = .ok s') :
    s'.VotedOnce := by
  cases e with
  | asyncSignIfMember ctx type id msgHash =>
    obtain ⟨⟨b, s1⟩, hs, hs'⟩ := Run.bind_ok.1 hs'
    cases hs'
    exact h.asyncSignIfMember hs
  | signPendingSigShares ctx =>
    cases hs'
    exact h.mono (fun k hk => hk) (foldl_sign_subset ctx s.pendingSigns s.signed)
  | writeVoteForId now k msgHash =>
    cases hs'
    exact h.mono (fun k' hk' => isSome_writeVoteForId now k k' msgHash hk') (List.Subset.refl _)
  | processRecoveredSig now recoveredSig =>
    cases hs'
    exact h.of_sameVotes (sameVotes_processRecoveredSig now recoveredSig)
  | removeRecoveredSig k =>
    cases hs'
    exact h.of_sameVotes (sameVotes_removeRecoveredSig k)
  | cleanupOldRecoveredSigs now maxAge =>
    cases hs'
    exact h.of_sameVotes (sameVotes_cleanupOldRecoveredSigs now maxAge)
  | cleanupOldVotes now maxAge => exact absurd rfl (hp now maxAge)
  | isConflicting k msgHash =>
    cases hs'
    rw [isConflicting_snd]
    exact h.of_sameVotes ⟨rfl, rfl⟩
  | hasRecoveredSigForId k =>
    cases hs'
    exact h.of_sameVotes ⟨rfl, rfl⟩
  | hasRecoveredSigForSession signHash =>
    cases hs'
    exact h.of_sameVotes ⟨rfl, rfl⟩
  | hasRecoveredSigForHash hash =>
    cases hs'
    exact h.of_sameVotes ⟨rfl, rfl⟩
  | restart now =>
    cases hs'
    refine h.mono (fun k hk => ?_) (subset_append_right ..)
    rw [rs_v_openDb]
    exact hk

end SigningNode

/-- On any database: as long as no votes are cleaned up, the message hash of the shares is
determined by their type and id. -/
theorem signed_functional [RecSigHash] (env : Env) (now : Int) (t : RecSigTables)
    (events : List SigningEvent) (hkeep : ∀ now maxAge, .cleanupOldVotes now maxAge ∉ events)
    (s : SigningNode) (hs : (start env now t).run env events = .ok s) :
    ∀ share ∈ s.signed, ∀ share' ∈ s.signed, share.llmqType = share'.llmqType →
      share.id = share'.id → share.msgHash = share'.msgHash := by
  have hst : (start env now t).VotedOnce := ⟨by simp [start, requests],
      by simp [start, requests]⟩
  have hg : Run.Guarded (step env)
      (fun _ e => ∀ now maxAge, e ≠ .cleanupOldVotes now maxAge) (start env now t) events :=
    .of_forall fun e he _ now maxAge hq => hkeep now maxAge (hq ▸ he)
  have hv : s.VotedOnce := hg.invariant SigningNode.VotedOnce
    (fun _ _ _ h hkeep hp => h.step hkeep hp) hst hs
  intro share hh share' hs' ht hi
  refine hv.functional ((share.llmqType, share.id), share.msgHash) ?_
    ((share'.llmqType, share'.id), share'.msgHash) ?_ (Prod.ext ht hi)
  · exact mem_append_right _ (mem_map_of_mem hh)
  · exact mem_append_right _ (mem_map_of_mem hs')

namespace RecSigTables
variable [RecSigHash]

structure AllRecords (t : RecSigTables) (k : SigId) (recSig : RecoveredSig) (time : Nat) :
    Prop where
  key : recSig.key = k
  byId : t.rs_r[k]? = some recSig
  byMsgHash : ∀ msgHash : Uint256, t.rs_rm[(k, msgHash)]? =
    if msgHash = recSig.msgHash then some time else none
  byHash : ∀ hash : Uint256, t.rs_h[hash]? = some k ↔ hash = recSig.hash
  bySignHash : ∀ quorumHash msgHash : Uint256,
    buildSignHash k.1 quorumHash k.2 msgHash ∈ t.rs_s ↔
      quorumHash = recSig.quorumHash ∧ msgHash = recSig.msgHash
  byTime : ∀ time' : Nat, (time', k) ∈ t.rs_t ↔ time' = time

structure NoRecords (t : RecSigTables) (k : SigId) : Prop where
  byId : t.rs_r[k]? = none
  byMsgHash : ∀ msgHash : Uint256, t.rs_rm[(k, msgHash)]? = none
  byHash : ∀ hash : Uint256, t.rs_h[hash]? ≠ some k
  bySignHash : ∀ quorumHash msgHash : Uint256,
    buildSignHash k.1 quorumHash k.2 msgHash ∉ t.rs_s
  byTime : ∀ time : Nat, (time, k) ∉ t.rs_t

variable {t : RecSigTables} {f : SigStore} {k : SigId} {recSig : RecoveredSig} {time : Nat}
variable (hinj : RecSigHash.Injective)
include hinj

lemma Represents.allRecords (h : t.Represents f)
    (hk : f k = some (recSig, time)) : t.AllRecords k recSig time where
  key := h.key hk
  byId := by rw [h.rs_r, hk, map_some]
  byMsgHash msgHash := by
    have hm := h.rs_rm k msgHash
    grind
  byHash hash := by
    have hh : t.rs_h[hash]? = some k ↔ ∃ e, f k = some e ∧ e.1.hash = hash := h.rs_h hash k
    rw [hh, hk]
    simp [eq_comm]
  bySignHash quorumHash msgHash := by
    rw [h.rs_s]
    constructor
    · rintro ⟨k', r, τ, hr, hs⟩
      obtain ⟨ht, hq, hi, hm⟩ := hinj.buildSignHash hs
      obtain rfl : k' = k := (h.key hr).symm.trans (Prod.ext ht hi)
      obtain ⟨rfl, -⟩ := Prod.mk.inj (Option.some.inj (hr.symm.trans hk))
      exact ⟨hq.symm, hm.symm⟩
    · rintro ⟨rfl, rfl⟩
      exact ⟨k, recSig, time, hk, by rw [← h.key hk]; rfl⟩
  byTime time' := by
    rw [h.rs_t, hk]
    simp [eq_comm]

lemma Represents.noRecords (h : t.Represents f) (hk : f k = none) : t.NoRecords k where
  byId := by rw [h.rs_r, hk, map_none]
  byMsgHash msgHash := by
    rw [eq_none_iff_forall_ne_some]
    intro time ht
    obtain ⟨recSig, hs, -⟩ := (h.rs_rm k msgHash time).1 ht
    rw [hk] at hs
    cases hs
  byHash hash hh := by
    obtain ⟨e, hs, -⟩ := (h.rs_h hash k).1 hh
    rw [hk] at hs
    cases hs
  bySignHash quorumHash msgHash hm := by
    obtain ⟨k', r, τ, hr, hg⟩ := (h.rs_s _).1 hm
    obtain ⟨hy, -, hi, -⟩ := hinj.buildSignHash hg
    obtain rfl : k' = k := (h.key hr).symm.trans (Prod.ext hy hi)
    rw [hk] at hr
    cases hr
  byTime time hm := by
    obtain ⟨recSig, hs⟩ := (h.rs_t time k).1 hm
    rw [hk] at hs
    cases hs

lemma Represents.allRecords_iff (h : t.Represents f) :
    t.AllRecords k recSig time ↔ f k = some (recSig, time) := by
  refine ⟨fun ha => ?_, h.allRecords hinj⟩
  obtain ⟨recSig', hk⟩ := (h.rs_t time k).1 ((ha.byTime time).2 rfl)
  have hr := h.rs_r k
  rw [ha.byId, hk] at hr
  rw [hk, Option.some.inj hr]

end RecSigTables

namespace RecoveredSigsDb
variable [RecSigHash]

structure Answers (d : RecoveredSigsDb) : Prop where
  forId : ∀ k, (d.hasRecoveredSigForId k).1 = true ↔ ∃ recSig time, d.db.AllRecords k recSig time
  forSession : ∀ signHash, (d.hasRecoveredSigForSession signHash).1 = true ↔
    ∃ k recSig time, d.db.AllRecords k recSig time ∧ recSig.signHash = signHash
  forHash : ∀ hash, (d.hasRecoveredSigForHash hash).1 = true ↔
    ∃ k recSig time, d.db.AllRecords k recSig time ∧ recSig.hash = hash
  byId : ∀ k recSig, d.getRecoveredSigById k = some recSig ↔
    ∃ time, d.db.AllRecords k recSig time
  conflicting : ∀ k msgHash, (d.isConflicting k msgHash).1 = true ↔
    ∃ recSig time, d.db.AllRecords k recSig time ∧ recSig.msgHash ≠ msgHash

variable {d : RecoveredSigsDb} {f : SigStore}

lemma Holds.hasRecoveredSig (h : d.Holds f) (k : SigId) (msgHash : Uint256) :
    d.hasRecoveredSig k msgHash = true ↔
      ∃ recSig time, f k = some (recSig, time) ∧ recSig.msgHash = msgHash := by
  rw [RecoveredSigsDb.hasRecoveredSig, ExtTreeMap.contains_eq_isSome_getElem?, isSome_iff_exists]
  simp only [h.represents.rs_rm]
  exact exists_comm

lemma Holds.isConflicting (h : d.Holds f) (k : SigId) (msgHash : Uint256) :
    (d.isConflicting k msgHash).1 = true ↔
      ∃ recSig time, f k = some (recSig, time) ∧ recSig.msgHash ≠ msgHash := by
  obtain ⟨hr, -, hh⟩ := h.hasRecoveredSigForId k
  unfold RecoveredSigsDb.isConflicting
  rcases hs : d.hasRecoveredSigForId k with ⟨has, d'⟩
  rw [hs] at hr hh
  dsimp only at hr hh
  have hm := hh.hasRecoveredSig k msgHash
  cases has with
  | false =>
    have hk : f k = none := by simpa using hr.symm
    simp [hk]
  | true =>
    obtain ⟨⟨recSig, time⟩, hk⟩ := isSome_iff_exists.1 hr.symm
    rw [hk] at hm ⊢
    grind

lemma Holds.answers (hinj : RecSigHash.Injective) (h : d.Holds f) : d.Answers := by
  have ha : ∀ {k : SigId} {recSig : RecoveredSig} {time : Nat},
      d.db.AllRecords k recSig time ↔ f k = some (recSig, time) :=
    h.represents.allRecords_iff hinj
  refine ⟨fun k => ?_, fun signHash => ?_, fun hash => ?_, fun k recSig => ?_, fun k msgHash => ?_⟩
  · simp only [ha, (h.hasRecoveredSigForId k).1, isSome_iff_exists, Prod.exists]
  · simp only [ha, (h.hasRecoveredSigForSession signHash).1]
    rw [ExtTreeSet.contains_iff_mem, h.represents.rs_s]
  · simp only [ha, (h.hasRecoveredSigForHash hash).1]
    rw [ExtTreeMap.contains_eq_isSome_getElem?, isSome_iff_exists]
    refine exists_congr fun k => (h.represents.rs_h hash k).trans ?_
    simp only [Prod.exists, exists_and_right]
  · simp only [ha, getRecoveredSigById, readRecoveredSig, h.represents.rs_r,
      map_eq_some_iff, Prod.exists, exists_and_right, exists_eq_right]
  · simp only [ha, h.isConflicting]

lemma Holds.of_votes (h : d.Holds f) (rs_v : ExtTreeMap SigId Uint256)
    (rs_vt : ExtTreeSet (Nat × SigId)) :
    Holds { d with db := { d.db with rs_v := rs_v, rs_vt := rs_vt } } f :=
  ⟨⟨⟨h.represents.key, h.represents.rs_r, h.represents.rs_rm, h.represents.rs_h,
    h.represents.rs_s⟩, h.represents.rs_t⟩, h.caches.forId, h.caches.forSession, h.caches.forHash⟩

lemma Holds.processRecoveredSig (hinj : RecSigHash.Injective) (h : d.Holds f) (now : Int)
    (recSig : RecoveredSig) : (d.processRecoveredSig now recSig).Holds
      (update f recSig.key ((f recSig.key).or (some (recSig, uint32 now)))) := by
  obtain ⟨hr, -, hh⟩ := h.hasRecoveredSigForId recSig.key
  unfold RecoveredSigsDb.processRecoveredSig
  rcases hhs : d.hasRecoveredSigForId recSig.key with ⟨has, d'⟩
  rw [hhs] at hr hh
  dsimp only at hr hh
  cases has with
  | false =>
    have hk : f recSig.key = none := by simpa using hr.symm
    rw [hk, none_or]
    exact hh.writeRecoveredSig hinj hk now
  | true =>
    obtain ⟨⟨recSig', time⟩, hk⟩ := isSome_iff_exists.1 hr.symm
    have hd : d'.getRecoveredSigById recSig.key = some recSig' := by
      rw [getRecoveredSigById, readRecoveredSig, hh.represents.rs_r, hk, map_some]
    have hs : update f recSig.key ((f recSig.key).or (some (recSig, uint32 now))) = f := by
      rw [hk, some_or, ← hk, update_eq_self]
    rw [hs]
    simp only [hd]
    exact hh

lemma Holds.openDb {t : RecSigTables} (h : t.Represents f) {env : Env}
    (hu : env.networkID = .test → t.rs_upgraded = true) (now : Int) :
    (openDb env now t).Holds f := by
  have hs : ¬ (env.networkID = .test ∧ t.rs_upgraded = false) := by grind
  rw [RecoveredSigsDb.openDb, if_neg hs]
  exact ⟨h, agrees_nil rfl, agrees_nil rfl, agrees_nil rfl⟩

end RecoveredSigsDb

namespace SigningNode
variable [RecSigHash] (env : Env) {s s' : SigningNode}

structure Sound (s : SigningNode) : Prop where
  holds : ∃ f, s.db.Holds f
  upgraded : env.networkID = .test → s.db.db.rs_upgraded = true

variable {env}

lemma sound_start (now : Int) : (start env now {}).Sound env := by
  by_cases ht : env.networkID = .test
  · refine ⟨⟨fun _ => none, ?_⟩, fun _ => ?_⟩
    · refine ⟨?_, agrees_nil rfl, agrees_nil rfl, agrees_nil rfl⟩
      have he := RecSigTables.represents_empty
      simp only [start, openDb, ht]
      exact ⟨⟨he.key, he.rs_r, he.rs_rm, he.rs_h, he.rs_s⟩, he.rs_t⟩
    · simp [start, openDb, ht]
  · exact ⟨⟨_, .openDb RecSigTables.represents_empty (fun h => absurd h ht) now⟩,
      fun h => absurd h ht⟩

lemma Sound.of_same (h : s.Sound env) {db : RecoveredSigsDb} (hd : ∃ f, db.Holds f)
    (hs : RecoveredSigsDb.SameVotes s.db.db db.db) : Sound env { s with db } :=
  ⟨hd, fun ht => hs.rs_upgraded.trans (h.upgraded ht)⟩

lemma Sound.asyncSignIfMember (h : s.Sound env) {ctx : SignContext} {type : LLMQType}
    {id msgHash : Uint256} {b : Bool}
    (hs' : asyncSignIfMember env ctx s type id msgHash = .ok (b, s')) :
    s'.Sound env := by
  obtain ⟨f, hf⟩ := h.holds
  obtain ⟨-, -, hr⟩ := hf.hasRecoveredSigForId (type, id)
  rcases asyncSignIfMember_cases hs' with rfl | rfl | ⟨-, asked, -, rfl⟩
  · exact h
  · exact h.of_same ⟨f, hr⟩ ⟨rfl, rfl⟩
  · exact ⟨⟨f, hr.of_votes _ _⟩, h.upgraded⟩

lemma Sound.step (hinj : RecSigHash.Injective) (h : s.Sound env) {e : SigningEvent}
    (hs' : s.step env e = .ok s') : s'.Sound env := by
  obtain ⟨f, hf⟩ := h.holds
  cases e with
  | asyncSignIfMember ctx type id msgHash =>
    obtain ⟨⟨b, s1⟩, hg, hs'⟩ := Run.bind_ok.1 hs'
    cases hs'
    exact h.asyncSignIfMember hg
  | signPendingSigShares ctx =>
    cases hs'
    exact ⟨h.holds, h.upgraded⟩
  | writeVoteForId now k msgHash =>
    cases hs'
    exact ⟨⟨f, hf.of_votes _ _⟩, h.upgraded⟩
  | processRecoveredSig now recoveredSig =>
    cases hs'
    exact h.of_same ⟨_, hf.processRecoveredSig hinj now recoveredSig⟩
      (sameVotes_processRecoveredSig now recoveredSig)
  | removeRecoveredSig k =>
    cases hs'
    exact h.of_same ⟨_, hf.removeRecoveredSig hinj k⟩ (sameVotes_removeRecoveredSig k)
  | cleanupOldRecoveredSigs now maxAge =>
    cases hs'
    exact h.of_same ⟨_, hf.cleanupOldRecoveredSigs hinj now maxAge⟩
      (sameVotes_cleanupOldRecoveredSigs now maxAge)
  | cleanupOldVotes now maxAge =>
    cases hs'
    exact ⟨⟨f, hf.of_votes _ _⟩, h.upgraded⟩
  | isConflicting k msgHash =>
    cases hs'
    rw [isConflicting_snd]
    exact h.of_same ⟨f, (hf.hasRecoveredSigForId k).2.2⟩ ⟨rfl, rfl⟩
  | hasRecoveredSigForId k =>
    cases hs'
    exact h.of_same ⟨f, (hf.hasRecoveredSigForId k).2.2⟩ ⟨rfl, rfl⟩
  | hasRecoveredSigForSession signHash =>
    cases hs'
    exact h.of_same ⟨f, (hf.hasRecoveredSigForSession signHash).2⟩ ⟨rfl, rfl⟩
  | hasRecoveredSigForHash hash =>
    cases hs'
    exact h.of_same ⟨f, (hf.hasRecoveredSigForHash hash).2⟩ ⟨rfl, rfl⟩
  | restart now =>
    cases hs'
    have hs : ¬ (env.networkID = .test ∧ s.db.db.rs_upgraded = false) := by
      have hu := h.upgraded
      grind
    refine ⟨⟨f, .openDb hf.represents h.upgraded now⟩, fun ht => ?_⟩
    rw [openDb, if_neg hs]
    exact h.upgraded ht

end SigningNode

/-- From an empty database: in every state, each id has all the records of one signature or none,
and the queries agree with the records. -/
theorem records_of_run [RecSigHash] (env : Env) (hinj : RecSigHash.Injective) (now : Int)
    (events : List SigningEvent) (s : SigningNode) (hs : (start env now {}).run env events = .ok s)
    : (∀ k, (∃ recSig time, s.db.db.AllRecords k recSig time) ∨ s.db.db.NoRecords k) ∧
      s.db.Answers := by
  obtain ⟨⟨f, hf⟩, -⟩ : s.Sound env := Run.foldlM_invariant (SigningNode.Sound env)
    (fun _ _ _ h ht => h.step hinj ht) events _ s (sound_start now) hs
  refine ⟨fun k => ?_, hf.answers hinj⟩
  rcases hk : f k with - | ⟨recSig, time⟩
  · exact .inr (hf.represents.noRecords hinj hk)
  · exact .inl ⟨recSig, time, hf.represents.allRecords hinj hk⟩

namespace TwoRequests

local instance : RecSigHash where
  serializeHash r := pair (pair r.llmqType.toNat (pair r.quorumHash
    (pair r.id r.msgHash))) (Encodable.encode r.sig) + 1
  ne_zero _ := succ_ne_zero _
  buildSignHash t q i m := pair t.toNat (pair q (pair i m))

lemma hashes_injective : RecSigHash.Injective where
  serializeHash r r' h := by
    obtain ⟨t, q, i, m, sig⟩ := r
    obtain ⟨t', q', i', m', sig'⟩ := r'
    simp only [serializeHash, add_right_cancel_iff, pair_eq_pair,
      Encodable.encode_inj, UInt8.toNat_inj] at h
    simp [h]
  buildSignHash h := by
    simpa [buildSignHash, UInt8.toNat_inj] using h

def env : Env := .permissive .main .main

def quorum : Quorum := ⟨5, 6⟩

def ctx : SignContext where
  now := 1000
  fMasternodeMode := true
  proTxHash := 3
  tipHeight := 100
  signing := {
    hashWriter := fun l => l.sum
    getActiveQuorumSet := fun _ _ => [quorum]
    hasRecoveredSig := fun _ _ _ => false
    hasRecoveredSigForId := fun _ _ => false }
  members _ := ⟨[3], [true], none, by simp⟩
  skShare _ := some fun signHash => some signHash

def recSig : RecoveredSig := ⟨LLMQ_5_60, 5, 7, 8, some 9⟩

def events : List SigningEvent :=
  [.asyncSignIfMember ctx LLMQ_5_60 7 8, .signPendingSigShares ctx,
    .asyncSignIfMember ctx LLMQ_5_60 7 9, .signPendingSigShares ctx, .restart 1001,
    .asyncSignIfMember ctx LLMQ_5_60 7 9, .signPendingSigShares ctx,
    .processRecoveredSig 1002 recSig, .isConflicting (LLMQ_5_60, 7) 9]

lemma run_events : ∃ s, (start env 999 {}).run env events = .ok s ∧
    (s.signed.map SigShare.msgHash, s.db.getRecoveredSigById recSig.key) = ([8], some recSig) :=
  Run.exists_of_map_toOption (by decide +kernel)

theorem one_share_signed : ∃ s, (start env 999 {}).run env events = .ok s ∧
    s.signed.map SigShare.msgHash = [8] ∧
    ∀ share ∈ s.signed, ∀ share' ∈ s.signed, share.llmqType = share'.llmqType →
      share.id = share'.id → share.msgHash = share'.msgHash := by
  obtain ⟨s, hs, ht⟩ := run_events
  refine ⟨s, hs, (Prod.mk.inj ht).1,
    signed_functional env 999 {} events (fun now maxAge hm => ?_) s hs⟩
  simp [events] at hm

theorem one_signature_recorded : ∃ s, (start env 999 {}).run env events = .ok s ∧
    s.db.getRecoveredSigById recSig.key = some recSig ∧
    (∀ k, (∃ recSig time, s.db.db.AllRecords k recSig time) ∨ s.db.db.NoRecords k) ∧
      s.db.Answers := by
  obtain ⟨s, hs, ht⟩ := run_events
  exact ⟨s, hs, (Prod.mk.inj ht).2, records_of_run env hashes_injective 999 events s hs⟩

end TwoRequests
end Trivechain.Llmq
