import Trivechain.Lib.LruCache
import Trivechain.Lib.Maps
import Trivechain.Lib.SecondaryIndex
import Trivechain.Llmq.Signing
import Trivechain.Primitives.Env

/-!
# The database of recovered signatures

`CRecoveredSigsDb` stores a recovered signature under its id with the time of writing, and leads to
it from its message hash, its own hash, its sign hash and that time. Three caches remember whether
there are such records. It also stores the votes of this node.

It stands for a map from ids to signatures with their times. `Represents` says that the tables are
the records of such a map, and `Coherent` that the caches have no wrong entry. Writing, removing and
cleaning up are an update, an erasure and a restriction of the map.
-/

namespace Trivechain.Llmq
open Std (ExtTreeMap ExtTreeSet)
open Maps Function Prod Option

/-- Digests of recovered signatures. `GetHash` asserts that the first one is not null. -/
class RecSigHash where
  serializeHash : RecoveredSig → Uint256
  ne_zero : ∀ recSig, serializeHash recSig ≠ 0
  /-- `CLLMQUtils::BuildSignHash` -/
  buildSignHash : LLMQType → Uint256 → Uint256 → Uint256 → Uint256

structure RecSigHash.Injective [RecSigHash] : Prop where
  serializeHash : Function.Injective (RecSigHash.serializeHash)
  buildSignHash : ∀ {t t' : LLMQType} {q q' i i' m m' : Uint256},
    RecSigHash.buildSignHash t q i m = RecSigHash.buildSignHash t' q' i' m' →
      t = t' ∧ q = q' ∧ i = i' ∧ m = m'

abbrev SigId := LLMQType × Uint256

namespace RecoveredSig
variable [RecSigHash] (recSig : RecoveredSig)

def key : SigId := (recSig.llmqType, recSig.id)

def hash : Uint256 := RecSigHash.serializeHash recSig

def signHash : Uint256 :=
  RecSigHash.buildSignHash recSig.llmqType recSig.quorumHash recSig.id recSig.msgHash

end RecoveredSig

/-- The conversion of `int64_t` to `uint32_t`. -/
def uint32 (n : Int) : Nat := (n % 2 ^ 32).toNat

/-- The tables, named after the prefixes of their keys. Keys with times are ordered by them, as the
most significant byte is written first. -/
structure RecSigTables where
  rs_r : ExtTreeMap SigId RecoveredSig := ∅
  /-- The keys with prefix `rs_r` that have a message hash as well. -/
  rs_rm : ExtTreeMap (SigId × Uint256) Nat := ∅
  rs_h : ExtTreeMap Uint256 SigId := ∅
  rs_s : ExtTreeSet Uint256 := ∅
  rs_t : ExtTreeSet (Nat × SigId) := ∅
  rs_v : ExtTreeMap SigId Uint256 := ∅
  rs_vt : ExtTreeSet (Nat × SigId) := ∅
  rs_upgraded : Bool := false

inductive RecSigKey where
  | rs_r (k : SigId)
  | rs_rm (k : SigId) (msgHash : Uint256)
  | rs_h (hash : Uint256)
  | rs_s (signHash : Uint256)
  | rs_t (time : Nat) (k : SigId)

/-- The share of an erased key in `SizeEstimate`: two bytes and the key. -/
def RecSigKey.size : RecSigKey → Nat
  | .rs_r _ => 40
  | .rs_rm _ _ => 72
  | .rs_h _ => 39
  | .rs_s _ => 39
  | .rs_t _ _ => 44

def sizeEstimate (batch : List RecSigKey) : Nat := (batch.map RecSigKey.size).sum

namespace RecSigTables

def erase (t : RecSigTables) : RecSigKey → RecSigTables
  | .rs_r k => { t with rs_r := t.rs_r.erase k }
  | .rs_rm k msgHash => { t with rs_rm := t.rs_rm.erase (k, msgHash) }
  | .rs_h hash => { t with rs_h := t.rs_h.erase hash }
  | .rs_s signHash => { t with rs_s := t.rs_s.erase signHash }
  | .rs_t time k => { t with rs_t := t.rs_t.erase (time, k) }

def writeBatch (t : RecSigTables) (batch : List RecSigKey) : RecSigTables := batch.foldl erase t

def write [RecSigHash] (t : RecSigTables) (curTime : Nat) (recSig : RecoveredSig) : RecSigTables :=
  { t with
    rs_r := t.rs_r.insert recSig.key recSig
    rs_rm := t.rs_rm.insert (recSig.key, recSig.msgHash) curTime
    rs_h := t.rs_h.insert recSig.hash recSig.key
    rs_s := t.rs_s.insert recSig.signHash
    rs_t := t.rs_t.insert (curTime, recSig.key) }

end RecSigTables

open RecSigTables

structure RecoveredSigsDb where
  db : RecSigTables := {}
  hasSigForIdCache : LruCache SigId Bool := { maxSize := 30000 }
  hasSigForSessionCache : LruCache Uint256 Bool := { maxSize := 30000 }
  hasSigForHashCache : LruCache Uint256 Bool := { maxSize := 30000 }

namespace RecoveredSigsDb
variable [RecSigHash] (d : RecoveredSigsDb)

/-! ### Reads

Those that go through a cache return the database as well. -/

def hasRecoveredSig (k : SigId) (msgHash : Uint256) : Bool := d.db.rs_rm.contains (k, msgHash)

def hasRecoveredSigForId (k : SigId) : Bool × RecoveredSigsDb :=
  let (ret, hasSigForIdCache) := d.hasSigForIdCache.readThrough k (d.db.rs_r.contains k)
  (ret, { d with hasSigForIdCache })

def hasRecoveredSigForSession (signHash : Uint256) : Bool × RecoveredSigsDb :=
  let (ret, hasSigForSessionCache) :=
    d.hasSigForSessionCache.readThrough signHash (d.db.rs_s.contains signHash)
  (ret, { d with hasSigForSessionCache })

def hasRecoveredSigForHash (hash : Uint256) : Bool × RecoveredSigsDb :=
  let (ret, hasSigForHashCache) :=
    d.hasSigForHashCache.readThrough hash (d.db.rs_h.contains hash)
  (ret, { d with hasSigForHashCache })

def readRecoveredSig (k : SigId) : Option RecoveredSig := d.db.rs_r[k]?

def getRecoveredSigById (k : SigId) : Option RecoveredSig := d.readRecoveredSig k

def writeRecoveredSig (now : Int) (recSig : RecoveredSig) : RecoveredSigsDb where
  db := d.db.write (uint32 now) recSig
  hasSigForIdCache := d.hasSigForIdCache.insert recSig.key true
  hasSigForSessionCache := d.hasSigForSessionCache.insert recSig.signHash true
  hasSigForHashCache := d.hasSigForHashCache.insert recSig.hash true

/-- The effect of `RemoveRecoveredSig` on the caches. -/
def uncache (recSig : RecoveredSig) : RecoveredSigsDb :=
  { d with
    hasSigForIdCache := d.hasSigForIdCache.erase recSig.key
    hasSigForSessionCache := d.hasSigForSessionCache.erase recSig.signHash
    hasSigForHashCache := d.hasSigForHashCache.erase recSig.hash }

def keysOf (recSig : RecoveredSig) : List RecSigKey :=
  [.rs_r recSig.key, .rs_rm recSig.key recSig.msgHash, .rs_h recSig.hash, .rs_s recSig.signHash]

/-- `RemoveRecoveredSig(batch, llmqType, id, deleteTimeKey)` -/
def removeToBatch (batch : List RecSigKey) (k : SigId) (deleteTimeKey : Bool) :
    RecoveredSigsDb × List RecSigKey :=
  match d.readRecoveredSig k with
  | none => (d, batch)
  | some recSig =>
    let batch := batch ++ keysOf recSig
    let batch :=
      if deleteTimeKey then
        match d.db.rs_rm[(recSig.key, recSig.msgHash)]? with
        | some writeTime => batch ++ [.rs_t writeTime recSig.key]
        | none => batch
      else batch
    (d.uncache recSig, batch)

def removeRecoveredSig (k : SigId) : RecoveredSigsDb :=
  let (d, batch) := d.removeToBatch [] k true
  { d with db := d.db.writeBatch batch }

def cleanupOne (s : RecoveredSigsDb × List RecSigKey) (k : SigId) :
    RecoveredSigsDb × List RecSigKey :=
  let (d, batch) := s.1.removeToBatch s.2 k false
  if 2 ^ 24 ≤ sizeEstimate batch then ({ d with db := d.db.writeBatch batch }, [])
  else (d, batch)

def cleanupOldRecoveredSigs (now maxAge : Int) : RecoveredSigsDb :=
  let endTime := uint32 (now - maxAge)
  let toDelete := d.db.rs_t.toList.takeWhile fun e => e.1 < endTime
  if toDelete.isEmpty then d
  else
    let (d, batch) := (toDelete.map snd).foldl cleanupOne (d, [])
    { d with db := d.db.writeBatch (batch ++ toDelete.map fun e => .rs_t e.1 e.2) }

def hasVotedOnId (k : SigId) : Bool := d.db.rs_v.contains k

def writeVoteForId (now : Int) (k : SigId) (msgHash : Uint256) : RecoveredSigsDb :=
  { d with db := { d.db with
    rs_v := d.db.rs_v.insert k msgHash
    rs_vt := d.db.rs_vt.insert (uint32 now, k) } }

def cleanupOldVotes (now maxAge : Int) : RecoveredSigsDb :=
  let endTime := uint32 (now - maxAge)
  let old := d.db.rs_vt.toList.takeWhile fun e => e.1 < endTime
  { d with db := { d.db with
    rs_vt := old.foldl ExtTreeSet.erase d.db.rs_vt
    rs_v := (old.map snd).foldl ExtTreeMap.erase d.db.rs_v } }

/-- `htobe32` where the host has the least significant byte first. -/
def htobe32 (n : Nat) : Nat :=
  n % 2 ^ 8 * 2 ^ 24 + n / 2 ^ 8 % 2 ^ 8 * 2 ^ 16 + n / 2 ^ 16 % 2 ^ 8 * 2 ^ 8 + n / 2 ^ 24 % 2 ^ 8

def convertInvalidTimeKeys (t : RecSigTables) : RecSigTables :=
  let convert := fun (rs_t : ExtTreeSet (Nat × SigId)) e => (rs_t.erase e).insert (htobe32 e.1, e.2)
  { t with rs_t := t.rs_t.toList.foldl convert t.rs_t }

def addVoteTimeKeys (now : Int) (t : RecSigTables) : RecSigTables :=
  { t with rs_vt := t.rs_v.toList.foldl (fun rs_vt e => rs_vt.insert (uint32 now, e.1)) t.rs_vt }

def openDb (env : Env) (now : Int) (t : RecSigTables) : RecoveredSigsDb where
  db :=
    if env.networkID = .test ∧ t.rs_upgraded = false then
      let t := addVoteTimeKeys now (convertInvalidTimeKeys t)
      { t with rs_upgraded := true }
    else t

end RecoveredSigsDb

open RecoveredSigsDb

abbrev SigStore := SigId → Option (RecoveredSig × Nat)

/-- Signatures are dropped if they were written before the given time. -/
def SigStore.since (f : SigStore) (endTime : Nat) : SigStore :=
  fun k => (f k).filter fun e => endTime ≤ e.2

namespace RecSigTables
variable [RecSigHash]

structure Records (t : RecSigTables) (f : SigStore) : Prop where
  key : ∀ {k : SigId} {recSig : RecoveredSig} {time : Nat}, f k = some (recSig, time) →
    recSig.key = k
  rs_r : ∀ k : SigId, t.rs_r[k]? = (f k).map fst
  rs_rm : ∀ (k : SigId) (msgHash : Uint256) (time : Nat), t.rs_rm[(k, msgHash)]? = some time ↔
    ∃ recSig : RecoveredSig, f k = some (recSig, time) ∧ recSig.msgHash = msgHash
  rs_h : ExactIndex (fun e hash => e.1.hash = hash) f fun hash => t.rs_h[hash]?
  rs_s : ∀ signHash : Uint256, signHash ∈ t.rs_s ↔
    ∃ k recSig time, f k = some (recSig, time) ∧ recSig.signHash = signHash

structure Represents (t : RecSigTables) (f : SigStore) : Prop extends Records t f where
  rs_t : ∀ (time : Nat) (k : SigId), (time, k) ∈ t.rs_t ↔ ∃ recSig, f k = some (recSig, time)

lemma represents_empty : Represents {} fun _ => none where
  key := by simp
  rs_r := by simp
  rs_rm := by simp
  rs_h := by simp [ExactIndex]
  rs_s := by simp
  rs_t := by simp

variable {t : RecSigTables} {f : SigStore}

lemma key_eq_of_signHash_eq (hinj : RecSigHash.Injective) {r r' : RecoveredSig}
    (h : r.signHash = r'.signHash) : r.key = r'.key := by
  obtain ⟨ht, -, hi, -⟩ := hinj.buildSignHash h
  rw [RecoveredSig.key, ht, hi, RecoveredSig.key]

variable {recSig : RecoveredSig} {k : SigId} {time : Nat}
variable (hinj : RecSigHash.Injective)
include hinj

lemma Represents.write (h : Represents t f) (hn : f recSig.key = none) (time : Nat) :
    Represents (t.write time recSig) (Function.update f recSig.key (some (recSig, time))) where
  key {k r τ} hk := by
    rw [update_apply] at hk
    split_ifs at hk with he
    · obtain ⟨rfl, -⟩ := Prod.mk.inj (some.inj hk)
      exact he.symm
    · exact h.key hk
  rs_r k := by
    rw [RecSigTables.write, getElem?_insert, update_apply]
    split_ifs
    · rfl
    · exact h.rs_r k
  rs_rm k m τ := by
    rw [RecSigTables.write, getElem?_insert, update_apply]
    have hold := h.rs_rm k m τ
    grind
  rs_h := by
    refine h.rs_h.update_some hn (fun k e hash hk hh hh' => ?_) fun hash k => ?_
    · obtain rfl := hinj.serializeHash (hh.trans hh'.symm)
      rw [h.key hk, hk] at hn
      cases hn
    · rw [RecSigTables.write, getElem?_insert]
      by_cases hh : recSig.hash = hash
      · simp [hh, eq_comm]
      · simp [hh, Ne.symm hh]
  rs_s signHash := by
    rw [RecSigTables.write, ExtTreeSet.mem_insert, Std.LawfulEqCmp.compare_eq_iff_eq, h.rs_s]
    constructor
    · rintro (rfl | ⟨k, r, τ, hr, hs⟩)
      · exact ⟨recSig.key, recSig, time, update_self .., rfl⟩
      · refine ⟨k, r, τ, ?_, hs⟩
        rw [update_of_ne, hr]
        rintro rfl
        rw [hn] at hr
        cases hr
    · rintro ⟨k, r, τ, hr, hs⟩
      rw [update_apply] at hr
      grind
  rs_t τ k := by
    rw [RecSigTables.write, ExtTreeSet.mem_insert, Std.LawfulEqCmp.compare_eq_iff_eq, h.rs_t]
    by_cases hk : k = recSig.key
    · simp [hk, hn]
    · simp [hk, Ne.symm hk]

lemma Records.remove (h : Records t f) (hk : f k = some (recSig, time)) :
    Records (t.writeBatch (keysOf recSig)) (Function.update f k none) where
  key {k' r τ} hk' := by
    rw [update_apply] at hk'
    split_ifs at hk' with he
    exact h.key hk'
  rs_r k' := by
    have hold := h.rs_r k'
    have hy := h.key hk
    simp only [writeBatch, keysOf, List.foldl_cons, List.foldl_nil, erase,
      getElem?_erase, update_apply]
    grind
  rs_rm k' m τ := by
    have hold := h.rs_rm k' m τ
    have hy := h.key hk
    simp only [writeBatch, keysOf, List.foldl_cons, List.foldl_nil, erase,
      getElem?_erase, update_apply]
    grind
  rs_h := by
    refine h.rs_h.update_none hk fun hash k' => ?_
    simp only [writeBatch, keysOf, List.foldl_cons, List.foldl_nil, erase, getElem?_erase]
    grind
  rs_s signHash := by
    have hy := h.key hk
    have ho : ∀ k' r τ, f k' = some (r, τ) → r.signHash = recSig.signHash → k' = k :=
      fun k' r τ hr he => (h.key hr).symm.trans ((key_eq_of_signHash_eq hinj he).trans hy)
    simp only [writeBatch, keysOf, List.foldl_cons, List.foldl_nil, erase,
      ExtTreeSet.mem_erase, h.rs_s, update_apply]
    grind

lemma Represents.remove (h : Represents t f) (hk : f k = some (recSig, time)) :
    Represents (t.writeBatch (keysOf recSig ++ [.rs_t time recSig.key]))
      (Function.update f k none) := by
  rw [writeBatch, List.foldl_append]
  have hr := h.toRecords.remove hinj hk
  refine ⟨⟨hr.key, hr.rs_r, hr.rs_rm, hr.rs_h, hr.rs_s⟩, ?_⟩
  intro τ k'
  have ht : (τ, k') ∈ t.rs_t ↔ ∃ r, f k' = some (r, τ) := h.rs_t τ k'
  simp only [keysOf, List.foldl_cons, List.foldl_nil, erase, ExtTreeSet.mem_erase, ht, h.key hk]
  by_cases he : k' = k
  · simp [he, hk]
  · simp [he, Ne.symm he]

end RecSigTables

namespace RecoveredSigsDb
variable [RecSigHash] {d : RecoveredSigsDb} {t : RecSigTables} {f : SigStore}

structure CachesAgree (d : RecoveredSigsDb) (t : RecSigTables) : Prop where
  forId : d.hasSigForIdCache.Agrees fun k => t.rs_r.contains k
  forSession : d.hasSigForSessionCache.Agrees fun signHash => t.rs_s.contains signHash
  forHash : d.hasSigForHashCache.Agrees fun hash => t.rs_h.contains hash

structure Holds (d : RecoveredSigsDb) (f : SigStore) : Prop where
  represents : d.db.Represents f
  caches : d.CachesAgree d.db

lemma Holds.hasRecoveredSigForId (h : d.Holds f) (k : SigId) :
    (d.hasRecoveredSigForId k).1 = (f k).isSome ∧ (d.hasRecoveredSigForId k).2.db = d.db ∧
      (d.hasRecoveredSigForId k).2.Holds f := by
  obtain ⟨hr, hc⟩ := h.caches.forId.readThrough k
  refine ⟨hr.trans ?_, rfl, h.represents, hc, h.caches.forSession, h.caches.forHash⟩
  rw [ExtTreeMap.contains_eq_isSome_getElem?, h.represents.rs_r, isSome_map]

lemma Holds.hasRecoveredSigForSession (h : d.Holds f) (signHash : Uint256) :
    (d.hasRecoveredSigForSession signHash).1 = d.db.rs_s.contains signHash ∧
      (d.hasRecoveredSigForSession signHash).2.Holds f := by
  obtain ⟨hr, hc⟩ := h.caches.forSession.readThrough signHash
  exact ⟨hr, h.represents, h.caches.forId, hc, h.caches.forHash⟩

lemma Holds.hasRecoveredSigForHash (h : d.Holds f) (hash : Uint256) :
    (d.hasRecoveredSigForHash hash).1 = d.db.rs_h.contains hash ∧
      (d.hasRecoveredSigForHash hash).2.Holds f := by
  obtain ⟨hr, hc⟩ := h.caches.forHash.readThrough hash
  exact ⟨hr, h.represents, h.caches.forId, h.caches.forSession, hc⟩

lemma Holds.writeRecoveredSig (hinj : RecSigHash.Injective) (h : d.Holds f) {recSig : RecoveredSig}
    (hn : f recSig.key = none) (now : Int) : (d.writeRecoveredSig now recSig).Holds
      (Function.update f recSig.key (some (recSig, uint32 now))) where
  represents := h.represents.write hinj hn (uint32 now)
  caches := by
    refine ⟨h.caches.forId.update (fun k he => ?_) ?_, h.caches.forSession.update (fun k he => ?_) ?_,
      h.caches.forHash.update (fun k he => ?_) ?_⟩ <;>
      simp [RecoveredSigsDb.writeRecoveredSig, write]
    all_goals exact fun hq => absurd hq.symm he

lemma CachesAgree.uncache (h : d.CachesAgree t) (recSig : RecoveredSig) :
    (d.uncache recSig).CachesAgree (t.writeBatch (keysOf recSig)) := by
  refine ⟨h.forId.forget fun k hn => ?_, h.forSession.forget fun k hn => ?_,
    h.forHash.forget fun k hn => ?_⟩ <;>
    simp [writeBatch, keysOf, erase, Ne.symm hn]

lemma Holds.removeRecoveredSig (hinj : RecSigHash.Injective) (h : d.Holds f) (k : SigId) :
    (d.removeRecoveredSig k).Holds (Function.update f k none) := by
  have hr : d.readRecoveredSig k = (f k).map fst := h.represents.rs_r k
  unfold RecoveredSigsDb.removeRecoveredSig removeToBatch
  rw [hr]
  cases hk : f k with
  | none =>
    have hs : Function.update f k none = f := by rw [← hk, update_eq_self]
    rw [hs]
    exact h
  | some e =>
    obtain ⟨recSig, time⟩ := e
    have ht : d.db.rs_rm[(recSig.key, recSig.msgHash)]? = some time := by
      rw [h.represents.key hk]
      exact (h.represents.rs_rm k recSig.msgHash time).2 ⟨recSig, hk, rfl⟩
    simp only [map_some, if_true, ht, List.nil_append]
    refine ⟨h.represents.remove hinj hk, ?_⟩
    have hc := h.caches.uncache recSig
    rw [writeBatch, List.foldl_append]
    exact ⟨hc.forId, hc.forSession, hc.forHash⟩

/-- The loop of `CleanupOldRecoveredSigs` has dealt with some ids: the batch erases their records,
and the caches know already. -/
structure Cleaning (f : SigStore) (times : ExtTreeSet (Nat × SigId)) (ks : List SigId)
    (s : RecoveredSigsDb × List RecSigKey) : Prop where
  records : (s.1.db.writeBatch s.2).Records fun k => if k ∈ ks then none else f k
  unread : ∀ k : SigId, k ∉ ks → s.1.db.rs_r[k]? = (f k).map fst
  caches : s.1.CachesAgree (s.1.db.writeBatch s.2)
  times : (s.1.db.writeBatch s.2).rs_t = times

variable {times : ExtTreeSet (Nat × SigId)} {ks : List SigId} {s : RecoveredSigsDb × List RecSigKey}
  {k : SigId} {endTime : Nat}

lemma Cleaning.cleanupOne (hinj : RecSigHash.Injective) (h : Cleaning f times ks s) (hk : k ∉ ks)
    (hs : (f k).isSome) : Cleaning f times (ks ++ [k]) (cleanupOne s k) := by
  obtain ⟨⟨recSig, time⟩, hf⟩ := isSome_iff_exists.1 hs
  have hd : s.1.readRecoveredSig k = some recSig := by
    rw [readRecoveredSig, h.unread k hk, hf, map_some]
  have hb : s.1.db.writeBatch (s.2 ++ keysOf recSig) =
      (s.1.db.writeBatch s.2).writeBatch (keysOf recSig) := List.foldl_append
  have hm : (fun k' => if k' ∈ ks ++ [k] then none else f k') =
      Function.update (fun k' => if k' ∈ ks then none else f k') k none := by
    funext k'
    by_cases he : k' = k
    · simp [he]
    · simp [he]
  have hold : (fun k' => if k' ∈ ks then none else f k') k = some (recSig, time) :=
    (if_neg hk).trans hf
  have hr : (s.1.db.writeBatch (s.2 ++ keysOf recSig)).Records
      fun k' => if k' ∈ ks ++ [k] then none else f k' := by
    rw [hb, hm]
    exact h.records.remove hinj hold
  have hc : (s.1.uncache recSig).CachesAgree (s.1.db.writeBatch (s.2 ++ keysOf recSig)) :=
    hb ▸ h.caches.uncache recSig
  have ht : (s.1.db.writeBatch (s.2 ++ keysOf recSig)).rs_t = times := hb ▸ h.times
  simp only [RecoveredSigsDb.cleanupOne, removeToBatch, hd, Bool.false_eq_true, if_false]
  split_ifs
  · -- the batch has become large and is written now
    refine ⟨hr, fun k' hk' => ?_, ⟨hc.forId, hc.forSession, hc.forHash⟩, ht⟩
    have hr' := hr.rs_r k'
    rwa [if_neg hk'] at hr'
  · refine ⟨hr, fun k' hk' => h.unread k' fun hmm => hk' ?_, hc, ht⟩
    exact List.mem_append_left _ hmm

lemma Cleaning.foldl (hinj : RecSigHash.Injective) {ks' : List SigId} (h : Cleaning f times ks s)
    (hn : (ks ++ ks').Nodup) (hs : ∀ k ∈ ks', (f k).isSome) :
    Cleaning f times (ks ++ ks') (ks'.foldl RecoveredSigsDb.cleanupOne s) := by
  induction ks' generalizing ks s with
  | nil => rwa [List.append_nil]
  | cons k ks' ih =>
    have hk : k ∉ ks := fun hm =>
      (List.nodup_append.1 hn).2.2 k hm k (List.mem_cons_self ..) rfl
    rw [List.append_cons] at hn ⊢
    exact ih (h.cleanupOne hinj hk (hs k (List.mem_cons_self ..))) hn
      fun k' hk' => hs k' (List.mem_cons_of_mem _ hk')

omit [RecSigHash] in
lemma writeBatch_times (es : List (Nat × SigId)) (t : RecSigTables) :
    t.writeBatch (es.map fun e => .rs_t e.1 e.2) =
      { t with rs_t := es.foldl ExtTreeSet.erase t.rs_t } := by
  induction es generalizing t with
  | nil => rfl
  | cons e es ih =>
    rw [List.map_cons, writeBatch, List.foldl_cons]
    exact ih _

omit [RecSigHash] in
variable (d) in
def old (endTime : Nat) : List (Nat × SigId) := d.db.rs_t.toList.takeWhile fun e => e.1 < endTime

lemma Holds.mem_old (h : d.Holds f) {time : Nat} :
    (time, k) ∈ d.old endTime ↔ (∃ recSig, f k = some (recSig, time)) ∧ time < endTime := by
  rw [old, mem_takeWhile_fst_lt, h.represents.rs_t]

lemma Holds.mem_map_old (h : d.Holds f) : k ∈ (d.old endTime).map snd ↔
      ∃ recSig time, f k = some (recSig, time) ∧ time < endTime := by
  rw [List.mem_map]
  constructor
  · rintro ⟨⟨time, _⟩, hm, rfl⟩
    obtain ⟨⟨recSig, hk⟩, hl⟩ := h.mem_old.1 hm
    exact ⟨recSig, time, hk, hl⟩
  · rintro ⟨recSig, time, hk, hl⟩
    exact ⟨(time, k), h.mem_old.2 ⟨⟨recSig, hk⟩, hl⟩, rfl⟩

lemma Holds.nodup_old (h : d.Holds f) (endTime : Nat) : ((d.old endTime).map snd).Nodup := by
  refine List.Nodup.map_on ?_ ((List.takeWhile_sublist _).nodup nodup_toList)
  rintro ⟨time, k⟩ hm ⟨time', _⟩ hm' rfl
  obtain ⟨⟨recSig, hk⟩, -⟩ := h.mem_old.1 hm
  obtain ⟨⟨recSig', hk'⟩, -⟩ := h.mem_old.1 hm'
  grind

lemma Holds.since_eq (h : d.Holds f) (endTime : Nat) :
    (fun k => if k ∈ (d.old endTime).map snd then none else f k) = SigStore.since f endTime := by
  funext k
  have hm : k ∈ (d.old endTime).map snd ↔
    ∃ recSig time, f k = some (recSig, time) ∧ time < endTime := h.mem_map_old
  rw [SigStore.since]
  rcases hk : f k with - | ⟨recSig, time⟩
  · simp
  · by_cases hl : time < endTime
    · rw [if_pos (hm.2 ⟨recSig, time, hk, hl⟩)]
      simp [Option.filter, hl]
    · rw [if_neg fun hk' => by grind]
      simp [Option.filter, not_lt.1 hl]

lemma Holds.cleanupOldRecoveredSigs (hinj : RecSigHash.Injective) (h : d.Holds f)
    (now maxAge : Int) : (d.cleanupOldRecoveredSigs now maxAge).Holds
      (SigStore.since f (uint32 (now - maxAge))) := by
  generalize he : uint32 (now - maxAge) = endTime
  have hs := h.since_eq endTime
  have hq : d.cleanupOldRecoveredSigs now maxAge =
      let s := ((d.old endTime).map snd).foldl cleanupOne (d, [])
      { s.1 with db := s.1.db.writeBatch (s.2 ++ (d.old endTime).map fun e => .rs_t e.1 e.2) } := by
    rw [RecoveredSigsDb.cleanupOldRecoveredSigs, he, ← old]
    cases d.old endTime <;> rfl
  have ht : Cleaning f d.db.rs_t [] (d, []) :=
    ⟨h.represents.toRecords, fun k _ => h.represents.rs_r k, h.caches, rfl⟩
  have hd := ht.foldl hinj (h.nodup_old endTime) fun k hk => by
    obtain ⟨recSig, time, hk, -⟩ := h.mem_map_old.1 hk
    rw [hk, isSome_some]
  rw [List.nil_append] at hd
  generalize ((d.old endTime).map snd).foldl cleanupOne (d, []) = s at hq hd
  rw [hq]
  have hr := hd.records
  have hc := hd.caches
  rw [hs] at hr
  have hb : s.1.db.writeBatch (s.2 ++ (d.old endTime).map fun e => .rs_t e.1 e.2) =
      { s.1.db.writeBatch s.2 with rs_t := (d.old endTime).foldl ExtTreeSet.erase d.db.rs_t } := by
    rw [← hd.times, ← writeBatch_times]
    exact List.foldl_append
  dsimp only
  rw [hb]
  refine ⟨⟨⟨hr.key, hr.rs_r, hr.rs_rm, hr.rs_h, hr.rs_s⟩, ?_⟩, hc.forId, hc.forSession, hc.forHash⟩
  intro time k
  dsimp only
  rw [mem_foldl_erase, h.represents.rs_t, h.mem_old, SigStore.since]
  rcases hk : f k with - | ⟨recSig, time'⟩
  · simp
  · grind

end RecoveredSigsDb
end Trivechain.Llmq
