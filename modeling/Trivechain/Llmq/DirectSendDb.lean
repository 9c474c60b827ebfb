import Trivechain.Lib.LruCache
import Trivechain.Lib.Maps
import Trivechain.Lib.SecondaryIndex
import Trivechain.Llmq.DirectSend

/-!
# The database of DirectSend locks

`CDirectSendDb` stores the locks under their hashes, with an index from transactions and one from
inputs, and caches lookups in all three. Removals are collected in a batch while the loops go on
reading the tables as they were.

The caches never have a wrong entry: a lock that joins a batch leaves them, and they have nothing
about it when the batch is written. And when the indexes are exact, taking out a lock takes out no
entry of another one.
-/

namespace Trivechain.Llmq
open Bls Maps Option LruCache
open Std (ExtTreeMap ExtTreeSet)

/-- `SerializeHash` of a lock. -/
class LockHash where
  serializeHash : DirectSendLock → Uint256
  ne_zero : ∀ islock, serializeHash islock ≠ 0

def DirectSendLock.hash [LockHash] (islock : DirectSendLock) : Uint256 :=
  LockHash.serializeHash islock

structure LockTables where
  is_i : ExtTreeMap Uint256 DirectSendLock := ∅
  is_tx : ExtTreeMap Uint256 Uint256 := ∅
  is_in : ExtTreeMap OutPoint Uint256 := ∅
  /-- Heights at which locks were mined. -/
  is_m : List (Nat × Uint256) := []
  /-- Archived locks, by height and by hash. -/
  is_a1 : List (Nat × Uint256) := []
  is_a2 : ExtTreeSet Uint256 := ∅

inductive LockOp where
  /-- The erases for a lock and its index entries. -/
  | removeLock (hash : Uint256) (islock : DirectSendLock)
  | archive (nHeight : Nat) (hash : Uint256)
  | eraseMined (nHeight : Nat) (hash : Uint256)
  | eraseArchived (nHeight : Nat) (hash : Uint256)

namespace LockTables
variable (t : LockTables)

def apply (t : LockTables) : LockOp → LockTables
  | .removeLock hash islock =>
    { t with
      is_i := t.is_i.erase hash
      is_tx := t.is_tx.erase islock.txid
      is_in := islock.inputs.foldl (fun m o => m.erase o) t.is_in }
  | .archive nHeight hash =>
    { t with is_a1 := t.is_a1.insert (nHeight, hash), is_a2 := t.is_a2.insert hash }
  | .eraseMined nHeight hash => { t with is_m := t.is_m.erase (nHeight, hash) }
  | .eraseArchived nHeight hash =>
    { t with is_a1 := t.is_a1.erase (nHeight, hash), is_a2 := t.is_a2.erase hash }

def writeBatch (batch : List LockOp) : LockTables := batch.foldl apply t

def write (hash : Uint256) (islock : DirectSendLock) : LockTables :=
  { t with
    is_i := t.is_i.insert hash islock
    is_tx := t.is_tx.insert islock.txid hash
    is_in := islock.inputs.foldl (fun m o => m.insert o hash) t.is_in }

end LockTables

open LockTables

structure DirectSendDb where
  db : LockTables := {}
  islockCache : LruCache Uint256 (Option DirectSendLock) := { maxSize := 10000 }
  txidCache : LruCache Uint256 Uint256 := { maxSize := 10000 }
  outpointCache : LruCache OutPoint Uint256 := { maxSize := 10000 }

namespace DirectSendDb
variable (d : DirectSendDb)

/-! ### Getters

A getter returns the database as well, since it writes to the caches. -/

def getDirectSendLockByHash (hash : Uint256) : Option DirectSendLock × DirectSendDb :=
  let (ret, islockCache) := d.islockCache.readThrough hash d.db.is_i[hash]?
  (ret, { d with islockCache := islockCache })

def getDirectSendLockHashByTxid (txid : Uint256) : Uint256 × DirectSendDb :=
  let (islockHash, txidCache) := d.txidCache.readThrough txid (d.db.is_tx[txid]?.getD 0)
  (islockHash, { d with txidCache := txidCache })

def getDirectSendLockByTxid (txid : Uint256) : Option DirectSendLock × DirectSendDb :=
  let (islockHash, d) := d.getDirectSendLockHashByTxid txid
  if islockHash = 0 then (none, d) else d.getDirectSendLockByHash islockHash

/-- A null hash is that of no lock, so it stands for a missing entry here too. -/
def getDirectSendLockByInput (outpoint : OutPoint) : Option DirectSendLock × DirectSendDb :=
  let (islockHash, outpointCache) :=
    d.outpointCache.readThrough outpoint (d.db.is_in[outpoint]?.getD 0)
  let d := { d with outpointCache := outpointCache }
  if islockHash = 0 then (none, d) else d.getDirectSendLockByHash islockHash

def getDirectSendLocksByParent (parent : Uint256) : List Uint256 :=
  (d.db.is_in.toList.filter fun e => e.1.hash = parent).map Prod.snd

def writeNewDirectSendLock (hash : Uint256) (islock : DirectSendLock) : DirectSendDb where
  db := d.db.write hash islock
  islockCache := d.islockCache.insert hash (some islock)
  txidCache := d.txidCache.insert islock.txid hash
  outpointCache := islock.inputs.foldl (fun c o => c.insert o hash) d.outpointCache

/-- The effect of `RemoveDirectSendLock` on the caches. -/
def uncache (hash : Uint256) (islock : DirectSendLock) : DirectSendDb :=
  { d with
    islockCache := d.islockCache.erase hash
    txidCache := d.txidCache.erase islock.txid
    outpointCache := islock.inputs.foldl (fun c o => c.erase o) d.outpointCache }

def removeDirectSendLock (batch : List LockOp) (hash : Uint256) (islock : DirectSendLock) :
    DirectSendDb × List LockOp :=
  (d.uncache hash islock, batch ++ [.removeLock hash islock])

/-- `RemoveDirectSendLock(batch, hash, nullptr)` -/
def removeDirectSendLockByHash (batch : List LockOp) (hash : Uint256) :
    DirectSendDb × List LockOp :=
  match d.getDirectSendLockByHash hash with
  | (none, d) => (d, batch)
  | (some islock, d) => d.removeDirectSendLock batch hash islock

def writeDirectSendLockMined (hash : Uint256) (nHeight : Nat) : DirectSendDb :=
  { d with db := { d.db with is_m := d.db.is_m.insert (nHeight, hash) } }

def removeDirectSendLockMined (hash : Uint256) (nHeight : Nat) : DirectSendDb :=
  { d with db := d.db.apply (.eraseMined nHeight hash) }

def removeConfirmed (s : DirectSendDb × List LockOp) (key : Nat × Uint256) :
    DirectSendDb × List LockOp :=
  let (d, batch) := s.1.removeDirectSendLockByHash s.2 key.2
  (d, batch ++ [.archive key.1 key.2, .eraseMined key.1 key.2])

def removeConfirmedDirectSendLocks (nUntilHeight : Nat) : DirectSendDb :=
  let keys := d.db.is_m.filter fun key => key.1 ≤ nUntilHeight
  let (d', batch) := keys.foldl removeConfirmed (d, [])
  { d' with db := d'.db.writeBatch batch }

def removeArchivedDirectSendLocks (nUntilHeight : Nat) : DirectSendDb :=
  let keys := d.db.is_a1.filter fun key => key.1 ≤ nUntilHeight
  { d with db := d.db.writeBatch (keys.map fun key => .eraseArchived key.1 key.2) }

/-- What the loop of `RemoveChainedDirectSendLocks` works on. The last element of the stack
comes first. -/
structure Chained where
  d : DirectSendDb
  batch : List LockOp := []
  result : List Uint256 := []
  stack : List Uint256
  added : List Uint256 := []

def Chained.removeChild (nHeight : Nat) (s : Chained) (childIslockHash : Uint256) : Chained :=
  match s.d.getDirectSendLockByHash childIslockHash with
  | (none, d) => { s with d := d }
  | (some childIsLock, d) =>
    let (d, batch) := d.removeDirectSendLock s.batch childIslockHash childIsLock
    let s := { s with
      d := d
      batch := batch ++ [.archive nHeight childIslockHash]
      result := s.result ++ [childIslockHash] }
    if childIsLock.txid ∈ s.added then s
    else { s with stack := childIsLock.txid :: s.stack, added := childIsLock.txid :: s.added }

/-- The loop, for as many rounds as there are locks and one more. -/
def Chained.loop (nHeight : Nat) : Nat → Chained → Chained
  | 0, s => s
  | fuel + 1, s =>
    match s.stack with
    | [] => s
    | txid :: stack =>
      Chained.loop nHeight fuel ((s.d.getDirectSendLocksByParent txid).foldl
        (Chained.removeChild nHeight) { s with stack := stack })

def chained (txid : Uint256) (nHeight : Nat) : Chained :=
  Chained.loop nHeight (d.db.is_i.size + 1) { d := d, stack := [txid] }

def removeChainedDirectSendLocks (islockHash txid : Uint256) (nHeight : Nat) :
    List Uint256 × DirectSendDb :=
  let s := d.chained txid nHeight
  let (d', batch) := s.d.removeDirectSendLockByHash s.batch islockHash
  let batch := batch ++ [.archive nHeight islockHash]
  (s.result ++ [islockHash], { d' with db := d'.db.writeBatch batch })

end DirectSendDb

namespace LockTables
variable {t : LockTables} {op : LockOp} {batch : List LockOp}
variable {h : Uint256} {l : DirectSendLock}

lemma is_i_apply : (t.apply op).is_i[h]? = some l ↔
    t.is_i[h]? = some l ∧ ∀ l', op ≠ .removeLock h l' := by
  cases op with
  | removeLock hash islock => simp [apply, getElem?_erase]; grind
  | archive => simp [apply]
  | eraseMined => simp [apply]
  | eraseArchived => simp [apply]

variable {txid hash : Uint256} {o : OutPoint} {islock : DirectSendLock}

lemma is_tx_apply : (t.apply op).is_tx[txid]? = some h ↔
    t.is_tx[txid]? = some h ∧ ∀ h' l', op = .removeLock h' l' → l'.txid ≠ txid := by
  cases op with
  | removeLock hash islock => simp [apply, getElem?_erase]; grind
  | archive => simp [apply]
  | eraseMined => simp [apply]
  | eraseArchived => simp [apply]

lemma is_in_apply : (t.apply op).is_in[o]? = some h ↔
    t.is_in[o]? = some h ∧ ∀ h' l', op = .removeLock h' l' → o ∉ l'.inputs := by
  cases op with
  | removeLock hash islock => simp [apply, getElem?_foldl_erase]; grind
  | archive => simp [apply]
  | eraseMined => simp [apply]
  | eraseArchived => simp [apply]

lemma is_i_writeBatch : (t.writeBatch batch).is_i[h]? = some l ↔
      t.is_i[h]? = some l ∧ ∀ l', .removeLock h l' ∉ batch := by
  induction batch generalizing t with
  | nil => simp [writeBatch]
  | cons op batch ih =>
    change ((t.apply op).writeBatch batch).is_i[h]? = some l ↔ _
    rw [ih, is_i_apply]
    grind

lemma is_tx_writeBatch : (t.writeBatch batch).is_tx[txid]? = some h ↔
    t.is_tx[txid]? = some h ∧ ∀ h' l', .removeLock h' l' ∈ batch → l'.txid ≠ txid := by
  induction batch generalizing t with
  | nil => simp [writeBatch]
  | cons op batch ih =>
    change ((t.apply op).writeBatch batch).is_tx[txid]? = some h ↔ _
    rw [ih, is_tx_apply]
    grind

lemma is_in_writeBatch : (t.writeBatch batch).is_in[o]? = some h ↔
      t.is_in[o]? = some h ∧ ∀ h' l', .removeLock h' l' ∈ batch → o ∉ l'.inputs := by
  induction batch generalizing t with
  | nil => simp [writeBatch]
  | cons op batch ih =>
    change ((t.apply op).writeBatch batch).is_in[o]? = some h ↔ _
    rw [ih, is_in_apply]
    grind

structure Exact (t : LockTables) : Prop where
  ne_zero : ∀ (h : Uint256) (l : DirectSendLock), t.is_i[h]? = some l → h ≠ 0
  txids : ExactIndex (fun (l : DirectSendLock) txid => l.txid = txid)
    (fun h : Uint256 => t.is_i[h]?) (fun txid : Uint256 => t.is_tx[txid]?)
  inputs : ExactIndex (fun (l : DirectSendLock) o => o ∈ l.inputs)
    (fun h : Uint256 => t.is_i[h]?) (fun o : OutPoint => t.is_in[o]?)

lemma exact_empty : Exact {} where
  ne_zero := by simp
  txids k p := by simp
  inputs k p := by simp

lemma Exact.writeBatch (ht : t.Exact)
    (hs : ∀ (h : Uint256) l, .removeLock h l ∈ batch → t.is_i[h]? = some l) :
    (t.writeBatch batch).Exact where
  ne_zero h l hl := ht.ne_zero h l (is_i_writeBatch.1 hl).1
  txids := ht.txids.remove hs (fun _ _ => is_i_writeBatch) fun _ _ => is_tx_writeBatch
  inputs := ht.inputs.remove hs (fun _ _ => is_i_writeBatch) fun _ _ => is_in_writeBatch

def Free (t : LockTables) (islock : DirectSendLock) : Prop :=
  ∀ (h : Uint256) (l : DirectSendLock), t.is_i[h]? = some l →
    l.txid ≠ islock.txid ∧ ∀ o ∈ islock.inputs, o ∉ l.inputs

lemma is_i_write : (t.write hash islock).is_i[h]? = some l ↔
      (h = hash ∧ l = islock) ∨ (h ≠ hash ∧ t.is_i[h]? = some l) := by
  rw [write, getElem?_insert]
  grind

lemma Exact.write (ht : t.Exact) (he : hash ≠ 0) (hn : t.is_i[hash]? = none)
    (hf : t.Free islock) : (t.write hash islock).Exact where
  ne_zero h l hl := by
    rcases is_i_write.1 hl with ⟨rfl, -⟩ | ⟨-, hl⟩
    · exact he
    · exact ht.ne_zero h l hl
  txids := by
    refine ht.txids.add hn (fun h l k hl hk hk' => (hf h l hl).1 (hk'.trans hk.symm))
      (fun _ _ => is_i_write) fun txid h => ?_
    simp only [LockTables.write, getElem?_insert]
    grind
  inputs := by
    refine ht.inputs.add hn (fun h l o hl ho => (hf h l hl).2 o ho)
      (fun _ _ => is_i_write) fun o h => ?_
    simp only [LockTables.write, getElem?_foldl_insert]
    grind

end LockTables

namespace DirectSendDb
variable {d : DirectSendDb}

structure Coherent (d : DirectSendDb) : Prop where
  locks : d.islockCache.Agrees fun h => d.db.is_i[h]?
  txids : d.txidCache.Agrees fun txid => d.db.is_tx[txid]?.getD 0
  inputs : d.outpointCache.Agrees fun o => d.db.is_in[o]?.getD 0

namespace Coherent

lemma empty (t : LockTables) : Coherent { db := t } := by
  constructor <;> intro k v h <;> simp [find] at h

variable (hd : d.Coherent)
include hd

lemma getDirectSendLockByHash (hash : Uint256) :
    (d.getDirectSendLockByHash hash).1 = d.db.is_i[hash]? ∧
      (d.getDirectSendLockByHash hash).2.db = d.db ∧ (d.getDirectSendLockByHash hash).2.Coherent :=
  ⟨(hd.locks.readThrough hash).1, rfl, (hd.locks.readThrough hash).2, hd.txids, hd.inputs⟩

lemma getDirectSendLockHashByTxid (txid : Uint256) :
    (d.getDirectSendLockHashByTxid txid).1 = d.db.is_tx[txid]?.getD 0 ∧
      (d.getDirectSendLockHashByTxid txid).2.db = d.db ∧
      (d.getDirectSendLockHashByTxid txid).2.Coherent :=
  ⟨(hd.txids.readThrough txid).1, rfl, hd.locks, (hd.txids.readThrough txid).2, hd.inputs⟩

lemma getDirectSendLockByTxid (txid : Uint256) : (d.getDirectSendLockByTxid txid).1 =
        (if d.db.is_tx[txid]?.getD 0 = 0 then none else d.db.is_i[d.db.is_tx[txid]?.getD 0]?) ∧
      (d.getDirectSendLockByTxid txid).2.db = d.db ∧
      (d.getDirectSendLockByTxid txid).2.Coherent := by
  obtain ⟨hh, hb, hc⟩ := hd.getDirectSendLockHashByTxid txid
  unfold DirectSendDb.getDirectSendLockByTxid
  dsimp only
  rw [hh]
  split_ifs
  · exact ⟨rfl, hb, hc⟩
  · rw [← hb]
    exact hc.getDirectSendLockByHash _

lemma getDirectSendLockByInput (o : OutPoint) : (d.getDirectSendLockByInput o).1 =
        (if d.db.is_in[o]?.getD 0 = 0 then none else d.db.is_i[d.db.is_in[o]?.getD 0]?) ∧
      (d.getDirectSendLockByInput o).2.db = d.db ∧ (d.getDirectSendLockByInput o).2.Coherent := by
  obtain ⟨hh, hc⟩ := hd.inputs.readThrough o
  have hd' : Coherent { d with
      outpointCache := (d.outpointCache.readThrough o (d.db.is_in[o]?.getD 0)).2 } :=
    ⟨hd.locks, hd.txids, hc⟩
  unfold DirectSendDb.getDirectSendLockByInput
  dsimp only
  rw [hh]
  split_ifs
  · exact ⟨rfl, rfl, hd'⟩
  · exact hd'.getDirectSendLockByHash _

lemma writeNewDirectSendLock (hash : Uint256) (islock : DirectSendLock) :
    (d.writeNewDirectSendLock hash islock).Coherent where
  locks := hd.locks.update (fun h hn => by simp [DirectSendDb.writeNewDirectSendLock,
    write, getElem?_insert, hn]) (by simp [DirectSendDb.writeNewDirectSendLock, write])
  txids := hd.txids.update (fun txid hn => by simp [DirectSendDb.writeNewDirectSendLock,
    write, getElem?_insert, hn]) (by simp [DirectSendDb.writeNewDirectSendLock, write])
  inputs := by
    have he : (fun o => (d.writeNewDirectSendLock hash islock).db.is_in[o]?.getD 0) =
        fun o => if o ∈ islock.inputs then hash else d.db.is_in[o]?.getD 0 := by
      funext o
      simp only [DirectSendDb.writeNewDirectSendLock, write, getElem?_foldl_insert]
      split_ifs <;> rfl
    rw [he]
    exact hd.inputs.foldl_update islock.inputs hash

lemma uncache (hash : Uint256) (islock : DirectSendLock) : (d.uncache hash islock).Coherent :=
  ⟨hd.locks.erase, hd.txids.erase, hd.inputs.foldl_erase islock.inputs⟩

end Coherent

/-- While removals are collected, the tables are the old ones, and the caches have nothing about the
locks in the batch. -/
structure Collecting (t : LockTables) (s : DirectSendDb × List LockOp) : Prop where
  db_eq : s.1.db = t
  coherent : s.1.Coherent
  stored : ∀ (h : Uint256) l, .removeLock h l ∈ s.2 → t.is_i[h]? = some l
  lock : ∀ h l, .removeLock h l ∈ s.2 → s.1.islockCache.find h = none
  txid : ∀ h l, .removeLock h l ∈ s.2 → s.1.txidCache.find l.txid = none
  input : ∀ h l, .removeLock h l ∈ s.2 → ∀ o ∈ l.inputs, s.1.outpointCache.find o = none

namespace Collecting
variable {t : LockTables} {batch : List LockOp}

lemma start (hd : d.Coherent) : Collecting d.db (d, []) :=
  ⟨rfl, hd, by simp, by simp, by simp, by simp⟩

lemma append {s : DirectSendDb × List LockOp} (h : Collecting t s) (ops : List LockOp)
    (ho : ∀ hash l, .removeLock hash l ∉ ops) : Collecting t (s.1, s.2 ++ ops) := by
  have hmm {hash : Uint256} {l : DirectSendLock} (hm : .removeLock hash l ∈ s.2 ++ ops) :
      .removeLock hash l ∈ s.2 :=
    (List.mem_append.1 hm).resolve_right (ho hash l)
  exact ⟨h.db_eq, h.coherent, fun _ _ hm => h.stored _ _ (hmm hm), fun _ _ hm => h.lock _ _ (hmm hm),
    fun _ _ hm => h.txid _ _ (hmm hm), fun _ _ hm => h.input _ _ (hmm hm)⟩

variable {hash : Uint256}
variable (h : Collecting t (d, batch))
include h

lemma remove {islock : DirectSendLock} (hs : t.is_i[hash]? = some islock) :
    Collecting t ((d.getDirectSendLockByHash hash).2.removeDirectSendLock batch hash islock) := by
  obtain ⟨-, hb, hco⟩ := h.coherent.getDirectSendLockByHash hash
  have hc {h' : Uint256} {l : DirectSendLock}
      (hm : .removeLock h' l ∈ batch ++ [.removeLock hash islock]) :
      .removeLock h' l ∈ batch ∨ (h' = hash ∧ l = islock) := by
    simpa using hm
  refine ⟨hb.trans h.db_eq, hco.uncache hash islock, fun h' l hm => ?_, fun h' l hm => ?_,
    fun h' l hm => ?_, fun h' l hm o ho => ?_⟩
  · rcases hc hm with hm | ⟨rfl, rfl⟩
    exacts [h.stored h' l hm, hs]
  · change ((d.getDirectSendLockByHash hash).2.islockCache.erase hash).find h' = none
    rw [find_erase]
    split_ifs with he
    · rfl
    · rcases hc hm with hm | ⟨rfl, -⟩
      · exact find_readThrough_of_ne he (h.lock h' l hm)
      · exact absurd rfl he
  · change (d.txidCache.erase islock.txid).find l.txid = none
    rw [find_erase]
    split_ifs with he
    · rfl
    · rcases hc hm with hm | ⟨-, rfl⟩
      · exact h.txid h' l hm
      · exact absurd rfl he
  · change (islock.inputs.foldl (fun c o => c.erase o) d.outpointCache).find o = none
    rw [find_foldl_erase]
    split_ifs with hmm
    · rfl
    · rcases hc hm with hm | ⟨-, rfl⟩
      · exact h.input h' l hm o ho
      · exact absurd ho hmm

lemma read (hn : t.is_i[hash]? = none) :
    Collecting t ((d.getDirectSendLockByHash hash).2, batch) := by
  obtain ⟨-, hb, hc⟩ := h.coherent.getDirectSendLockByHash hash
  refine ⟨hb.trans h.db_eq, hc, h.stored, fun h' l hm => ?_, h.txid, h.input⟩
  have he : h' ≠ hash := by
    rintro rfl
    rw [h.stored h' l hm] at hn
    cases hn
  exact find_readThrough_of_ne he (h.lock h' l hm)

lemma getDirectSendLockByHash (hash : Uint256) :
    (d.getDirectSendLockByHash hash).1 = t.is_i[hash]? :=
  h.db_eq ▸ (h.coherent.getDirectSendLockByHash hash).1

lemma removeDirectSendLockByHash (hash : Uint256) :
    Collecting t (d.removeDirectSendLockByHash batch hash) := by
  unfold DirectSendDb.removeDirectSendLockByHash
  have hg := h.getDirectSendLockByHash hash
  cases hl : t.is_i[hash]? with
  | none =>
    rw [hl] at hg
    have hp : d.getDirectSendLockByHash hash = (none, (d.getDirectSendLockByHash hash).2) :=
      Prod.ext hg rfl
    rw [hp]
    exact h.read hl
  | some islock =>
    rw [hl] at hg
    have hp : d.getDirectSendLockByHash hash =
        (some islock, (d.getDirectSendLockByHash hash).2) := Prod.ext hg rfl
    rw [hp]
    exact h.remove hl

lemma write : Coherent { d with db := d.db.writeBatch batch } := by
  obtain rfl := h.db_eq
  refine ⟨h.coherent.locks.congr fun hash hn => ?_, h.coherent.txids.congr fun txid hn => ?_,
    h.coherent.inputs.congr fun o hn => ?_⟩
  · by_contra hf
    refine hn (ext fun l => is_i_writeBatch.trans ⟨And.left, fun hl =>
      ⟨hl, fun l' hm => hf (h.lock hash l' hm)⟩⟩)
  · by_contra hf
    refine hn (congrArg (getD · 0) (ext fun hash =>
      is_tx_writeBatch.trans ⟨And.left, fun hl => ⟨hl, fun h' l' hm he => ?_⟩⟩))
    exact hf (he ▸ h.txid h' l' hm)
  · by_contra hf
    refine hn (congrArg (getD · 0) (ext fun hash =>
      is_in_writeBatch.trans ⟨And.left, fun hl => ⟨hl, fun h' l' hm ho => ?_⟩⟩))
    exact hf (h.input h' l' hm o ho)

end Collecting

section Loops
variable {t : LockTables} {nHeight : Nat}

lemma Collecting.removeConfirmed {s : DirectSendDb × List LockOp} (h : Collecting t s)
    (key : Nat × Uint256) : Collecting t (removeConfirmed s key) :=
  (h.removeDirectSendLockByHash key.2).append _ (by simp)

lemma Collecting.foldl_removeConfirmed (keys : List (Nat × Uint256)) :
    ∀ {s : DirectSendDb × List LockOp}, Collecting t s →
      Collecting t (keys.foldl DirectSendDb.removeConfirmed s) := by
  induction keys with
  | nil => exact id
  | cons key keys ih => exact fun h => ih (h.removeConfirmed key)

inductive ChildRemoved (t : LockTables) (nHeight : Nat) (hash : Uint256) (s : Chained) :
    Chained → Prop where
  | unknown (hnone : t.is_i[hash]? = none) :
      ChildRemoved t nHeight hash s { s with d := (s.d.getDirectSendLockByHash hash).2 }
  | known (islock : DirectSendLock) (stack added : List Uint256)
      (hlock : t.is_i[hash]? = some islock)
      (hpush : (stack = s.stack ∧ added = s.added) ∨ (islock.txid ∉ s.added ∧
        stack = islock.txid :: s.stack ∧ added = islock.txid :: s.added)) :
      ChildRemoved t nHeight hash s
        { d := (s.d.getDirectSendLockByHash hash).2.uncache hash islock
          batch := s.batch ++ [.removeLock hash islock] ++ [.archive nHeight hash]
          result := s.result ++ [hash]
          stack := stack
          added := added }

variable {s : Chained}

lemma childRemoved (h : Collecting t (s.d, s.batch)) (nHeight : Nat) (hash : Uint256) :
    ChildRemoved t nHeight hash s (s.removeChild nHeight hash) := by
  have hg := h.getDirectSendLockByHash hash
  unfold Chained.removeChild
  cases hl : t.is_i[hash]? with
  | none =>
    have hp : s.d.getDirectSendLockByHash hash =
        (none, (s.d.getDirectSendLockByHash hash).2) := Prod.ext (hg.trans hl) rfl
    rw [hp]
    exact .unknown hl
  | some islock =>
    have hp : s.d.getDirectSendLockByHash hash =
        (some islock, (s.d.getDirectSendLockByHash hash).2) := Prod.ext (hg.trans hl) rfl
    rw [hp]
    dsimp only [removeDirectSendLock]
    split_ifs with ha
    · exact .known islock _ _ hl (.inl ⟨rfl, rfl⟩)
    · exact .known islock _ _ hl (.inr ⟨ha, rfl, rfl⟩)

/-- In the loop: the pushed transactions are those of stored locks, each once, and one more push
goes with one more transaction noted. -/
structure Chaining (t : LockTables) (n : Nat) (s : Chained) : Prop where
  collecting : Collecting t (s.d, s.batch)
  nodup : s.added.Nodup
  stored : ∀ txid ∈ s.added, ∃ (h : Uint256) (l : DirectSendLock),
    t.is_i[h]? = some l ∧ l.txid = txid
  length : s.stack.length + n = s.added.length + 1

variable {n : Nat}

lemma Chaining.removeChild (h : Chaining t n s) (hash : Uint256) :
    Chaining t n (s.removeChild nHeight hash) := by
  have hc := childRemoved h.collecting nHeight hash
  generalize s.removeChild nHeight hash = s' at hc ⊢
  cases hc with
  | unknown hn => exact ⟨h.collecting.read hn, h.nodup, h.stored, h.length⟩
  | known islock stack added hl hp =>
    have hcl := (h.collecting.remove hl).append [.archive nHeight hash] (by simp)
    rcases hp with ⟨rfl, rfl⟩ | ⟨hw, rfl, rfl⟩
    · exact ⟨hcl, h.nodup, h.stored, h.length⟩
    · refine ⟨hcl, List.nodup_cons.2 ⟨hw, h.nodup⟩, fun txid hm => ?_, ?_⟩
      · rcases List.mem_cons.1 hm with rfl | hm
        · exact ⟨hash, islock, hl, rfl⟩
        · exact h.stored txid hm
      · have := h.length
        simp only [List.length_cons]
        omega

lemma Chaining.foldl_removeChild (hashes : List Uint256) : ∀ {s : Chained} {n : Nat},
    Chaining t n s → Chaining t n (hashes.foldl (Chained.removeChild nHeight) s) := by
  induction hashes with
  | nil => exact id
  | cons hash hashes ih => exact fun h => ih (h.removeChild hash)

lemma Chaining.length_added_le (h : Chaining t n s) : s.added.length ≤ t.is_i.size := by
  have hs : s.added ⊆ (values t.is_i).map DirectSendLock.txid := by
    intro txid hm
    obtain ⟨hash, l, hl, rfl⟩ := h.stored txid hm
    exact List.mem_map.2 ⟨l, mem_values.2 ⟨hash, hl⟩, rfl⟩
  have := (h.nodup.subperm hs).length_le
  rwa [List.length_map, values, List.length_map, ExtTreeMap.length_toList] at this

lemma Chaining.loop (nHeight fuel : Nat) : ∀ {s : Chained} {n : Nat}, Chaining t n s →
    t.is_i.size + 1 ≤ n + fuel → ∃ n', Chaining t n' (Chained.loop nHeight fuel s) ∧
      (Chained.loop nHeight fuel s).stack = [] := by
  induction fuel with
  | zero =>
    intro s n h hn
    refine ⟨n, h, ?_⟩
    have h1 := h.length_added_le
    have h2 := h.length
    exact List.length_eq_zero_iff.1 (by change s.stack.length = 0; omega)
  | succ fuel ih =>
    intro s n h hn
    unfold Chained.loop
    cases hs : s.stack with
    | nil => exact ⟨n, h, hs⟩
    | cons txid stack =>
      have hp : Chaining t (n + 1) { s with stack := stack } := by
        refine ⟨h.collecting, h.nodup, h.stored, ?_⟩
        have := h.length
        rw [hs, List.length_cons] at this
        change stack.length + (n + 1) = s.added.length + 1
        omega
      exact ih (hp.foldl_removeChild _) (by omega)

lemma Coherent.chained (hd : d.Coherent) (txid : Uint256) (nHeight : Nat) :
    Collecting d.db ((d.chained txid nHeight).d, (d.chained txid nHeight).batch) ∧
      (d.chained txid nHeight).stack = [] := by
  have ht : Chaining d.db 0 { d := d, stack := [txid] } := ⟨.start hd, by simp, by simp, by simp⟩
  obtain ⟨n, h, hs⟩ := Chaining.loop nHeight (d.db.is_i.size + 1) ht (by omega)
  exact ⟨h.collecting, hs⟩

end Loops
end DirectSendDb

inductive LockDbOp where
  | writeNew (hash : Uint256) (islock : DirectSendLock)
  | writeMined (hash : Uint256) (nHeight : Nat)
  | removeMined (hash : Uint256) (nHeight : Nat)
  | removeConfirmed (nUntilHeight : Nat)
  | removeArchived (nUntilHeight : Nat)
  | removeChained (islockHash txid : Uint256) (nHeight : Nat)
  | getByHash (hash : Uint256)
  | getHashByTxid (txid : Uint256)
  | getByTxid (txid : Uint256)
  | getByInput (outpoint : OutPoint)

namespace DirectSendDb

def perform (d : DirectSendDb) : LockDbOp → DirectSendDb
  | .writeNew hash islock => d.writeNewDirectSendLock hash islock
  | .writeMined hash nHeight => d.writeDirectSendLockMined hash nHeight
  | .removeMined hash nHeight => d.removeDirectSendLockMined hash nHeight
  | .removeConfirmed nUntilHeight => d.removeConfirmedDirectSendLocks nUntilHeight
  | .removeArchived nUntilHeight => d.removeArchivedDirectSendLocks nUntilHeight
  | .removeChained islockHash txid nHeight =>
    (d.removeChainedDirectSendLocks islockHash txid nHeight).2
  | .getByHash hash => (d.getDirectSendLockByHash hash).2
  | .getHashByTxid txid => (d.getDirectSendLockHashByTxid txid).2
  | .getByTxid txid => (d.getDirectSendLockByTxid txid).2
  | .getByInput outpoint => (d.getDirectSendLockByInput outpoint).2

def after (d : DirectSendDb) (ops : List LockDbOp) : DirectSendDb := ops.foldl perform d

lemma Coherent.perform {d : DirectSendDb} (hd : d.Coherent) (op : LockDbOp) :
    (d.perform op).Coherent := by
  cases op with
  | writeNew hash islock => exact hd.writeNewDirectSendLock hash islock
  | writeMined | removeMined => exact ⟨hd.locks, hd.txids, hd.inputs⟩
  | removeConfirmed => exact (Collecting.foldl_removeConfirmed _ (.start hd)).write
  | removeArchived => exact ((Collecting.start hd).append _ (by simp)).write
  | removeChained islockHash txid nHeight =>
    exact (((hd.chained txid nHeight).1.removeDirectSendLockByHash islockHash).append _
      (by simp)).write
  | getByHash hash => exact (hd.getDirectSendLockByHash hash).2.2
  | getHashByTxid txid => exact (hd.getDirectSendLockHashByTxid txid).2.2
  | getByTxid txid => exact (hd.getDirectSendLockByTxid txid).2.2
  | getByInput outpoint => exact (hd.getDirectSendLockByInput outpoint).2.2

/-- After any operations, the caches agree with the tables, and the getters return what they would
with empty caches. -/
theorem caches_transparent (ops : List LockDbOp) : (after {} ops).Coherent ∧
    (∀ hash, ((after {} ops).getDirectSendLockByHash hash).1 =
      (getDirectSendLockByHash { db := (after {} ops).db } hash).1) ∧
    (∀ txid, ((after {} ops).getDirectSendLockHashByTxid txid).1 =
      (getDirectSendLockHashByTxid { db := (after {} ops).db } txid).1) ∧
    (∀ txid, ((after {} ops).getDirectSendLockByTxid txid).1 =
      (getDirectSendLockByTxid { db := (after {} ops).db } txid).1) ∧
    ∀ o, ((after {} ops).getDirectSendLockByInput o).1 =
      (getDirectSendLockByInput { db := (after {} ops).db } o).1 := by
  have hd : (after {} ops).Coherent :=
    List.foldlRecOn ops perform (.empty {}) fun _ hd op _ => hd.perform op
  have he := Coherent.empty (after {} ops).db
  refine ⟨hd, fun hash => ?_, fun txid => ?_, fun txid => ?_, fun o => ?_⟩
  · rw [(hd.getDirectSendLockByHash hash).1, (he.getDirectSendLockByHash hash).1]
  · rw [(hd.getDirectSendLockHashByTxid txid).1, (he.getDirectSendLockHashByTxid txid).1]
  · rw [(hd.getDirectSendLockByTxid txid).1, (he.getDirectSendLockByTxid txid).1]
  · rw [(hd.getDirectSendLockByInput o).1, (he.getDirectSendLockByInput o).1]

end DirectSendDb
end Trivechain.Llmq
