import Trivechain.Lib.Maps
import Trivechain.Lib.Run

/-!
# Transactions of the evo database

`CDBTransaction` collects writes and deletions over a parent, another transaction or the database.
Values in a transaction are objects and keep their type; values in the database are bytes. Through a
layer one sees the parent's map without the deleted keys and with the written ones.

`CEvoDB` stacks two transactions, the current one and the root transaction, over leveldb.
-/

namespace Trivechain.Db
open Std (ExtTreeMap ExtTreeSet)
open Run Maps Function

/-- Serialized keys and values, `CDataStream`. Keys are ordered byte by byte. -/
abbrev DataStream := List UInt8

/-- The objects that are stored, with their types. An object can be read back from its bytes. -/
class Serialization where
  ValueType : Type
  Value : Type
  decEq : DecidableEq ValueType
  typeOf : Value → ValueType
  serialize : Value → DataStream
  deserialize : ValueType → DataStream → Option Value
  deserialize_serialize : ∀ v, deserialize (typeOf v) (serialize v) = some v

export Serialization (ValueType Value typeOf serialize deserialize)

instance [Serialization] : DecidableEq ValueType := Serialization.decEq

/-- `std::runtime_error("Read called with V != previously written type")` -/
inductive ReadError where
  | otherType
deriving DecidableEq, Repr

variable [Serialization]

/-- `CDBTransaction`, without the references to the parent and to the commit target. -/
structure DbTransaction where
  writes : ExtTreeMap DataStream Value
  deletes : ExtTreeSet DataStream
  memoryUsage : Int
  disjoint : ∀ k ∈ writes, k ∉ deletes

namespace DbTransaction

def clear : DbTransaction :=
  { writes := ∅, deletes := ∅, memoryUsage := 0, disjoint := by simp }

variable (t : DbTransaction)

def isClean : Bool := t.writes.isEmpty && t.deletes.isEmpty

def writeUsage (ssKey : DataStream) : Int :=
  match t.writes[ssKey]? with
  | some v => ssKey.length + (serialize v).length
  | none => 0

def write (ssKey : DataStream) (v : Value) : DbTransaction where
  writes := t.writes.insert ssKey v
  deletes := t.deletes.erase ssKey
  memoryUsage := t.memoryUsage - (if ssKey ∈ t.deletes then (ssKey.length : Int) else 0)
    - t.writeUsage ssKey + (ssKey.length + (serialize v).length)
  disjoint := by
    intro k hk
    rw [ExtTreeMap.mem_insert] at hk
    rw [ExtTreeSet.mem_erase]
    rintro ⟨hne, hdel⟩
    exact hk.elim hne fun hk => t.disjoint k hk hdel

def erase (ssKey : DataStream) : DbTransaction where
  writes := t.writes.erase ssKey
  deletes := t.deletes.insert ssKey
  memoryUsage := t.memoryUsage - t.writeUsage ssKey
    + (if ssKey ∈ t.deletes then 0 else (ssKey.length : Int))
  disjoint := by
    intro k hk
    rw [ExtTreeMap.mem_erase] at hk
    rw [ExtTreeSet.mem_insert]
    rintro (heq | hdel)
    · exact hk.1 heq
    · exact t.disjoint k hk.2 hdel

/-- `Read`, where `parent` reads from the parent. -/
def read (parent : ValueType → DataStream → Except ReadError (Option Value)) (type : ValueType)
    (ssKey : DataStream) : Except ReadError (Option Value) :=
  if ssKey ∈ t.deletes then .ok none
  else
    match t.writes[ssKey]? with
    | some v => if typeOf v = type then .ok (some v) else .error .otherType
    | none => parent type ssKey

def «exists» (parent : DataStream → Bool) (ssKey : DataStream) : Bool :=
  if ssKey ∈ t.deletes then false
  else if ssKey ∈ t.writes then true
  else parent ssKey

def overlay (parent : DataStream → Option DataStream) (ssKey : DataStream) : Option DataStream :=
  if ssKey ∈ t.deletes then none
  else
    match t.writes[ssKey]? with
    | some v => some (serialize v)
    | none => parent ssKey

end DbTransaction

open DbTransaction

class CommitTarget (σ : Type) where
  erase : σ → DataStream → σ
  write : σ → DataStream → Value → σ

/-- `Commit`, without the call of `Clear`. -/
def DbTransaction.commitTo {σ : Type} [CommitTarget σ] (t : DbTransaction) (commitTarget : σ) : σ :=
  t.writes.toList.foldl (fun s p => CommitTarget.write s p.1 p.2)
    (t.deletes.toList.foldl CommitTarget.erase commitTarget)

instance : CommitTarget DbTransaction where
  erase := erase
  write := write

inductive BatchOp where
  | erase (ssKey : DataStream)
  | write (ssKey ssValue : DataStream)
deriving DecidableEq, Repr

abbrev Batch := List BatchOp

instance : CommitTarget Batch where
  erase batch ssKey := batch ++ [.erase ssKey]
  write batch ssKey v := batch ++ [.write ssKey (serialize v)]

abbrev Wrapper := ExtTreeMap DataStream DataStream

def BatchOp.apply (db : Wrapper) : BatchOp → Wrapper
  | .erase ssKey => db.erase ssKey
  | .write ssKey ssValue => db.insert ssKey ssValue

namespace Wrapper
variable (db : Wrapper)

def writeBatch (batch : Batch) : Wrapper := batch.foldl BatchOp.apply db

/-- `CDBWrapper::Read`: bytes that do not decode are not found. -/
def read (type : ValueType) (ssKey : DataStream) : Except ReadError (Option Value) :=
  .ok (db[ssKey]?.bind (deserialize type))

def «exists» (ssKey : DataStream) : Bool := db.contains ssKey

end Wrapper

inductive Store where
  | wrapper (db : Wrapper)
  | transaction (t : DbTransaction) (parent : Store)

namespace Store

def view : Store → DataStream → Option DataStream
  | wrapper db => fun ssKey => db[ssKey]?
  | transaction t parent => t.overlay parent.view

def read : Store → ValueType → DataStream → Except ReadError (Option Value)
  | wrapper db => db.read
  | transaction t parent => t.read parent.read

def «exists» : Store → DataStream → Bool
  | wrapper db => db.exists
  | transaction t parent => t.exists parent.exists

lemma exists_eq (s : Store) (ssKey : DataStream) : s.exists ssKey = (s.view ssKey).isSome := by
  induction s with
  | wrapper db => simp [Store.exists, Wrapper.exists, view]
  | transaction t parent ih =>
    simp only [Store.exists, DbTransaction.exists, view, DbTransaction.overlay]
    by_cases hd : ssKey ∈ t.deletes
    · simp [hd]
    · rw [if_neg hd, if_neg hd, ih]
      cases hw : t.writes[ssKey]? with
      | none => rw [if_neg (by simpa using hw)]
      | some v => rw [if_pos (ExtTreeMap.mem_iff_isSome_getElem?.2 (by simp [hw]))]; rfl

/-- An answer to a read: what the visible bytes decode to. A visible object of another type is an
error. -/
def Answers (visible : Option DataStream) (type : ValueType) :
    Except ReadError (Option Value) → Prop
  | .ok value => value = visible.bind (deserialize type)
  | .error .otherType => ∃ v, visible = some (serialize v) ∧ typeOf v ≠ type

lemma answers_read (s : Store) (type : ValueType) (ssKey : DataStream) :
    Answers (s.view ssKey) type (s.read type ssKey) := by
  induction s with
  | wrapper db => simp [Store.read, Wrapper.read, view, Answers]
  | transaction t parent ih =>
    simp only [Store.read, DbTransaction.read, view, DbTransaction.overlay]
    by_cases hd : ssKey ∈ t.deletes
    · simp [hd, Answers]
    · rw [if_neg hd, if_neg hd]
      cases t.writes[ssKey]? with
      | none => exact ih
      | some v =>
        dsimp only
        split_ifs with ht
        · subst ht
          exact (Serialization.deserialize_serialize v).symm
        · exact ⟨v, rfl, ht⟩

end Store

structure CommitTarget.Shows {σ : Type} [CommitTarget σ]
    (show? : σ → DataStream → Option DataStream) : Prop where
  erase : ∀ s ssKey, show? (CommitTarget.erase s ssKey) = Function.update (show? s) ssKey none
  write : ∀ s ssKey v,
    show? (CommitTarget.write s ssKey v) = Function.update (show? s) ssKey (some (serialize v))

namespace DbTransaction

/-- What a commit changes: the deleted keys lose their bytes, the written ones get new bytes. -/
def updates (t : DbTransaction) : List (DataStream × Option DataStream) :=
  t.deletes.toList.map (fun ssKey => (ssKey, none)) ++
    t.writes.toList.map fun p => (p.1, some (serialize p.2))

variable {t : DbTransaction}

lemma mem_updates {ssKey : DataStream} {value : Option DataStream} :
    (ssKey, value) ∈ t.updates ↔ (ssKey ∈ t.deletes ∧ value = none) ∨
      ∃ v, t.writes[ssKey]? = some v ∧ value = some (serialize v) := by
  simp only [updates, List.mem_append, List.mem_map, Prod.mk.injEq, Prod.exists,
    ExtTreeMap.mem_toList_iff_getElem?_eq_some, ExtTreeSet.mem_toList]
  constructor
  · rintro (⟨k, hk, rfl, rfl⟩ | ⟨k, v, hv, rfl, rfl⟩)
    · exact .inl ⟨hk, rfl⟩
    · exact .inr ⟨v, hv, rfl⟩
  · rintro (⟨hk, rfl⟩ | ⟨v, hv, rfl⟩)
    · exact .inl ⟨ssKey, hk, rfl, rfl⟩
    · exact .inr ⟨ssKey, v, hv, rfl, rfl⟩

lemma nodup_updates : (t.updates.map Prod.fst).Nodup := by
  have hk : t.updates.map Prod.fst = t.deletes.toList ++ t.writes.keys := by
    simp only [updates, List.map_append, List.map_map, ← ExtTreeMap.map_fst_toList_eq_keys]
    congr 1
    exact List.map_id _
  rw [hk]
  refine List.Nodup.append ?_ ExtTreeMap.nodup_keys fun k hd hw => ?_
  · refine List.Pairwise.imp ?_ ExtTreeSet.distinct_toList
    rintro a _ hn rfl
    exact hn Std.ReflCmp.compare_self
  · exact t.disjoint k (ExtTreeMap.mem_keys.1 hw) (ExtTreeSet.mem_toList.1 hd)

lemma overlay_eq_foldl (f : DataStream → Option DataStream) :
    t.overlay f = t.updates.foldl (fun f p => Function.update f p.1 p.2) f := by
  funext k
  obtain ⟨hi, ho⟩ := foldl_update nodup_updates f k
  rw [overlay]
  split_ifs with hd
  · exact (hi none (mem_updates.2 (.inl ⟨hd, rfl⟩))).symm
  · cases hw : t.writes[k]? with
    | some v => exact (hi _ (mem_updates.2 (.inr ⟨v, hw, rfl⟩))).symm
    | none =>
      refine (ho fun hm => ?_).symm
      obtain ⟨⟨_, value⟩, hp, rfl⟩ := List.mem_map.1 hm
      rcases mem_updates.1 hp with ⟨h, -⟩ | ⟨v, h, -⟩
      · exact hd h
      · simp [hw] at h

lemma show_commitTo {σ : Type} [CommitTarget σ] {show? : σ → DataStream → Option DataStream}
    (h : CommitTarget.Shows show?) (s : σ) : show? (t.commitTo s) = t.overlay (show? s) := by
  rw [overlay_eq_foldl, updates, List.foldl_append, List.foldl_map, List.foldl_map,
    List.foldl_hom show? fun s k => (h.erase s k).symm,
    List.foldl_hom show? fun s p => (h.write s p.1 p.2).symm]
  rfl

end DbTransaction

lemma DbTransaction.overlay_of_isClean {t : DbTransaction} (h : t.isClean)
    (f : DataStream → Option DataStream) : t.overlay f = f := by
  obtain ⟨hw, hd⟩ : t.writes = ∅ ∧ t.deletes = ∅ := by simpa [isClean] using h
  funext k
  simp [overlay, hw, hd]

lemma DbTransaction.overlay_clear (f : DataStream → Option DataStream) :
    clear.overlay f = f := overlay_of_isClean (by simp [clear, isClean]) f

lemma DbTransaction.shows (f : DataStream → Option DataStream) :
    CommitTarget.Shows fun t : DbTransaction => t.overlay f where
  erase t k := by
    funext a
    simp only [CommitTarget.erase, erase, overlay, ExtTreeSet.mem_insert,
      Std.LawfulEqCmp.compare_eq_iff_eq, getElem?_erase, update_apply]
    by_cases ha : a = k
    · simp [ha]
    · simp [ha, Ne.symm ha]
  write t k v := by
    funext a
    simp only [CommitTarget.write, write, overlay, ExtTreeSet.mem_erase, ne_eq,
      Std.LawfulEqCmp.compare_eq_iff_eq, getElem?_insert, update_apply]
    by_cases ha : a = k
    · simp [ha]
    · simp [ha, Ne.symm ha]

lemma Wrapper.shows (db : Wrapper) :
    CommitTarget.Shows fun (batch : Batch) ssKey => (db.writeBatch batch)[ssKey]? where
  erase batch k := by
    funext a
    simp [CommitTarget.erase, writeBatch, BatchOp.apply, getElem?_erase, update_apply]
  write batch k v := by
    funext a
    simp [CommitTarget.write, writeBatch, BatchOp.apply, getElem?_insert, update_apply]

/-- `CEvoDB`. The member `rootBatch` is only used inside `CommitRootTransaction`, and is local
there. -/
structure EvoDb where
  db : Wrapper
  rootDBTransaction : DbTransaction
  curDBTransaction : DbTransaction

inductive Layer where
  | root | cur
deriving DecidableEq, Repr

namespace EvoDb

variable (s : EvoDb)

def transaction : Layer → DbTransaction
  | .root => s.rootDBTransaction
  | .cur => s.curDBTransaction

def setTransaction (t : DbTransaction) : Layer → EvoDb
  | .root => { s with rootDBTransaction := t }
  | .cur => { s with curDBTransaction := t }

def parent : Layer → Store
  | .root => .wrapper s.db
  | .cur => .transaction s.rootDBTransaction (.wrapper s.db)

def store (layer : Layer) : Store := .transaction (s.transaction layer) (s.parent layer)

def commitRootTransaction : Run EvoDb := do
  Run.ensure (s.curDBTransaction.isClean = true)
  let rootBatch : Batch := s.rootDBTransaction.commitTo []
  return { s with db := s.db.writeBatch rootBatch, rootDBTransaction := .clear }

def commit : Layer → Run EvoDb
  | .root => s.commitRootTransaction
  | .cur => return { s with
      rootDBTransaction := s.curDBTransaction.commitTo s.rootDBTransaction
      curDBTransaction := .clear }

/-- `CScopedDBTransaction::Begin` on the current transaction. -/
def beginTransaction : Run EvoDb := do
  Run.ensure (s.curDBTransaction.isClean = true)
  return s

/-- `CScopedDBTransaction::Rollback` on the current transaction. -/
def rollback : EvoDb := s.setTransaction .clear .cur

def read (layer : Layer) : ValueType → DataStream → Except ReadError (Option Value) :=
  (s.store layer).read

def «exists» (layer : Layer) : DataStream → Bool := (s.store layer).exists

def view (layer : Layer) : DataStream → Option DataStream := (s.store layer).view

def viewBelow (layer : Layer) : DataStream → Option DataStream := (s.parent layer).view

end EvoDb

inductive EvoDbOp where
  | write (layer : Layer) (ssKey : DataStream) (v : Value)
  | erase (layer : Layer) (ssKey : DataStream)
  | read (layer : Layer) (type : ValueType) (ssKey : DataStream)
  | exists (layer : Layer) (ssKey : DataStream)
  | clear (layer : Layer)
  | commit (layer : Layer)

namespace EvoDb

def step (s : EvoDb) : EvoDbOp → Run EvoDb
  | .write layer ssKey v => .ok (s.setTransaction ((s.transaction layer).write ssKey v) layer)
  | .erase layer ssKey => .ok (s.setTransaction ((s.transaction layer).erase ssKey) layer)
  | .read _ _ _ | .exists _ _ => .ok s
  | .clear layer => .ok (s.setTransaction .clear layer)
  | .commit layer => s.commit layer

def run (s : EvoDb) (ops : List EvoDbOp) : Run EvoDb := ops.foldlM step s

/-- A `CScopedDBTransaction` that goes out of scope without a commit. -/
def abandonedScope (s : EvoDb) (ops : List EvoDbOp) : Run EvoDb := do
  let s ← s.beginTransaction
  let s ← s.run ops
  return s.rollback

end EvoDb

/-- What happens in a scope that is not committed: the root transaction is at most flushed. -/
def EvoDbOp.InScope : EvoDbOp → Prop
  | .write layer _ _ | .erase layer _ | .clear layer => layer = .cur
  | .read _ _ _ | .exists _ _ => True
  | .commit layer => layer = .root

namespace EvoDb
variable {s s' : EvoDb}

lemma view_eq (layer : Layer) :
    s.view layer = (s.transaction layer).overlay (s.viewBelow layer) := rfl

lemma commit_root (h : s.commit .root = .ok s') :
    s'.viewBelow .root = s.view .root ∧ s'.view .root = s.view .root := by
  obtain ⟨_, _, hs'⟩ := bind_ok.1 h
  cases hs'
  have hb : ∀ k : DataStream, (s.db.writeBatch (s.rootDBTransaction.commitTo []))[k]? =
      s.view .root k := fun k => congrFun (show_commitTo s.db.shows []) k
  refine ⟨funext hb, ?_⟩
  rw [view_eq]
  exact (overlay_clear _).trans (funext hb)

lemma commit_cur (h : s.commit .cur = .ok s') :
    s'.viewBelow .cur = s.view .cur ∧ s'.view .cur = s.view .cur := by
  cases h
  have hb := show_commitTo (t := s.curDBTransaction) (shows (s.viewBelow .root)) s.rootDBTransaction
  refine ⟨hb, ?_⟩
  rw [view_eq]
  exact (overlay_clear _).trans hb

lemma view_commit {layer : Layer} (hc : layer = .root → s.curDBTransaction.isClean = true) :
    ∃ s', s.commit layer = .ok s' ∧ s'.view layer = s.view layer ∧
      s'.viewBelow layer = s.view layer := by
  cases layer with
  | root =>
    obtain ⟨s', ho⟩ : ∃ s', s.commit .root = .ok s' := by
      simp [commit, commitRootTransaction, ensure_pos (hc rfl)]
    obtain ⟨hb, hv⟩ := commit_root ho
    exact ⟨s', ho, hv, hb⟩
  | cur =>
    obtain ⟨hb, hv⟩ := commit_cur (s := s) rfl
    exact ⟨_, rfl, hv, hb⟩

lemma viewBelow_step {op : EvoDbOp} (ho : op.InScope) (h : s.step op = .ok s') :
    s'.viewBelow .cur = s.viewBelow .cur := by
  cases op with
  | write layer ssKey v => cases ho; cases h; rfl
  | erase layer ssKey => cases ho; cases h; rfl
  | clear layer => cases ho; cases h; rfl
  | read layer type ssKey => cases h; rfl
  | «exists» layer ssKey => cases h; rfl
  | commit layer => cases ho; exact (commit_root h).2

lemma viewBelow_run {ops : List EvoDbOp} (hp : ∀ op ∈ ops, op.InScope)
    (h : s.run ops = .ok s') : s'.viewBelow .cur = s.viewBelow .cur := by
  induction ops generalizing s with
  | nil => cases h; rfl
  | cons op ops ih =>
    obtain ⟨s1, hs, h⟩ := bind_ok.1 h
    rw [ih (fun o ho => hp o (by simp [ho])) h, viewBelow_step (hp op (by simp)) hs]

lemma view_abandonedScope {ops : List EvoDbOp} (ho : ∀ op ∈ ops, op.InScope)
    (h : s.abandonedScope ops = .ok s') (layer : Layer) : s'.view layer = s.view layer := by
  obtain ⟨s1, hg, h⟩ := bind_ok.1 h
  obtain ⟨s2, hr, hs'⟩ := bind_ok.1 h
  obtain ⟨_, hc, hs1⟩ := bind_ok.1 hg
  cases hs1
  cases hs'
  have hb := viewBelow_run ho hr
  cases layer with
  | root => exact hb
  | cur =>
    calc s2.rollback.view .cur = s2.viewBelow .cur := overlay_clear _
      _ = s.viewBelow .cur := hb
      _ = s.view .cur :=
        (overlay_of_isClean (ensure_ok.1 hc) (s.viewBelow .cur)).symm

end EvoDb

/-- The evo database is a stack of maps: in every state, no key of a layer is both written and
deleted; reads through a layer answer from the layer over what lies below; a commit leaves the view
through the layer as it is and hands it down; and a scope left without a commit leaves no trace. -/
theorem evoDb_layers (s : EvoDb) :
    (∀ layer, ∀ k ∈ (s.transaction layer).writes, k ∉ (s.transaction layer).deletes) ∧
    (∀ layer, s.view layer = (s.transaction layer).overlay (s.viewBelow layer) ∧
      (∀ k, s.exists layer k = (s.view layer k).isSome) ∧
      ∀ type k, Store.Answers (s.view layer k) type (s.read layer type k)) ∧
    (∀ layer, (layer = .root → s.curDBTransaction.isClean = true) →
      ∃ s', s.commit layer = .ok s' ∧ s'.view layer = s.view layer ∧
        s'.viewBelow layer = s.view layer) ∧
    (∀ ops s', (∀ op ∈ ops, op.InScope) → s.abandonedScope ops = .ok s' →
      ∀ layer, s'.view layer = s.view layer) := by
  refine ⟨fun layer => (s.transaction layer).disjoint, fun layer => ⟨rfl, ?_, ?_⟩,
    fun layer => EvoDb.view_commit, fun ops s' ho h => EvoDb.view_abandonedScope ho h⟩
  · exact Store.exists_eq (s.store layer)
  · exact Store.answers_read (s.store layer)

end Trivechain.Db

namespace Trivechain.Db.Stacked
open Std (ExtTreeMap)

/-- Objects are their type and their bytes. -/
@[reducible] def bytes : Serialization where
  ValueType := Bool
  Value := Bool × DataStream
  decEq := inferInstance
  typeOf := Prod.fst
  serialize := Prod.snd
  deserialize type ssValue := some (type, ssValue)
  deserialize_serialize _ := rfl

local instance : Serialization := bytes

def layers : EvoDb where
  db := (ExtTreeMap.empty.insert [1] [7]).insert [2] [8]
  rootDBTransaction := .erase .clear [1]
  curDBTransaction := .write .clear [3] (true, [9])

theorem layers_committed : ∃ s', layers.commit .cur = .ok s' ∧
    [[1], [2], [3]].map (s'.viewBelow .cur) = [none, some [8], some [9]] := by
  obtain ⟨s', hs, -, hb⟩ := (evoDb_layers layers).2.2.1 .cur (by simp)
  refine ⟨s', hs, ?_⟩
  rw [hb]
  decide +kernel

end Trivechain.Db.Stacked
