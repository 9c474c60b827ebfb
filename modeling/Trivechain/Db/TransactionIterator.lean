import Trivechain.Db.Transaction
import Trivechain.Lib.Cursor

/-!
# Iterators of the evo database

`CDBTransactionIterator` moves over the keys of a transaction and of its parent at once, skips the
parent's keys that the transaction deletes or overwrites, and takes the smaller current key. If the
parent's iterator, which may be of the same kind, enumerates the keys of the parent's view, then it
enumerates those of the view through the transaction.
-/

namespace Trivechain.Db
open Std (ExtTreeMap ExtTreeSet)
open List
variable [Serialization]

/-- The members of a `CDBTransactionIterator`. The write map's iterator is the list of the keys
left. -/
structure TransactionIterator (P : Type) where
  transactionIt : List DataStream
  parentIt : P
  parentKey : DataStream
  curIsParent : Bool

namespace TransactionIterator
variable {P : Type} (t : DbTransaction) (parent : Cursor P DataStream)

def Untouched (ssKey : DataStream) : Prop := ssKey ∉ t.deletes ∧ ssKey ∉ t.writes

instance : DecidablePred (Untouched t) := fun _ => inferInstanceAs (Decidable (_ ∧ _))

/-- The loop of `SkipDeletedAndOverwritten`. Each round but the last skips a key of the transaction.
-/
def skipLoop : Nat → P × DataStream → Run (P × DataStream)
  | 0, s => .ok s
  | rounds + 1, (parentIt, parentKey) =>
    if parent.valid parentIt then
      let parentKey := parent.getKey parentIt
      if Untouched t parentKey then .ok (parentIt, parentKey)
      else do
        let parentIt ← parent.next parentIt
        skipLoop rounds (parentIt, parentKey)
    else .ok (parentIt, parentKey)

variable (it : TransactionIterator P)

def skipDeletedAndOverwritten : Run (TransactionIterator P) := do
  let (parentIt, parentKey) ← skipLoop t parent (t.deletes.size + t.writes.size + 1)
    (it.parentIt, it.parentKey)
  return { it with parentIt, parentKey }

def decideCur : TransactionIterator P :=
  match it.transactionIt, parent.valid it.parentIt with
  | _ :: _, false => { it with curIsParent := false }
  | [], true => { it with curIsParent := true }
  | key :: _, true => { it with curIsParent := !before key it.parentKey }
  | [], false => it

def valid : Bool := !it.transactionIt.isEmpty || parent.valid it.parentIt

def getKey : DataStream :=
  if !it.valid parent then []
  else if it.curIsParent then it.parentKey
  else it.transactionIt.headD []

def next : Run (TransactionIterator P) :=
  if it.transactionIt.isEmpty && !parent.valid it.parentIt then .ok it
  else if it.curIsParent then do
    Run.ensure (parent.valid it.parentIt = true)
    let parentIt ← parent.next it.parentIt
    let it ← skipDeletedAndOverwritten t parent { it with parentIt }
    return it.decideCur parent
  else do
    Run.ensure (it.transactionIt ≠ [])
    return decideCur parent { it with transactionIt := it.transactionIt.tail }

def seek (ssKey : DataStream) : Run (TransactionIterator P) := do
  let transactionIt := t.writes.keys.dropWhile (before · ssKey)
  let parentIt ← parent.seek ssKey it.parentIt
  let it ← skipDeletedAndOverwritten t parent { it with transactionIt, parentIt }
  return it.decideCur parent

def seekToFirst : Run (TransactionIterator P) := do
  let transactionIt := t.writes.keys
  let parentIt ← parent.seekToFirst it.parentIt
  let it ← skipDeletedAndOverwritten t parent { it with transactionIt, parentIt }
  return it.decideCur parent

def cursor : Cursor (TransactionIterator P) DataStream where
  valid := valid parent
  getKey := getKey parent
  next := next t parent
  seek ssKey it := it.seek t parent ssKey
  seekToFirst := seekToFirst t parent

end TransactionIterator

open TransactionIterator

/-- `CDBIterator`, as the list of the keys left. Moving on from the end is undefined in leveldb. -/
def Wrapper.cursor (db : Wrapper) : Cursor (List DataStream) DataStream where
  valid it := !it.isEmpty
  getKey it := it.headD []
  next
    | [] => .error (.fault .undefined)
    | _ :: it => .ok it
  seek ssKey _ := .ok (db.keys.dropWhile (before · ssKey))
  seekToFirst _ := .ok db.keys

namespace Store

def Iterator : Store → Type
  | wrapper _ => List DataStream
  | transaction _ parent => TransactionIterator parent.Iterator

def cursor : (s : Store) → Cursor s.Iterator DataStream
  | wrapper db => db.cursor
  | transaction t parent => TransactionIterator.cursor t parent.cursor

def getValue (s : Store) (it : s.Iterator) (type : ValueType) : Except ReadError (Option Value) :=
  if !s.cursor.valid it then .ok none else s.read type (s.cursor.getKey it)

end Store

namespace TransactionIterator
variable {P : Type} {t : DbTransaction} {parent : Cursor P DataStream} {PHas : DataStream → Prop}
  (hP : parent.Enumerates PHas)

variable (t) in
/-- The keys of the view before which the iterator stands, with its parent's before the keys `lp`.
-/
def remaining (it : TransactionIterator P) (lp : List DataStream) : List DataStream :=
  it.transactionIt.merge (lp.filter (Untouched t ·)) before

variable (t) in
structure Stands (it : TransactionIterator P) (lp : List DataStream) : Prop where
  parentAt : hP.At it.parentIt lp
  ascending : Ascending it.transactionIt
  written : ∀ k ∈ it.transactionIt, k ∈ t.writes

variable (t) in
/-- What `SkipDeletedAndOverwritten` leaves: the parent's key is one of the view. -/
def Skipped (parentKey : DataStream) (lp : List DataStream) : Prop :=
  ∀ k l, lp = k :: l → Untouched t k ∧ parentKey = k

/-- What `DecideCur` leaves: the smaller key is the current one. -/
def Decided (it : TransactionIterator P) (lp : List DataStream) : Prop :=
  match it.transactionIt, lp with
  | _ :: _, [] => it.curIsParent = false
  | [], _ :: _ => it.curIsParent = true
  | a :: _, b :: _ => it.curIsParent = !before a b
  | [], [] => True

variable (t) in
/-- The iterator stands before the keys `l` of the view. -/
def At (it : TransactionIterator P) (l : List DataStream) : Prop :=
  ∃ lp, Stands t hP it lp ∧ Skipped t it.parentKey lp ∧ it.Decided lp ∧ l = it.remaining t lp

variable {hP}
variable {it : TransactionIterator P} {lp l : List DataStream} {k : DataStream}

lemma Stands.ascending_remaining (h : Stands t hP it lp) : Ascending (it.remaining t lp) := by
  refine h.ascending.merge ((hP.ascending h.parentAt).filter _) fun k hk hm => ?_
  have hu : Untouched t k := by simpa using (mem_filter.1 hm).2
  exact hu.2 (h.written k hk)

lemma Stands.of_transactionIt_suffix {ta : List DataStream} (h : Stands t hP it lp)
    (ht : ta <:+ it.transactionIt) : Stands t hP { it with transactionIt := ta } lp :=
  ⟨h.parentAt, h.ascending.sublist ht.sublist, fun k hk => h.written k (ht.subset hk)⟩

lemma skipLoop_spec (rounds : Nat) {parentIt : P} (parentKey : DataStream)
    (ha : hP.At parentIt lp) (hr : (lp.takeWhile (¬ Untouched t ·)).length < rounds) :
    ∃ parentIt' parentKey' lp', skipLoop t parent rounds (parentIt, parentKey) =
        .ok (parentIt', parentKey') ∧ hP.At parentIt' lp' ∧ Skipped t parentKey' lp' ∧
      lp'.filter (Untouched t ·) = lp.filter (Untouched t ·) := by
  induction rounds generalizing parentIt parentKey lp with
  | zero => simp at hr
  | succ rounds ih =>
    rw [skipLoop]
    cases lp with
    | nil =>
      have hv : parent.valid parentIt = false := by simpa using (hP.valid ha).not
      rw [if_neg (by simp [hv])]
      exact ⟨parentIt, parentKey, [], rfl, ha, by simp [Skipped], rfl⟩
    | cons k lp =>
      have hy := hP.getKey ha
      rw [if_pos ((hP.valid ha).2 (by simp))]
      dsimp only
      rw [hy]
      by_cases hk : Untouched t k
      · rw [if_pos hk]
        refine ⟨parentIt, k, k :: lp, rfl, ha, ?_, rfl⟩
        rintro _ _ he
        obtain ⟨rfl, -⟩ := List.cons.inj he
        exact ⟨hk, rfl⟩
      · obtain ⟨parentIt', hn, ha'⟩ := hP.next ha
        rw [if_neg hk, hn, Run.ok_bind]
        obtain ⟨p, pk, lp', hs, hp, hpk, hf⟩ := ih _ ha' (by
          simpa [takeWhile_cons, hk] using hr)
        exact ⟨p, pk, lp', hs, hp, hpk, by simp [hf, hk]⟩

lemma length_takeWhile_touched (h : Ascending lp) :
    (lp.takeWhile (¬ Untouched t ·)).length < t.deletes.size + t.writes.size + 1 := by
  have hs : lp.takeWhile (¬ Untouched t ·) ⊆ t.deletes.toList ++ t.writes.keys := by
    intro k hk
    have ht : ¬ Untouched t k := by simpa using mem_takeWhile_imp hk
    rw [mem_append, ExtTreeSet.mem_toList, ExtTreeMap.mem_keys]
    by_contra hnt
    exact ht (not_or.1 hnt)
  have hn : (lp.takeWhile (¬ Untouched t ·)).Nodup := h.nodup.sublist (takeWhile_sublist _)
  have hl := (subperm_of_subset hn hs).length_le
  rw [length_append, ExtTreeSet.length_toList, ExtTreeMap.length_keys] at hl
  omega

lemma decided_decideCur (ha : hP.At it.parentIt lp) (hs : Skipped t it.parentKey lp) :
    (it.decideCur parent).Decided lp := by
  have hv := hP.valid ha
  unfold decideCur
  cases ht : it.transactionIt with
  | nil =>
    cases lp with
    | nil => simp_all [Decided]
    | cons b lp => simp_all [Decided]
  | cons a ta =>
    cases lp with
    | nil => simp_all [Decided]
    | cons b lp =>
      obtain ⟨-, hk⟩ := hs b lp rfl
      simp_all [Decided]

section

omit [Serialization]

@[simp] lemma decideCur_transactionIt (it : TransactionIterator P) :
    (it.decideCur parent).transactionIt = it.transactionIt := by
  unfold decideCur; split <;> rfl

@[simp] lemma decideCur_parentIt (it : TransactionIterator P) :
    (it.decideCur parent).parentIt = it.parentIt := by
  unfold decideCur; split <;> rfl

@[simp] lemma decideCur_parentKey (it : TransactionIterator P) :
    (it.decideCur parent).parentKey = it.parentKey := by
  unfold decideCur; split <;> rfl

end

lemma at_decideCur (h : Stands t hP it lp) (hs : Skipped t it.parentKey lp) :
    At t hP (it.decideCur parent) (it.remaining t lp) := by
  refine ⟨lp, ⟨?_, ?_, ?_⟩, by simpa using hs, decided_decideCur h.parentAt hs, ?_⟩
  · simpa using h.parentAt
  · simpa using h.ascending
  · simpa using h.written
  · simp [remaining]

lemma exists_at_of_stands (h : Stands t hP it lp) : ∃ it', (do
      let it ← skipDeletedAndOverwritten t parent it
      return it.decideCur parent) = .ok it' ∧ At t hP it' (it.remaining t lp) := by
  obtain ⟨parentIt, parentKey, lp', hk, ha, hs, hf⟩ :=
    skipLoop_spec (t.deletes.size + t.writes.size + 1) it.parentKey h.parentAt
      (length_takeWhile_touched (hP.ascending h.parentAt))
  refine ⟨_, by simp only [skipDeletedAndOverwritten, hk, Run.ok_bind]; rfl, ?_⟩
  have ht : Stands t hP { it with parentIt, parentKey } lp' := ⟨ha, h.ascending, h.written⟩
  have hr : remaining t { it with parentIt, parentKey } lp' = it.remaining t lp := by
    simp only [remaining, hf]
  exact hr ▸ at_decideCur ht hs

lemma At.cases (h : At t hP it (k :: l)) : ∃ lp, Stands t hP it lp ∧ Skipped t it.parentKey lp ∧
      ((it.curIsParent = false ∧ ∃ ta, it.transactionIt = k :: ta ∧
          l = remaining t { it with transactionIt := ta } lp) ∨
        (it.curIsParent = true ∧ ∃ lp', lp = k :: lp' ∧ l = it.remaining t lp')) := by
  obtain ⟨lp, hst, hs, hd, he⟩ := h
  refine ⟨lp, hst, hs, ?_⟩
  unfold Decided at hd
  unfold remaining at he ⊢
  cases ht : it.transactionIt with
  | nil =>
    cases lp with
    | nil => simp [ht] at he
    | cons b lp =>
      obtain ⟨hb, -⟩ := hs b lp rfl
      rw [ht] at he hd
      rw [filter_cons_of_pos (by simpa using hb), nil_merge] at he
      obtain ⟨rfl, rfl⟩ := List.cons.inj he
      exact .inr ⟨hd, lp, rfl, by rw [nil_merge]⟩
  | cons a ta =>
    rw [ht] at he hd
    cases lp with
    | nil =>
      rw [filter_nil, merge_right] at he
      obtain ⟨rfl, rfl⟩ := List.cons.inj he
      exact .inl ⟨hd, l, rfl, by simp⟩
    | cons b lp =>
      obtain ⟨hb, -⟩ := hs b lp rfl
      rw [filter_cons_of_pos (by simpa using hb), cons_merge_cons] at he
      dsimp only at hd
      split_ifs at he with ha
      · obtain ⟨rfl, rfl⟩ := List.cons.inj he
        exact .inl ⟨by simp [hd, ha], ta, rfl, by
          rw [filter_cons_of_pos (by simpa using hb)]⟩
      · obtain ⟨rfl, rfl⟩ := List.cons.inj he
        exact .inr ⟨by simp [hd, ha], lp, rfl, rfl⟩

lemma At.valid (h : At t hP it l) : it.valid parent = true ↔ l ≠ [] := by
  obtain ⟨lp, ht, hs, -, rfl⟩ := h
  have hp := hP.valid ht.parentAt
  cases lp with
  | nil => simp_all [valid, remaining]
  | cons b lp =>
    obtain ⟨hb, -⟩ := hs b lp rfl
    have hm : b ∈ it.remaining t (b :: lp) := by simp [remaining, mem_merge, hb]
    simp [valid, hp, ne_nil_of_mem hm]

lemma At.getKey (h : At t hP it (k :: l)) : it.getKey parent = k := by
  have hv := h.valid.2 (by simp)
  obtain ⟨lp, -, hs, ⟨hc, ta, ht, -⟩ | ⟨hc, lp', rfl, -⟩⟩ := h.cases
  · simp [TransactionIterator.getKey, hv, hc, ht]
  · simp [TransactionIterator.getKey, hv, hc, (hs k lp' rfl).2]

lemma At.next (h : At t hP it (k :: l)) : ∃ it', it.next t parent = .ok it' ∧ At t hP it' l := by
  have hv := h.valid.2 (by simp)
  obtain ⟨lp, hs, hk, ⟨hc, ta, ht, rfl⟩ | ⟨hc, lp', rfl, rfl⟩⟩ := h.cases
  · refine ⟨decideCur parent { it with transactionIt := ta }, ?_,
      at_decideCur (hs.of_transactionIt_suffix (by simp [ht])) hk⟩
    have he := Run.ensure_pos (p := it.transactionIt ≠ []) (by simp [ht])
    simp only [next, hc, he, Run.ok_bind]
    simp [ht]
  · have hp : parent.valid it.parentIt = true := (hP.valid hs.parentAt).2 (by simp)
    obtain ⟨parentIt, hn, ha⟩ := hP.next hs.parentAt
    have hm : Stands t hP { it with parentIt } _ := ⟨ha, hs.ascending, hs.written⟩
    obtain ⟨it', hi', ha'⟩ := exists_at_of_stands hm
    refine ⟨it', ?_, ha'⟩
    rw [← hi', next, if_neg (by simp [hp]), if_pos hc,
      Run.ensure_pos hp, Run.ok_bind, hn, Run.ok_bind]

lemma isSome_overlay {f : DataStream → Option DataStream} :
    (t.overlay f k).isSome ↔ k ∈ t.writes ∨ (f k).isSome ∧ Untouched t k := by
  unfold DbTransaction.overlay Untouched
  have hd := t.disjoint k
  cases hw : t.writes[k]? with
  | none =>
    have hk : k ∉ t.writes := by simpa using hw
    by_cases hl : k ∈ t.deletes <;> simp [hk, hl]
  | some v =>
    have hk : k ∈ t.writes := ExtTreeMap.mem_iff_isSome_getElem?.2 (by simp [hw])
    simp [hk, hd hk]

omit [Serialization] in
lemma ascending_keys {V : Type} (m : ExtTreeMap DataStream V) : Ascending m.keys :=
  ExtTreeMap.ordered_keys.imp fun h => by simpa [before] using h

lemma exists_at_of_seek {f : DataStream → Option DataStream} (it : TransactionIterator P)
    {From : DataStream → Prop} (hat : hP.At it.parentIt lp)
    (hl : ∀ k, k ∈ lp ↔ (f k).isSome ∧ From k) (ha : Ascending it.transactionIt)
    (ht : ∀ k, k ∈ it.transactionIt ↔ k ∈ t.writes ∧ From k) : ∃ it' l, (do
      let it ← skipDeletedAndOverwritten t parent it
      return it.decideCur parent) = .ok it' ∧ At t hP it' l ∧
      ∀ k, k ∈ l ↔ (t.overlay f k).isSome ∧ From k := by
  have hs : Stands t hP it lp := ⟨hat, ha, fun k hk => ((ht k).1 hk).1⟩
  obtain ⟨it', ho, ha'⟩ := exists_at_of_stands hs
  refine ⟨it', _, ho, ha', fun k => ?_⟩
  rw [remaining, mem_merge, mem_filter, decide_eq_true_iff, ht, hl, isSome_overlay]
  tauto

/-- An iterator over an iterator that enumerates the parent's view enumerates the view through
the transaction. -/
def enumerates {f : DataStream → Option DataStream}
    (hP : parent.Enumerates fun k => (f k).isSome) :
    (cursor t parent).Enumerates fun k => (t.overlay f k).isSome where
  At := At t hP
  ascending := by
    rintro it l ⟨lp, hstands, -, -, rfl⟩
    exact hstands.ascending_remaining
  valid := At.valid
  getKey := At.getKey
  next := At.next
  seekFrom := by
    intro from? it
    obtain ⟨parentIt, lp, hseek, hat, hlp⟩ := hP.seekFrom from? it.parentIt
    cases from? with
    | none =>
      obtain ⟨it', l, hok, hat', hl⟩ := exists_at_of_seek (t := t)
        { it with transactionIt := t.writes.keys, parentIt } hat hlp
        (ascending_keys _) (by simp)
      refine ⟨it', l, ?_, hat', hl⟩
      exact (congrArg (· >>= _) hseek).trans hok
    | some k0 =>
      have hmem : ∀ k, k ∈ t.writes.keys.dropWhile (before · k0) ↔
          k ∈ t.writes ∧ (some k0).all (fun k0 => !before k k0) = true := by
        intro k
        rw [(ascending_keys t.writes).mem_dropWhile, ExtTreeMap.mem_keys]
        simp
      obtain ⟨it', l, hok, hat', hl⟩ := exists_at_of_seek (t := t)
        { it with transactionIt := t.writes.keys.dropWhile (before · k0), parentIt } hat hlp
        ((ascending_keys _).sublist (List.dropWhile_sublist _)) hmem
      refine ⟨it', l, ?_, hat', hl⟩
      exact (congrArg (· >>= _) hseek).trans hok

end TransactionIterator

def Wrapper.enumerates (db : Wrapper) : db.cursor.Enumerates fun k => (db[k]?).isSome where
  At it l := it = l ∧ Ascending l
  ascending := And.right
  valid := by
    rintro it l ⟨rfl, -⟩
    simp [Wrapper.cursor]
  getKey := by
    rintro it k l ⟨rfl, -⟩
    rfl
  next := by
    rintro it k l ⟨rfl, hl⟩
    exact ⟨l, rfl, rfl, hl.of_cons⟩
  seekFrom := by
    have hkeys := ascending_keys db
    intro from? it
    cases from? with
    | none => exact ⟨_, db.keys, rfl, ⟨rfl, hkeys⟩, by simp⟩
    | some k0 =>
      refine ⟨_, db.keys.dropWhile (before · k0), rfl,
        ⟨rfl, hkeys.sublist (List.dropWhile_sublist _)⟩, fun k => ?_⟩
      rw [hkeys.mem_dropWhile, ExtTreeMap.mem_keys]
      simp

namespace Store

/-- The iterators of a store enumerate the keys of its view, at any depth. -/
def enumerates : (s : Store) → s.cursor.Enumerates fun k => (s.view k).isSome
  | wrapper db => db.enumerates
  | transaction _ parent => TransactionIterator.enumerates parent.enumerates

end Store

/-- A loop over an iterator of stacked transactions, from any position and after any seek, ends and
visits the keys of the view from there on in order, with the values that `Read` returns. -/
theorem store_visits (s : Store) (from? : Option DataStream) (it : s.Iterator) :
    ∃ it' its, s.cursor.seekFrom from? it = .ok it' ∧ s.cursor.Visits it' its ∧
      Ascending (its.map s.cursor.getKey) ∧ (∀ k, k ∈ its.map s.cursor.getKey ↔
        (s.view k).isSome ∧ ∀ k0 ∈ from?, before k k0 = false) ∧
      ∀ pos ∈ its, ∀ type, s.getValue pos type = s.read type (s.cursor.getKey pos) := by
  obtain ⟨it', l, hs, ha, hl⟩ := s.enumerates.seekFrom from? it
  obtain ⟨its, hv, rfl⟩ := s.enumerates.visits ha
  refine ⟨it', its, hs, hv, s.enumerates.ascending ha, fun k => ?_, fun pos hp type => ?_⟩
  · rw [hl]
    cases from? <;> simp
  · have hvl : s.cursor.valid pos = true := hv.valid_of_mem hp
    simp [Store.getValue, hvl]

end Trivechain.Db

namespace Trivechain.Db.Stacked

local instance : Serialization := bytes

theorem layers_visited : ∃ it its, (layers.store .cur).cursor.Visits it its ∧
    ∀ k ∈ [[1], [2], [3]], k ∈ its.map (layers.store .cur).cursor.getKey ↔ k ≠ [1] := by
  obtain ⟨it, its, -, hv, -, hk, -⟩ := store_visits (layers.store .cur) none
    (TransactionIterator.mk [] (TransactionIterator.mk [] [] [] false) [] false)
  refine ⟨it, its, hv, fun k hm => (hk k).trans ?_⟩
  revert k
  decide +kernel

end Trivechain.Db.Stacked
