import Trivechain.Evo.TableHash

/-!
# Transactions without a lock

`CDirectSendManager` tracks the transactions that are neither locked nor in a chainlocked block. A
parent of a tracked transaction has an entry too, perhaps as a placeholder, and
`nonLockedTxsByInputs` finds the transactions by what they spend. Neither is always kept up: a
placeholder that becomes an entry is not added to the index, an entry that was removed comes back
without its children, and removal by outpoint takes along what belongs to conflicting transactions.
-/

namespace Trivechain.Llmq
open Evo
open Std (ExtTreeMap ExtTreeSet)
open Maps Encodable OutPoint

structure NonLockedTxInfo where
  pindexMined : Option BlockIndex := none
  tx : Option Transaction := none
  children : ExtTreeSet Uint256 := ∅

abbrev NonLockedMap := ExtTreeMap Uint256 NonLockedTxInfo

abbrev InputEntry := Uint256 × Nat × Uint256

structure NonLocked where
  nonLockedTxs : NonLockedMap := ∅
  nonLockedTxsByInputs : List InputEntry := []
  pendingRetryTxs : ExtTreeSet Uint256 := ∅

/-- `nonLockedTxs[parent].children.emplace(child)` -/
def NonLockedMap.addChild (txs : NonLockedMap) (parent child : Uint256) : NonLockedMap :=
  let info := (txs[parent]?).getD {}
  txs.insert parent { info with children := info.children.insert child }

def NonLockedMap.removeChild (txs : NonLockedMap) (parent child : Uint256) : NonLockedMap :=
  match txs[parent]? with
  | none => txs
  | some info =>
    let info := { info with children := info.children.erase child }
    if info.tx.isNone && info.children.isEmpty then txs.erase parent else txs.insert parent info

/-- What `SyncTransaction` reads of the rest of the node. -/
structure SyncContext where
  isNewDirectSendEnabled : Bool
  inMempool : Bool
  isBlockchainSynced : Bool
  /-- There is a lock for the transaction in the database. -/
  hasLock : Bool
  hasChainLock : Bool

/-- What `SyncTransaction` does to the tracked transactions. -/
inductive SyncAction where
  | nothing
  | removeConflicted
  | track (pindexMined : Option BlockIndex)
  | untrack

/-- `posInBlock` is `none` for `SYNC_TRANSACTION_NOT_IN_BLOCK`. -/
def syncAction (ctx : SyncContext) (tx : Transaction) (pindex : Option BlockIndex)
    (posInBlock : Option Nat) : SyncAction :=
  if !ctx.isNewDirectSendEnabled then .nothing
  else if tx.isCoinBase || tx.vin.isEmpty then .nothing
  else
    let isDisconnect := pindex.isSome && posInBlock.isNone
    let isConflictRemoved := isDisconnect && !ctx.inMempool
    if isConflictRemoved then .removeConflicted
    else if !ctx.isBlockchainSynced then .nothing
    else
      let chainlocked := pindex.isSome && ctx.hasChainLock
      if !chainlocked && !ctx.hasLock then .track (if isDisconnect then none else pindex)
      else .untrack

namespace NonLocked
variable [ChainHash] (s : NonLocked)

def addNonLockedTx (tx : Transaction) : NonLocked :=
  let hash := tx.getHash
  let info := (s.nonLockedTxs[hash]?).getD {}
  { s with
    nonLockedTxs :=
      if info.tx.isNone then
        tx.vin.foldl (fun txs txin => txs.addChild txin.hash hash)
          (s.nonLockedTxs.insert hash { info with tx := some tx })
      else s.nonLockedTxs
    nonLockedTxsByInputs :=
      -- only a new entry, not a placeholder that was there
      if s.nonLockedTxs[hash]?.isNone then
        s.nonLockedTxsByInputs ++ tx.vin.map fun txin => (txin.hash, txin.n, hash)
      else s.nonLockedTxsByInputs }

def removeNonLockedTx (txid : Uint256) (retryChildren : Bool) : NonLocked :=
  match s.nonLockedTxs[txid]? with
  | none => s
  | some info =>
    let vin := (info.tx.map Transaction.vin).getD []
    { nonLockedTxs :=
        (vin.foldl (fun txs txin => txs.removeChild txin.hash txid) s.nonLockedTxs).erase txid
      nonLockedTxsByInputs :=
        -- whoever spends the outpoint
        s.nonLockedTxsByInputs.filter fun e => ⟨e.1, e.2.1⟩ ∉ vin
      pendingRetryTxs :=
        if retryChildren then info.children.toList.foldl (fun r c => r.insert c) s.pendingRetryTxs
        else s.pendingRetryTxs }

def removeConflictedTx (tx : Transaction) : NonLocked := s.removeNonLockedTx tx.getHash false

/-- `nonLockedTxs.at(hash).pindexMined = pindexMined` -/
def setMined (hash : Uint256) (pindexMined : Option BlockIndex) : NonLocked :=
  match s.nonLockedTxs[hash]? with
  | none => s
  | some info => { s with nonLockedTxs := s.nonLockedTxs.insert hash { info with pindexMined } }

def syncTransaction (ctx : SyncContext) (tx : Transaction) (pindex : Option BlockIndex)
    (posInBlock : Option Nat) : NonLocked :=
  match syncAction ctx tx pindex posInBlock with
  | .nothing => s
  | .removeConflicted => s.removeConflictedTx tx
  | .track pindexMined => (s.addNonLockedTx tx).setMined tx.getHash pindexMined
  | .untrack => s.removeNonLockedTx tx.getHash true

/-- What `ResolveBlockConflicts` collects for a lock. -/
def blockConflicts (islockTxid : Uint256) (inputs : List OutPoint) :
    List (BlockIndex × Uint256 × Transaction) :=
  inputs.flatMap fun txin =>
    s.nonLockedTxsByInputs.filterMap fun e =>
      if e.1 ≠ txin.hash then none
      else if e.2.1 ≠ txin.n then none
      else if e.2.2 = islockTxid then none
      else
        match s.nonLockedTxs[e.2.2]? with
        | none => none
        | some info =>
          match info.pindexMined, info.tx with
          | some pindexMined, some tx => some (pindexMined, e.2.2, tx)
          | _, _ => none

end NonLocked

namespace NonLockedMap
variable {txs : NonLockedMap} {p c parent child txid : Uint256}

def txOf (txs : NonLockedMap) (txid : Uint256) : Option Transaction :=
  (txs[txid]?).bind NonLockedTxInfo.tx

def Tracked (txs : NonLockedMap) (p : Uint256) : Prop := txs[p]?.isSome

def IsChild (txs : NonLockedMap) (p c : Uint256) : Prop :=
  ∃ info, txs[p]? = some info ∧ c ∈ info.children

lemma IsChild.tracked (h : txs.IsChild p c) : txs.Tracked p := by
  obtain ⟨info, hi, -⟩ := h
  rw [Tracked, hi]
  rfl

lemma getElem?_addChild : (txs.addChild parent child)[p]? =
    if p = parent then some { (txs[parent]?).getD {} with
      children := ((txs[parent]?).getD {}).children.insert child } else txs[p]? := by
  rw [addChild, getElem?_insert]

lemma txOf_addChild : (txs.addChild parent child).txOf txid = txs.txOf txid := by
  rw [txOf, getElem?_addChild]
  split_ifs with hp
  · rw [hp, txOf]
    cases txs[parent]? <;> rfl
  · rfl

lemma tracked_addChild : (txs.addChild parent child).Tracked p ↔ txs.Tracked p ∨ p = parent := by
  rw [Tracked, getElem?_addChild]
  split_ifs with hp
  · simp [hp]
  · simp [hp, Tracked]

lemma isChild_addChild :
    (txs.addChild parent child).IsChild p c ↔ txs.IsChild p c ∨ (p = parent ∧ c = child) := by
  rw [IsChild, getElem?_addChild]
  split_ifs with hp
  · rw [hp, IsChild]
    cases h : txs[parent]? with
    | none => simp [-ExtTreeSet.mem_insert, mem_insert]
    | some info => simp [-ExtTreeSet.mem_insert, mem_insert, or_comm]
  · simp [hp, IsChild]

section Fold
variable {vin : List OutPoint}

lemma txOf_foldl_addChild :
    (vin.foldl (fun txs txin => addChild txs txin.hash child) txs).txOf txid = txs.txOf txid := by
  induction vin generalizing txs with
  | nil => rfl
  | cons txin vin ih => rw [List.foldl_cons, ih, txOf_addChild]

lemma tracked_foldl_addChild :
    (vin.foldl (fun txs txin => addChild txs txin.hash child) txs).Tracked p ↔
      txs.Tracked p ∨ p ∈ vin.map hash := by
  induction vin generalizing txs with
  | nil => simp
  | cons txin vin ih =>
    rw [List.foldl_cons, ih, tracked_addChild, List.map_cons, List.mem_cons, or_assoc]

lemma isChild_foldl_addChild :
    (vin.foldl (fun txs txin => addChild txs txin.hash child) txs).IsChild p c ↔
      txs.IsChild p c ∨ (p ∈ vin.map hash ∧ c = child) := by
  induction vin generalizing txs with
  | nil => simp
  | cons txin vin ih =>
    rw [List.foldl_cons, ih, isChild_addChild, List.map_cons, List.mem_cons]
    tauto

end Fold

lemma txOf_removeChild : (txs.removeChild parent child).txOf txid = txs.txOf txid := by
  rw [removeChild]
  cases h : txs[parent]? with
  | none => rfl
  | some info =>
    dsimp only
    split_ifs with he
    · rw [txOf, txOf, getElem?_erase]
      split_ifs with hp
      · have ht : info.tx = none := by simpa using (Bool.and_eq_true_iff.1 he).1
        rw [hp, h, Option.bind_none, Option.bind_some, ht]
      · rfl
    · rw [txOf, txOf, getElem?_insert]
      split_ifs with hp
      · rw [hp, h]
        rfl
      · rfl

lemma Tracked.of_removeChild (h : (txs.removeChild parent child).Tracked p) : txs.Tracked p := by
  rw [removeChild] at h
  cases hr : txs[parent]? with
  | none =>
    rw [hr] at h
    exact h
  | some info =>
    rw [hr] at h
    dsimp only at h
    by_cases hp : p = parent
    · rw [hp, Tracked, hr]
      rfl
    · split_ifs at h
      · rwa [Tracked, getElem?_erase, if_neg hp] at h
      · rwa [Tracked, getElem?_insert, if_neg hp] at h

lemma isChild_removeChild (h : txs.IsChild p c) (hc : c ≠ child) :
    (txs.removeChild parent child).IsChild p c := by
  obtain ⟨info, hi, hm⟩ := h
  rw [removeChild]
  by_cases hp : p = parent
  · have hm' : c ∈ info.children.erase child := mem_erase.2 ⟨hc, hm⟩
    have hn : (info.children.erase child).isEmpty = false := by
      refine Bool.eq_false_iff.2 fun he => ?_
      rw [ExtTreeSet.isEmpty_iff.1 he] at hm'
      exact ExtTreeSet.not_mem_empty hm'
    rw [← hp, hi]
    dsimp only
    rw [hn, Bool.and_false, if_neg Bool.false_ne_true]
    exact ⟨_, by rw [getElem?_insert, if_pos rfl], hm'⟩
  · cases hr : txs[parent]? with
    | none => exact ⟨info, hi, hm⟩
    | some info' =>
      dsimp only
      split_ifs
      · exact ⟨info, by rw [getElem?_erase, if_neg hp, hi], hm⟩
      · exact ⟨info, by rw [getElem?_insert, if_neg hp, hi], hm⟩

section Fold
variable {vin : List OutPoint}

lemma txOf_foldl_removeChild :
    (vin.foldl (fun txs txin => removeChild txs txin.hash child) txs).txOf txid =
      txs.txOf txid := by
  induction vin generalizing txs with
  | nil => rfl
  | cons txin vin ih => rw [List.foldl_cons, ih, txOf_removeChild]

lemma Tracked.of_foldl_removeChild
    (h : (vin.foldl (fun txs txin => removeChild txs txin.hash child) txs).Tracked p) :
    txs.Tracked p := by
  induction vin generalizing txs with
  | nil => exact h
  | cons txin vin ih => exact (ih h).of_removeChild

lemma isChild_foldl_removeChild (h : txs.IsChild p c) (hc : c ≠ child) :
    (vin.foldl (fun txs txin => removeChild txs txin.hash child) txs).IsChild p c := by
  induction vin generalizing txs with
  | nil => exact h
  | cons txin vin ih => exact ih (isChild_removeChild h hc)

end Fold

def setTx (txs : NonLockedMap) (tx : Transaction) (txid : Uint256) : NonLockedMap :=
  txs.insert txid { (txs[txid]?).getD {} with tx := some tx }

variable {tx : Transaction}

lemma txOf_setTx {x : Uint256} :
    (txs.setTx tx txid).txOf x = if x = txid then some tx else txs.txOf x := by
  rw [txOf, setTx, getElem?_insert]
  split_ifs <;> rfl

lemma tracked_setTx : (txs.setTx tx txid).Tracked p ↔ txs.Tracked p ∨ p = txid := by
  rw [Tracked, setTx, getElem?_insert]
  split_ifs with hp
  · simp [hp]
  · simp [hp, Tracked]

lemma isChild_setTx : (txs.setTx tx txid).IsChild p c ↔ txs.IsChild p c := by
  rw [IsChild, setTx, getElem?_insert]
  split_ifs with hp
  · rw [hp, IsChild]
    cases h : txs[txid]? <;> simp
  · rfl

lemma txOf_erase {x : Uint256} :
    txOf (txs.erase txid) x = if x = txid then none else txs.txOf x := by
  rw [txOf, getElem?_erase]
  split_ifs <;> rfl

lemma tracked_erase : Tracked (txs.erase txid) p ↔ txs.Tracked p ∧ p ≠ txid := by
  rw [Tracked, getElem?_erase]
  split_ifs with hp
  · simp [hp]
  · simp [hp, Tracked]

lemma isChild_erase (h : txs.IsChild p c) (hp : p ≠ txid) : IsChild (txs.erase txid) p c := by
  obtain ⟨info, hi, hm⟩ := h
  exact ⟨info, by rw [getElem?_erase, if_neg hp, hi], hm⟩

end NonLockedMap

open NonLockedMap

namespace NonLocked

/-- The index finds exactly the tracked transactions, and they are children of their parents. -/
structure Exact (s : NonLocked) : Prop where
  byInputs : ∀ (h : Uint256) (n : Nat) (txid : Uint256), (h, n, txid) ∈ s.nonLockedTxsByInputs ↔
    ∃ tx, s.nonLockedTxs.txOf txid = some tx ∧ ⟨h, n⟩ ∈ tx.vin
  children : ∀ (txid : Uint256) (tx : Transaction) (p : Uint256),
    s.nonLockedTxs.txOf txid = some tx → p ∈ tx.vin.map hash →
    s.nonLockedTxs.Tracked p → s.nonLockedTxs.IsChild p txid

variable [ChainHash] {s : NonLocked} {tx : Transaction} {txid : Uint256}

/-- A transaction can be added if it is no placeholder, and no tracked transaction spends an output
of it or of a parent that has no entry. -/
def CanAdd (s : NonLocked) (tx : Transaction) : Prop :=
  s.nonLockedTxs.txOf tx.getHash = none →
    (s.nonLockedTxs.Tracked tx.getHash → tx.vin = []) ∧
    ∀ p, p = tx.getHash ∨ p ∈ tx.vin.map hash → ¬ s.nonLockedTxs.Tracked p →
      ∀ c t, s.nonLockedTxs.txOf c = some t → p ∉ t.vin.map hash

/-- A transaction can be removed if no other tracked transaction spends what it spends. -/
def CanRemove (s : NonLocked) (txid : Uint256) : Prop :=
  ∀ tx, s.nonLockedTxs.txOf txid = some tx → ∀ c t, c ≠ txid →
    s.nonLockedTxs.txOf c = some t → ∀ o ∈ tx.vin, o ∉ t.vin

lemma addNonLockedTx_eq_self {t : Transaction} (h : s.nonLockedTxs.txOf tx.getHash = some t) :
    s.addNonLockedTx tx = s := by
  obtain ⟨info, hi, ht⟩ := Option.bind_eq_some_iff.1 h
  simp [addNonLockedTx, hi, ht]

lemma addNonLockedTx_txs (h : s.nonLockedTxs.txOf tx.getHash = none) :
    (s.addNonLockedTx tx).nonLockedTxs =
      tx.vin.foldl (fun txs txin => addChild txs txin.hash tx.getHash)
        (s.nonLockedTxs.setTx tx tx.getHash) := by
  have hn : ((s.nonLockedTxs[tx.getHash]?).getD {}).tx.isNone = true := by
    rw [txOf] at h
    cases hg : s.nonLockedTxs[tx.getHash]? with
    | none => rfl
    | some info =>
      rw [hg, Option.bind_some] at h
      rw [Option.getD_some, h]
      rfl
  rw [addNonLockedTx]
  dsimp only
  rw [if_pos hn]
  rfl

lemma mem_addNonLockedTx {e : InputEntry} : e ∈ (s.addNonLockedTx tx).nonLockedTxsByInputs ↔
    e ∈ s.nonLockedTxsByInputs ∨ (¬ s.nonLockedTxs.Tracked tx.getHash ∧
      ⟨e.1, e.2.1⟩ ∈ tx.vin ∧ e.2.2 = tx.getHash) := by
  obtain ⟨h, n, x⟩ := e
  rw [addNonLockedTx, NonLockedMap.Tracked]
  dsimp only
  cases s.nonLockedTxs[tx.getHash]? with
  | none =>
    rw [if_pos Option.isNone_none, List.mem_append, List.mem_map]
    refine or_congr_right ⟨?_, ?_⟩
    · rintro ⟨txin, hm, he⟩
      obtain ⟨rfl, rfl, rfl⟩ : _ ∧ _ ∧ _ := by simpa only [Prod.mk.injEq] using he
      exact ⟨Bool.false_ne_true, hm, rfl⟩
    · rintro ⟨-, hm, rfl⟩
      exact ⟨⟨h, n⟩, hm, rfl⟩
  | some info => simp

lemma Exact.add_iff (h : s.Exact) : (s.addNonLockedTx tx).Exact ↔ s.CanAdd tx := by
  cases htx : s.nonLockedTxs.txOf tx.getHash with
  | some t =>
    rw [addNonLockedTx_eq_self htx]
    exact iff_of_true h fun hnn => by simp [htx] at hnn
  | none =>
    have hs := addNonLockedTx_txs htx
    have hf : ∀ x, (s.addNonLockedTx tx).nonLockedTxs.txOf x =
        if x = tx.getHash then some tx else s.nonLockedTxs.txOf x := fun x => by
      rw [hs, txOf_foldl_addChild, txOf_setTx]
    have hr : ∀ p, (s.addNonLockedTx tx).nonLockedTxs.Tracked p ↔
        s.nonLockedTxs.Tracked p ∨ p = tx.getHash ∨ p ∈ tx.vin.map hash := fun p => by
      rw [hs, tracked_foldl_addChild, tracked_setTx, or_assoc]
    have hh : ∀ p c, (s.addNonLockedTx tx).nonLockedTxs.IsChild p c ↔
        s.nonLockedTxs.IsChild p c ∨ (p ∈ tx.vin.map hash ∧ c = tx.getHash) := fun p c => by
      rw [hs, isChild_foldl_addChild, isChild_setTx]
    have hold : ∀ {x t}, s.nonLockedTxs.txOf x = some t → x ≠ tx.getHash := by
      rintro x t hx rfl
      cases htx.symm.trans hx
    refine ⟨fun h' _ => ⟨fun hl => ?_, fun p hp hn c t hc hm => ?_⟩, fun ha => ?_⟩
    · -- the entries of a placeholder are missing
      refine List.eq_nil_iff_forall_not_mem.2 fun o ho => ?_
      have hm := (h'.byInputs o.hash o.n tx.getHash).2 ⟨tx, by rw [hf, if_pos rfl], ho⟩
      rcases mem_addNonLockedTx.1 hm with hm | ⟨hnt, -⟩
      · obtain ⟨t, ht, -⟩ := (h.byInputs _ _ _).1 hm
        cases htx.symm.trans ht
      · exact hnt hl
    · -- a new entry does not know its children
      have hcn := hold hc
      have := h'.children c t p (by rw [hf, if_neg hcn, hc]) hm
        ((hr p).2 (.inr hp))
      rcases (hh p c).1 this with hi | ⟨-, rfl⟩
      · exact hn hi.tracked
      · exact hcn rfl
    · obtain ⟨hl, hpr⟩ := ha htx
      refine ⟨fun hash n x => ?_, fun x t p hx hm hp => ?_⟩
      · rw [mem_addNonLockedTx, h.byInputs, hf]
        split_ifs with hx
        · rw [hx, htx]
          constructor
          · rintro (⟨t, ht, -⟩ | ⟨-, hm, -⟩)
            · cases ht
            · exact ⟨tx, rfl, hm⟩
          · rintro ⟨t, ht, hm⟩
            cases ht
            refine .inr ⟨fun hp => ?_, hm, rfl⟩
            rw [hl hp] at hm
            exact List.not_mem_nil hm
        · simp [hx]
      · rw [hf] at hx
        rw [hh]
        split_ifs at hx with he
        · cases hx
          exact .inr ⟨hm, he⟩
        · refine .inl ?_
          by_contra hnt
          have hn : ¬ s.nonLockedTxs.Tracked p := fun ht => hnt (h.children x t p hx hm ht)
          exact hpr p (((hr p).1 hp).resolve_left hn) hn x t hx hm

omit [ChainHash] in
lemma Exact.remove_iff (h : s.Exact) (retryChildren : Bool) :
    (s.removeNonLockedTx txid retryChildren).Exact ↔ s.CanRemove txid := by
  rw [removeNonLockedTx]
  cases hg : s.nonLockedTxs[txid]? with
  | none =>
    refine iff_of_true h fun tx htx => ?_
    rw [txOf, hg] at htx
    cases htx
  | some info =>
    have hof : s.nonLockedTxs.txOf txid = info.tx := by rw [txOf, hg]; rfl
    dsimp only
    obtain ⟨vin, hv⟩ : ∃ vin, vin = (info.tx.map Transaction.vin).getD [] := ⟨_, rfl⟩
    rw [← hv]
    have hf : ∀ x, txOf ((vin.foldl (fun txs txin =>
        removeChild txs txin.hash txid) s.nonLockedTxs).erase txid) x =
        if x = txid then none else s.nonLockedTxs.txOf x := fun x => by
      rw [txOf_erase, txOf_foldl_removeChild]
    have hmm : ∀ tx, s.nonLockedTxs.txOf txid = some tx → vin = tx.vin := fun tx htx => by
      rw [hv, ← hof, htx]
      rfl
    refine ⟨fun h' tx htx c t hc ht o ho hot => ?_, fun hcn => ⟨fun hash n x => ?_, ?_⟩⟩
    · -- the entry of the other transaction is gone
      have hm := (h'.byInputs o.hash o.n c).2 ⟨t, by rw [hf, if_neg hc, ht], hot⟩
      have hn := of_decide_eq_true (List.mem_filter.1 hm).2
      rw [hmm tx htx] at hn
      exact hn ho
    · dsimp only
      rw [List.mem_filter, h.byInputs, hf]
      constructor
      · rintro ⟨⟨t, ht, hm⟩, hk⟩
        have hk := of_decide_eq_true hk
        have hx : x ≠ txid := by
          rintro rfl
          rw [hmm t ht] at hk
          exact hk hm
        exact ⟨t, by rw [if_neg hx, ht], hm⟩
      · rintro ⟨t, ht, hm⟩
        split_ifs at ht with hx
        refine ⟨⟨t, ht, hm⟩, decide_eq_true fun hi => ?_⟩
        cases htx : s.nonLockedTxs.txOf txid with
        | none =>
          rw [hv, ← hof, htx] at hi
          exact List.not_mem_nil hi
        | some tx =>
          rw [hmm tx htx] at hi
          exact hcn tx htx x t hx ht _ hi hm
    · intro x t p hx hm hp
      dsimp only at hx hp ⊢
      rw [hf] at hx
      split_ifs at hx with he
      obtain ⟨hr, hpn⟩ := tracked_erase.1 hp
      have hh := h.children x t p hx hm hr.of_foldl_removeChild
      exact isChild_erase (isChild_foldl_removeChild hh he) hpn

omit [ChainHash] in
lemma exact_setMined_iff {hash : Uint256} {pindexMined : Option BlockIndex} :
    (s.setMined hash pindexMined).Exact ↔ s.Exact := by
  rw [setMined]
  cases hg : s.nonLockedTxs[hash]? with
  | none => rfl
  | some info =>
    obtain ⟨txs, htx⟩ : ∃ txs, txs = s.nonLockedTxs.insert hash { info with pindexMined } :=
      ⟨_, rfl⟩
    have hl : ∀ x : Uint256, txs[x]? = s.nonLockedTxs[x]? ∨
        ∃ i, s.nonLockedTxs[x]? = some i ∧ txs[x]? = some { i with pindexMined } := by
      intro x
      rw [htx, getElem?_insert]
      split_ifs with hx
      · exact .inr ⟨info, hx ▸ hg, rfl⟩
      · exact .inl rfl
    have ht : ∀ x, txOf txs x = s.nonLockedTxs.txOf x := fun x => by
      rcases hl x with h | ⟨i, h, h'⟩
      · rw [txOf, h, txOf]
      · rw [txOf, h', txOf, h]
        rfl
    have hr : ∀ p, NonLockedMap.Tracked txs p ↔ s.nonLockedTxs.Tracked p := fun p => by
      rcases hl p with h | ⟨i, h, h'⟩
      · rw [NonLockedMap.Tracked, h, NonLockedMap.Tracked]
      · rw [NonLockedMap.Tracked, h', NonLockedMap.Tracked, h]
        rfl
    have hc : ∀ p c, NonLockedMap.IsChild txs p c ↔ s.nonLockedTxs.IsChild p c := fun p c => by
      rcases hl p with h | ⟨i, h, h'⟩
      · rw [NonLockedMap.IsChild, h, NonLockedMap.IsChild]
      · rw [NonLockedMap.IsChild, h', NonLockedMap.IsChild, h]
        simp
    dsimp only
    rw [← htx]
    refine ⟨fun h => ⟨fun hash n x => ?_, fun x t p hx hm hp => ?_⟩,
      fun h => ⟨fun hash n x => ?_, fun x t p hx hm hp => ?_⟩⟩
    · rw [h.byInputs, ht]
    · exact (hc p x).1 (h.children x t p ((ht x).trans hx) hm ((hr p).2 hp))
    · rw [h.byInputs, ht]
    · exact (hc p x).2 (h.children x t p ((ht x).symm.trans hx) hm ((hr p).1 hp))

omit [ChainHash] in
lemma Exact.finds_conflicts (h : s.Exact) {islockTxid c : Uint256} {inputs : List OutPoint}
    {info : NonLockedTxInfo} {pindexMined : BlockIndex} {t : Transaction} {o : OutPoint}
    (hc : s.nonLockedTxs[c]? = some info) (hm : info.pindexMined = some pindexMined)
    (ht : info.tx = some t) (hn : c ≠ islockTxid) (ho : o ∈ inputs) (hs : o ∈ t.vin) :
    (pindexMined, c, t) ∈ s.blockConflicts islockTxid inputs := by
  have hf : s.nonLockedTxs.txOf c = some t := by
    rw [txOf, hc]
    exact ht
  refine List.mem_flatMap.2 ⟨o, ho, List.mem_filterMap.2 ⟨(o.hash, o.n, c),
    (h.byInputs o.hash o.n c).2 ⟨t, hf, hs⟩, ?_⟩⟩
  simp [hn, hc, hm, ht]

end NonLocked

inductive NonLockedEvent where
  | addNonLockedTx (tx : Transaction)
  | removeNonLockedTx (txid : Uint256) (retryChildren : Bool)
  | removeConflictedTx (tx : Transaction)
  | syncTransaction (ctx : SyncContext) (tx : Transaction) (pindex : Option BlockIndex)
      (posInBlock : Option Nat)

namespace NonLocked
variable [ChainHash] {s : NonLocked}

def handle (s : NonLocked) : NonLockedEvent → NonLocked
  | .addNonLockedTx tx => s.addNonLockedTx tx
  | .removeNonLockedTx txid retryChildren => s.removeNonLockedTx txid retryChildren
  | .removeConflictedTx tx => s.removeConflictedTx tx
  | .syncTransaction ctx tx pindex posInBlock => s.syncTransaction ctx tx pindex posInBlock

def Can (s : NonLocked) : NonLockedEvent → Prop
  | .addNonLockedTx tx => s.CanAdd tx
  | .removeNonLockedTx txid _ => s.CanRemove txid
  | .removeConflictedTx tx => s.CanRemove tx.getHash
  | .syncTransaction ctx tx pindex posInBlock =>
    match syncAction ctx tx pindex posInBlock with
    | .nothing => True
    | .removeConflicted => s.CanRemove tx.getHash
    | .track _ => s.CanAdd tx
    | .untrack => s.CanRemove tx.getHash

lemma Exact.step_iff (h : s.Exact) (e : NonLockedEvent) : (s.handle e).Exact ↔ s.Can e := by
  cases e with
  | addNonLockedTx tx => exact h.add_iff
  | removeNonLockedTx txid retryChildren => exact h.remove_iff retryChildren
  | removeConflictedTx tx => exact h.remove_iff false
  | syncTransaction ctx tx pindex posInBlock =>
    rw [handle, syncTransaction, Can]
    cases syncAction ctx tx pindex posInBlock with
    | nothing => exact iff_of_true h trivial
    | removeConflicted => exact h.remove_iff false
    | track pindexMined => exact exact_setMined_iff.trans h.add_iff
    | untrack => exact h.remove_iff true

/-- The index and the children are exact all along a run precisely if every transaction is added and
removed when it can be; then every conflict with a lock is found. -/
theorem exact_along_iff (events : List NonLockedEvent) :
    ((∀ pre post, events = pre ++ post → (pre.foldl handle ({} : NonLocked)).Exact) ↔
      ∀ pre e post, events = pre ++ e :: post → (pre.foldl handle ({} : NonLocked)).Can e) ∧
    ∀ s : NonLocked, s.Exact → ∀ (islockTxid c : Uint256) (inputs : List OutPoint)
      (info : NonLockedTxInfo) (pindexMined : BlockIndex) (t : Transaction) (o : OutPoint),
      s.nonLockedTxs[c]? = some info → info.pindexMined = some pindexMined → info.tx = some t →
      c ≠ islockTxid → o ∈ inputs → o ∈ t.vin →
      (pindexMined, c, t) ∈ s.blockConflicts islockTxid inputs := by
  have he : ({} : NonLocked).Exact := ⟨by simp [txOf], by simp [txOf]⟩
  refine ⟨Run.foldl_invariant_iff (I := Exact) (fun s e h => h.step_iff e) he, ?_⟩
  exact fun s h _ _ _ _ _ _ _ hc hm ht hn ho hs =>
    h.finds_conflicts hc hm ht hn ho hs

end NonLocked

structure TxIn where
  prevout : OutPoint
  scriptSig : List Nat
  nSequence : Nat

structure InputRequests where
  nonLocked : NonLocked := {}
  inputRequestIds : ExtTreeSet Uint256 := ∅

variable (serializeHash : List Nat → Uint256)

/-- `SerializeHash` of the prefix and an outpoint. -/
def inputRequestId (o : OutPoint) : Uint256 :=
  serializeHash ("inlock".toList.map Char.toNat ++ [o.hash, o.n])

/-- `SerializeHash` of the prefix and an input. -/
def TxIn.requestId (txin : TxIn) : Uint256 :=
  serializeHash ("inlock".toList.map Char.toNat ++ [txin.prevout.hash, txin.prevout.n] ++
    txin.scriptSig.length :: txin.scriptSig ++ [txin.nSequence])

namespace InputRequests

/-- The second loop of `ProcessTx`. -/
def processTx (s : InputRequests) (vin : List TxIn) : InputRequests where
  nonLocked := s.nonLocked
  inputRequestIds := vin.foldl
    (fun ids txin => ids.insert (inputRequestId serializeHash txin.prevout)) s.inputRequestIds

def removeConflictedTx [ChainHash] (s : InputRequests) (tx : Transaction) (vin : List TxIn) :
    InputRequests where
  nonLocked := s.nonLocked.removeConflictedTx tx
  inputRequestIds :=
    (vin.map (TxIn.requestId serializeHash)).foldl ExtTreeSet.erase s.inputRequestIds

/-- `HandleNewRecoveredSig` calls `HandleNewInputLockRecoveredSig`. -/
def handlesInput (s : InputRequests) (id msgHash : Uint256) : Bool :=
  s.inputRequestIds.contains id && msgHash != 0

variable [ChainHash] {serializeHash} (hinj : Function.Injective serializeHash) (s : InputRequests)
  (tx : Transaction) (vin : List TxIn)
include hinj

lemma mem_removeConflictedTx (o : OutPoint) :
    inputRequestId serializeHash o ∈ (s.removeConflictedTx serializeHash tx vin).inputRequestIds ↔
      inputRequestId serializeHash o ∈ s.inputRequestIds := by
  rw [removeConflictedTx, mem_foldl_erase, and_iff_left]
  intro hm
  obtain ⟨txin, -, he⟩ := List.mem_map.1 hm
  have hl := congrArg List.length (hinj he)
  simp at hl

/-- The ids of a transaction are gone after its removal only if there were none. -/
theorem ids_removed_iff : ((∀ txin ∈ vin, inputRequestId serializeHash txin.prevout ∉
        (s.removeConflictedTx serializeHash tx vin).inputRequestIds) ∧
      (∀ o ∉ vin.map TxIn.prevout, inputRequestId serializeHash o ∈ s.inputRequestIds →
        inputRequestId serializeHash o ∈
          (s.removeConflictedTx serializeHash tx vin).inputRequestIds) ∧
      ∀ txin ∈ vin, ∀ msgHash, (s.removeConflictedTx serializeHash tx vin).handlesInput
        (inputRequestId serializeHash txin.prevout) msgHash = false) ↔
    ∀ txin ∈ vin, inputRequestId serializeHash txin.prevout ∉ s.inputRequestIds := by
  have hm := mem_removeConflictedTx hinj s tx vin
  simp only [hm]
  refine ⟨And.left, fun h => ⟨h, fun _ _ ho => ho, fun txin ht msgHash => ?_⟩⟩
  have hn := mt (hm txin.prevout).1 (h txin ht)
  rw [handlesInput, Bool.eq_false_iff.2 (mt ExtTreeSet.contains_iff_mem.1 hn), Bool.false_and]

end InputRequests

namespace Placeholder

def parent : Transaction := { nVersion := 1, payload := .normal, vin := [⟨90, 0⟩], vout := [] }
def child : Transaction := { nVersion := 1, payload := .normal, vin := [⟨1, 0⟩], vout := [] }

local instance : ChainHash := tableHash [parent, child] []

def block : BlockIndex := { block := { vtx := [] } }

def ctx : SyncContext := ⟨true, true, true, false, false⟩

/-- The child is seen first, and the parent when it is mined. -/
def events : List NonLockedEvent :=
  [.syncTransaction ctx child none none, .syncTransaction ctx parent (some block) (some 1)]

def tracked : NonLocked := events.foldl NonLocked.handle {}

/-- The parent is tracked and mined, and nothing is found for a lock of its input. -/
theorem mined_parent_not_found :
    (tracked.nonLockedTxs[1]?).map (fun info => (info.pindexMined, info.tx)) =
      some (some block, some parent) ∧
    tracked.blockConflicts 9 [⟨90, 0⟩] = [] ∧ ¬ tracked.Exact := by
  have hp : (tracked.nonLockedTxs[1]?).map (fun info => (info.pindexMined, info.tx)) =
      some (some block, some parent) := by decide +kernel
  have hf : tracked.blockConflicts 9 [⟨90, 0⟩] = [] := by decide +kernel
  refine ⟨hp, hf, fun he => ?_⟩
  obtain ⟨info, hi, hq⟩ := Option.map_eq_some_iff.1 hp
  obtain ⟨hm, ht⟩ := Prod.mk.inj hq
  have := he.finds_conflicts hi hm ht (by decide : (1 : Uint256) ≠ 9)
    (List.mem_singleton_self ⟨90, 0⟩) (List.mem_singleton_self _)
  rw [hf] at this
  exact List.not_mem_nil this

def txin : TxIn := ⟨⟨90, 0⟩, [], 0xffffffff⟩

def request : InputRequests := InputRequests.processTx encode {} [txin]

/-- A signature for the input of a removed transaction is still handled. -/
theorem id_of_removed : (request.removeConflictedTx encode parent [txin]).handlesInput
    (inputRequestId encode txin.prevout) 1 = true := by
  have hm := (InputRequests.mem_removeConflictedTx encode_injective request parent
    [txin] txin.prevout).2 (mem_insert.2 (.inl rfl))
  rw [InputRequests.handlesInput, ExtTreeSet.contains_iff_mem.2 hm]
  rfl

def other : TxIn := ⟨⟨91, 0⟩, [], 0xffffffff⟩

/-- Only the id of another transaction is known. -/
theorem ids_removed_other : inputRequestId encode txin.prevout ∉
    ((InputRequests.processTx encode {} [other]).removeConflictedTx encode parent
      [txin]).inputRequestIds := by
  refine ((InputRequests.ids_removed_iff encode_injective _ parent [txin]).2 ?_).1 txin
    (List.mem_singleton_self txin)
  intro txin' ht hm
  rw [List.mem_singleton.1 ht] at hm
  rcases mem_insert.1 hm with he | he
  · exact absurd he (by decide)
  · simp at he

end Placeholder
end Trivechain.Llmq
