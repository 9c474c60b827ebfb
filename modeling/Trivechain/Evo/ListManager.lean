import Trivechain.Evo.DiffRoundTrip
import Trivechain.Lib.Work

/-!
# The manager of the masternode lists

`CDeterministicMNManager` keeps the list of a block in the evo database as the difference to the
list of its parent, once in 576 blocks as a whole, and caches lists that were read.
`ListTables.listAt` reads a list from the database alone. As long as every cached list is what the
database says, the manager and everything that asks it give the same answers.
-/

namespace Trivechain.Evo
open Bls Llmq BlockIndex
open Run (denyIf)
open Std (ExtTreeMap)
open Work (Answers exec)
open Maps Work

namespace BlockIndex
variable {anc prev : BlockIndex} {block : Block}

lemma getBlockHash_ne_of_suffix [ChainHash] (h : anc.chain <:+ prev.chain) :
    anc.getBlockHash ≠ (prev.next block).getBlockHash := by
  intro he
  obtain rfl : anc = prev.next block := ChainHash.blockHash_injective he
  have hl := nHeight_le_of_suffix h
  rw [nHeight_next] at hl
  omega

lemma suffix_of_ne [ChainHash] (h : anc.chain <:+ (prev.next block).chain)
    (hn : anc.getBlockHash ≠ (prev.next block).getBlockHash) :
    anc.chain <:+ prev.chain := by
  rcases List.suffix_cons_iff.1 h with he | hs
  · exact absurd (congrArg getBlockHash (chain_injective he)) hn
  · exact hs

end BlockIndex

def snapshotListPeriod : Nat := 576

def listsCacheSize : Nat := 576

/-- `DB_LIST_DIFF` and `DB_LIST_SNAPSHOT`, by block hash. -/
structure ListTables where
  diffs : ExtTreeMap Uint256 DeterministicMNListDiff := ∅
  snapshots : ExtTreeMap Uint256 DeterministicMNList := ∅

structure DeterministicMNManager where
  evoDb : ListTables := {}
  mnListsCache : ExtTreeMap Uint256 DeterministicMNList := ∅

abbrev Listing := Work DeterministicMNManager

variable [PropertyHash] [ChainHash]

/-- The round of the second loop of `GetListForBlock`. -/
def applyStored (diffIndex : BlockIndex) (diff : DeterministicMNListDiff)
    (snapshot : DeterministicMNList) : Run DeterministicMNList :=
  if diff.hasChanges then snapshot.applyDiff diffIndex diff
  else .ok { snapshot with blockHash := diffIndex.getBlockHash, nHeight := diffIndex.nHeight }

namespace ListTables
variable (t : ListTables)

/-- The list of a block, where `below` is the list of its parent. -/
def listFrom (pindex : BlockIndex) (below : Run DeterministicMNList) : Run DeterministicMNList :=
  match t.snapshots[pindex.getBlockHash]? with
  | some snapshot => .ok snapshot
  | none =>
    match t.diffs[pindex.getBlockHash]? with
    | none => .ok { blockHash := pindex.getBlockHash }
    | some diff => below >>= applyStored pindex diff

def readList : List Block → Block → Run DeterministicMNList
  | [], block => t.listFrom ⟨block, []⟩ (.error (.fault .undefined))
  | b :: bs, block => t.listFrom ⟨block, b :: bs⟩ (readList bs b)

def listAt (pindex : BlockIndex) : Run DeterministicMNList := t.readList pindex.below pindex.block

def write (pindex : BlockIndex) (oldList newList : DeterministicMNList) : ListTables where
  diffs := t.diffs.insert newList.blockHash (oldList.buildDiff newList)
  snapshots :=
    if pindex.nHeight % snapshotListPeriod = 0 ∨ oldList.nHeight = -1 then
      t.snapshots.insert newList.blockHash newList
    else t.snapshots

def remove (blockHash : Uint256) : ListTables where
  diffs := t.diffs.erase blockHash
  snapshots := t.snapshots.erase blockHash

end ListTables

namespace DeterministicMNManager

def emplace (s : DeterministicMNManager) (blockHash : Uint256) (snapshot : DeterministicMNList) :
    DeterministicMNManager :=
  { s with mnListsCache := s.mnListsCache.insertIfNew blockHash snapshot }

def lookup (pindex : BlockIndex) (below : Listing DeterministicMNList) :
    Listing DeterministicMNList := do
  let s ← get
  match s.mnListsCache[pindex.getBlockHash]? with
  | some snapshot => return snapshot
  | none =>
    match s.evoDb.snapshots[pindex.getBlockHash]? with
    | some snapshot => do
      modify (·.emplace pindex.getBlockHash snapshot)
      return snapshot
    | none =>
      match s.evoDb.diffs[pindex.getBlockHash]? with
      | none => do
        let snapshot : DeterministicMNList := { blockHash := pindex.getBlockHash }
        modify (·.emplace pindex.getBlockHash snapshot)
        return snapshot
      | some diff => do
        let snapshot ← below
        let snapshot ← liftM (applyStored pindex diff snapshot)
        modify (·.emplace pindex.getBlockHash snapshot)
        return snapshot

def readList : List Block → Block → Listing DeterministicMNList
  -- the source goes on to the parent of the first block here
  | [], block => lookup ⟨block, []⟩ (throw (.fault .undefined))
  | b :: bs, block => lookup ⟨block, b :: bs⟩ (readList bs b)

/-- The source collects the differences on the way down to a known list, and applies them on the way
back. -/
def getListForBlock (pindex : BlockIndex) : Listing DeterministicMNList :=
  readList pindex.below pindex.block

def cleanupCache (s : DeterministicMNManager) (nHeight : Nat) : DeterministicMNManager :=
  { s with mnListsCache :=
      s.mnListsCache.filter fun _ l => !decide (l.nHeight + listsCacheSize < nHeight) }

variable (env : Env) (getUTXOCoin : OutPoint → Option TxOut)

def finished (pindex : BlockIndex) (newList : DeterministicMNList) : DeterministicMNList :=
  { newList with
    nHeight := if newList.nHeight = -1 then pindex.nHeight else newList.nHeight
    blockHash := pindex.getBlockHash }

/-- The part of `ProcessBlock` after the new list has been built. -/
def storeList (pindexPrev : BlockIndex) (block : Block) (newList : DeterministicMNList) :
    Listing Unit := do
  let pindex := pindexPrev.next block
  let oldList ← getListForBlock pindexPrev
  modify fun s => { s with evoDb := s.evoDb.write pindex oldList (finished pindex newList) }
  liftM (denyIf (pindex.nHeight = env.consensus.DIP0003EnforcementHeight ∧
    env.consensus.DIP0003EnforcementHash ≠ 0 ∧
    env.consensus.DIP0003EnforcementHash ≠ pindex.getBlockHash) 100 .invalid "bad-dip3-enf-block")
  modify (·.cleanupCache pindex.nHeight)

def processBlock (pindexPrev : BlockIndex) (block : Block) (fJustCheck : Bool) : Listing Unit :=
  if pindexPrev.nHeight + 1 < env.consensus.DIP0003Height then pure ()
  else do
    let newList ← buildNewListFromBlock env getListForBlock getUTXOCoin pindexPrev block
    if fJustCheck then pure () else storeList env pindexPrev block newList

/-- The lists that `UndoBlock` reads before it deletes them. They go into notifications. -/
def undoneLists (pindex : BlockIndex) :
    Listing (DeterministicMNList × DeterministicMNList) := do
  let curList ← getListForBlock pindex
  let pprev ← liftM (Run.demand .undefined pindex.pprev)
  let prevList ← getListForBlock pprev
  return (curList, prevList)

def undoBlock (pindex : BlockIndex) : Listing Unit := do
  let s ← get
  let diff := (s.evoDb.diffs[pindex.getBlockHash]?).getD {}
  if diff.hasChanges then
    let _ ← undoneLists pindex
  modify fun s => { s with
    evoDb := s.evoDb.remove pindex.getBlockHash
    mnListsCache := s.mnListsCache.erase pindex.getBlockHash }

end DeterministicMNManager

variable {t t' : ListTables} {tip pindex prev : BlockIndex} {block : Block}

lemma ListTables.listAt_next :
    t.listAt (prev.next block) = t.listFrom (prev.next block) (t.listAt prev) := rfl

lemma ListTables.listAt_congr (h : ∀ p : BlockIndex, p.chain <:+ pindex.chain →
    t'.diffs[p.getBlockHash]? = t.diffs[p.getBlockHash]? ∧
    t'.snapshots[p.getBlockHash]? = t.snapshots[p.getBlockHash]?) :
    t'.listAt pindex = t.listAt pindex := by
  obtain ⟨block, below⟩ := pindex
  induction below generalizing block with
  | nil =>
    obtain ⟨hd, hs⟩ := h ⟨block, []⟩ (List.suffix_refl _)
    simp only [listAt, readList, listFrom, hd, hs]
  | cons b bs ih =>
    obtain ⟨hd, hs⟩ := h ⟨block, b :: bs⟩ (List.suffix_refl _)
    have hb : t'.readList bs b = t.readList bs b :=
      ih b fun p hp => h p (hp.trans (List.suffix_cons ..))
    simp only [listAt, readList, listFrom, hd, hs, hb]

namespace DeterministicMNManager
variable {s s' : DeterministicMNManager} {l : DeterministicMNList}

/-- The database is `t`, and the cached lists are those of the database, for blocks of the chain
below `tip`. -/
structure Sound (tip : BlockIndex) (t : ListTables) (s : DeterministicMNManager) : Prop where
  evoDb : s.evoDb = t
  cached : ∀ (pindex : BlockIndex) (l : DeterministicMNList),
    s.mnListsCache[pindex.getBlockHash]? = some l →
      pindex.chain <:+ tip.chain ∧ t.listAt pindex = .ok l

lemma Sound.emplace (h : s.Sound tip t) (hn : pindex.chain <:+ tip.chain)
    (hl : t.listAt pindex = .ok l) : (s.emplace pindex.getBlockHash l).Sound tip t := by
  refine ⟨h.evoDb, fun p l' hp => ?_⟩
  rw [DeterministicMNManager.emplace, getElem?_insertIfNew] at hp
  by_cases hold : s.mnListsCache[p.getBlockHash]? = some l'
  · exact h.cached p l' hold
  · obtain ⟨he, rfl⟩ : p.getBlockHash = pindex.getBlockHash ∧ l = l' := by
      split_ifs at hp with hk
      · exact ⟨hk.1, Option.some.inj hp⟩
      · exact absurd hp hold
    obtain rfl : p = pindex := ChainHash.blockHash_injective he
    exact ⟨hn, hl⟩

lemma lookup_answers (hp : pindex.chain <:+ tip.chain) {below : Listing DeterministicMNList}
    {r : Run DeterministicMNList} (hb : Answers (Sound tip t) below r)
    (hr : t.listAt pindex = t.listFrom pindex r) :
    Answers (Sound tip t) (lookup pindex below) (t.listAt pindex) := by
  intro s hs
  rw [lookup, exec_bind_ok (exec_get s)]
  cases hc : s.mnListsCache[pindex.getBlockHash]? with
  | some l => exact ⟨(hs.cached pindex l hc).2.symm, hs⟩
  | none =>
    have he : ∀ {s' : DeterministicMNManager} {l : DeterministicMNList}, s'.Sound tip t →
        t.listAt pindex = .ok l → (s'.emplace pindex.getBlockHash l).Sound tip t :=
      fun hs' hl => hs'.emplace hp hl
    unfold ListTables.listFrom at hr
    rw [hs.evoDb]
    cases hn : t.snapshots[pindex.getBlockHash]? with
    | some l =>
      rw [hn] at hr
      exact ⟨hr.symm, he hs hr⟩
    | none =>
      rw [hn] at hr
      cases hd : t.diffs[pindex.getBlockHash]? with
      | none =>
        rw [hd] at hr
        exact ⟨hr.symm, he hs hr⟩
      | some diff =>
        rw [hd] at hr
        obtain ⟨s1, hec, hs1⟩ := hb.exec_eq hs
        cases r with
        | error e =>
          simp only [exec_bind, hec]
          exact ⟨hr.symm, hs1⟩
        | ok snapshot =>
          simp only [exec_bind, hec, exec_lift]
          have hr : t.listAt pindex = applyStored pindex diff snapshot := hr
          cases ha : applyStored pindex diff snapshot with
          | error e => exact ⟨(hr.trans ha).symm, hs1⟩
          | ok l => exact ⟨(hr.trans ha).symm, he hs1 (hr.trans ha)⟩

lemma getListForBlock_answers (hp : pindex.chain <:+ tip.chain) :
    Answers (Sound tip t) (getListForBlock pindex) (t.listAt pindex) := by
  obtain ⟨block, below⟩ := pindex
  induction below generalizing block with
  | nil => exact lookup_answers hp (fun s hs => ⟨rfl, hs⟩) rfl
  | cons b bs ih =>
    exact lookup_answers hp (ih b ((List.suffix_cons ..).trans hp)) rfl

variable {env : Env} {getUTXOCoin : OutPoint → Option TxOut}

lemma processTx_answers (hp : prev.chain <:+ tip.chain) (newList : DeterministicMNList)
    (tx : Transaction) :
    Answers (Sound tip t) (processTx env getListForBlock getUTXOCoin prev newList tx)
      (processTx env t.listAt getUTXOCoin prev newList tx) := by
  unfold processTx
  dsimp only
  split_ifs
  · exact .pure newList
  · cases tx.payload with
    | quorumCommitment payload =>
      refine .bind (.lift _) fun qc _ => ?_
      split_ifs
      · exact .pure newList
      · refine .bind (.lift _) fun quorumIndex hi => ?_
        -- the quorum is one of the chain
        obtain ⟨params, -, hi⟩ := Run.bind_ok.1 hi
        obtain ⟨anc, ha, hi⟩ := Run.bind_ok.1 hi
        obtain ⟨-, -, hi⟩ := Run.bind_ok.1 hi
        obtain rfl := Except.ok.inj hi
        have hc : anc.chain <:+ tip.chain := (suffix_of_getAncestor (Run.orDeny_ok.1 ha)).trans hp
        refine .bind (.bind (.lift _) fun params _ => ?_) fun members _ => .lift _
        exact .bind (getListForBlock_answers hc) fun allMns _ => .pure _
    | normal | coinbase | unknown => exact .pure newList
    | _ => exact .lift _

lemma buildNewListFromBlock_answers (hp : prev.chain <:+ tip.chain) :
    Answers (Sound tip t) (buildNewListFromBlock env getListForBlock getUTXOCoin prev block)
      (buildNewListFromBlock env t.listAt getUTXOCoin prev block) := by
  refine .bind (getListForBlock_answers hp) fun oldList _ => ?_
  refine .bind (.lift _) fun newList _ => .bind (.lift _) fun newList _ => ?_
  refine .bind (.foldlM (fun newList tx _ => processTx_answers hp newList tx) _) fun newList _ => ?_
  exact .bind (.lift _) fun newList _ => .lift _

end DeterministicMNManager

namespace ListTables
variable {oldList newList : DeterministicMNList}

section

omit [PropertyHash] [ChainHash]

lemma write_of_ne {k : Uint256} (hn : k ≠ newList.blockHash) :
    (t.write pindex oldList newList).diffs[k]? = t.diffs[k]? ∧
    (t.write pindex oldList newList).snapshots[k]? = t.snapshots[k]? := by
  refine ⟨by rw [write, getElem?_insert, if_neg hn], ?_⟩
  unfold write
  dsimp only
  split_ifs
  · rw [getElem?_insert, if_neg hn]
  · rfl

lemma remove_of_ne {hash k : Uint256} (hn : k ≠ hash) : (t.remove hash).diffs[k]? = t.diffs[k]? ∧
    (t.remove hash).snapshots[k]? = t.snapshots[k]? := by
  simp only [remove, getElem?_erase, if_neg hn, and_self]

end

lemma listAt_write (hn : pindex.chain <:+ prev.chain)
    (hh : newList.blockHash = (prev.next block).getBlockHash) :
    (t.write (prev.next block) oldList newList).listAt pindex = t.listAt pindex :=
  listAt_congr fun _ hp =>
    write_of_ne (hh ▸ getBlockHash_ne_of_suffix (hp.trans hn))

lemma listAt_remove (hn : pindex.chain <:+ prev.chain) :
    (t.remove (prev.next block).getBlockHash).listAt pindex = t.listAt pindex :=
  listAt_congr fun _ hp => remove_of_ne (getBlockHash_ne_of_suffix (hp.trans hn))

omit [PropertyHash] [ChainHash] in
lemma remove_write (hd : t.diffs[newList.blockHash]? = none)
    (hs : t.snapshots[newList.blockHash]? = none) :
    (t.write pindex oldList newList).remove newList.blockHash = t := by
  unfold write remove
  dsimp only
  rw [erase_insert_of_none hd]
  split_ifs
  · rw [erase_insert_of_none hs]
  · rw [erase_of_none hs]

end ListTables

namespace DeterministicMNManager
variable {s s' : DeterministicMNManager} {env : Env} {getUTXOCoin : OutPoint → Option TxOut}
  {newList : DeterministicMNList} {r : Run Unit}

lemma Sound.next (h : s.Sound prev t) (oldList : DeterministicMNList)
    (hh : newList.blockHash = (prev.next block).getBlockHash) :
    Sound (prev.next block) (t.write (prev.next block) oldList newList)
      { s with evoDb := t.write (prev.next block) oldList newList } := by
  refine ⟨rfl, fun p l hp => ?_⟩
  obtain ⟨hs, hl⟩ := h.cached p l hp
  exact ⟨hs.trans (List.suffix_cons ..), (ListTables.listAt_write hs hh).trans hl⟩

lemma Sound.cleanupCache (h : s.Sound tip t) (nHeight : Nat) :
    (s.cleanupCache nHeight).Sound tip t := by
  refine ⟨h.evoDb, fun p l hp => h.cached p l ?_⟩
  rw [DeterministicMNManager.cleanupCache, ExtTreeMap.getElem?_filter'] at hp
  exact (Option.filter_eq_some_iff.1 hp).1

lemma exec_storeList (h : s.Sound prev t)
    (he : exec (storeList env prev block newList) s = (r, s')) :
    Sound prev t { s' with evoDb := t } ∧ (r = .ok () → ∃ oldList, t.listAt prev = .ok oldList ∧
        Sound (prev.next block) (t.write (prev.next block) oldList
          (finished (prev.next block) newList)) s') := by
  obtain ⟨s1, hl, h1⟩ := (getListForBlock_answers (List.suffix_refl prev.chain)).exec_eq h
  cases hold : t.listAt prev with
  | error e =>
    rw [storeList, exec_bind, hl, hold] at he
    obtain ⟨rfl, rfl⟩ := Prod.mk.inj he
    exact ⟨⟨rfl, h1.cached⟩, fun h => by cases h⟩
  | ok oldList =>
    rw [hold] at hl
    rw [storeList, exec_bind_ok hl, exec_bind_ok (exec_modify ..), exec_bind, exec_lift] at he
    cases hd : denyIf ((prev.next block).nHeight = env.consensus.DIP0003EnforcementHeight ∧
        env.consensus.DIP0003EnforcementHash ≠ 0 ∧
        env.consensus.DIP0003EnforcementHash ≠ (prev.next block).getBlockHash) 100 .invalid
        "bad-dip3-enf-block" with
    | error e =>
      rw [hd] at he
      obtain ⟨rfl, rfl⟩ := Prod.mk.inj he
      exact ⟨⟨rfl, h1.cached⟩, fun h => by cases h⟩
    | ok u =>
      rw [hd] at he
      obtain ⟨rfl, rfl⟩ := Prod.mk.inj he
      refine ⟨⟨rfl, (h1.cleanupCache _).cached⟩, fun _ => ⟨oldList, rfl, ?_⟩⟩
      rw [h1.evoDb]
      exact (h1.next oldList rfl).cleanupCache _

/-- The list that `ProcessBlock` builds for a block. -/
def NewList (env : Env) (getUTXOCoin : OutPoint → Option TxOut) (t : ListTables)
    (pindexPrev : BlockIndex) (block : Block) (newList : DeterministicMNList) : Prop :=
  ∃ l, buildNewListFromBlock env t.listAt getUTXOCoin pindexPrev block = .ok l ∧
    newList = finished (pindexPrev.next block) l

lemma exec_processBlock {fJustCheck : Bool} (h : s.Sound prev t)
    (he : exec (processBlock env getUTXOCoin prev block fJustCheck) s = (r, s')) :
    Sound prev t { s' with evoDb := t } ∧ (r = .ok () →
      ((prev.nHeight + 1 < env.consensus.DIP0003Height ∨ fJustCheck = true) ∧ s'.Sound prev t) ∨
      (env.consensus.DIP0003Height ≤ prev.nHeight + 1 ∧ fJustCheck = false ∧
        ∃ oldList newList, t.listAt prev = .ok oldList ∧
          NewList env getUTXOCoin t prev block newList ∧
          Sound (prev.next block) (t.write (prev.next block) oldList newList) s')) := by
  unfold processBlock at he
  by_cases ha : prev.nHeight + 1 < env.consensus.DIP0003Height
  · rw [if_pos ha] at he
    obtain ⟨rfl, rfl⟩ := Prod.mk.inj he
    exact ⟨⟨rfl, h.cached⟩, fun _ => .inl ⟨.inl ha, h⟩⟩
  have han : Answers (Sound prev t)
      (buildNewListFromBlock env getListForBlock getUTXOCoin prev block)
      (buildNewListFromBlock env t.listAt getUTXOCoin prev block) :=
    buildNewListFromBlock_answers (List.suffix_refl prev.chain)
  obtain ⟨s1, hb, h1⟩ := han.exec_eq h
  rw [if_neg ha, exec_bind, hb] at he
  cases hn : buildNewListFromBlock env t.listAt getUTXOCoin prev block with
  | error e =>
    rw [hn] at he
    obtain ⟨rfl, rfl⟩ := Prod.mk.inj he
    exact ⟨⟨rfl, h1.cached⟩, fun h => by cases h⟩
  | ok newList =>
    rw [hn] at he
    dsimp only at he
    split_ifs at he with hc
    · obtain ⟨rfl, rfl⟩ := Prod.mk.inj he
      exact ⟨⟨rfl, h1.cached⟩, fun _ => .inl ⟨.inr hc, h1⟩⟩
    · obtain ⟨hl, ho⟩ := exec_storeList h1 he
      refine ⟨hl, fun hr => .inr ⟨by omega, by simpa using hc, ?_⟩⟩
      obtain ⟨oldList, hold, hs⟩ := ho hr
      exact ⟨oldList, _, hold, ⟨newList, hn, rfl⟩, hs⟩

def Undoable (t : ListTables) (pindexPrev : BlockIndex) (block : Block) : Prop :=
  ((t.diffs[(pindexPrev.next block).getBlockHash]?).getD {}).hasChanges = true →
    (t.listAt (pindexPrev.next block)).isOk ∧ (t.listAt pindexPrev).isOk

lemma Sound.erase (h : s.Sound (prev.next block) t) :
    Sound prev (t.remove (prev.next block).getBlockHash) { s with
      evoDb := t.remove (prev.next block).getBlockHash
      mnListsCache := s.mnListsCache.erase (prev.next block).getBlockHash } := by
  refine ⟨rfl, fun p l hp => ?_⟩
  rw [getElem?_erase] at hp
  split_ifs at hp with hn
  obtain ⟨hs, hl⟩ := h.cached p l hp
  have hs := suffix_of_ne hs hn
  exact ⟨hs, (ListTables.listAt_remove hs).trans hl⟩

lemma undoneLists_answers : Answers (Sound (prev.next block) t)
    (undoneLists (prev.next block)) (do
      let curList ← t.listAt (prev.next block)
      let prevList ← t.listAt prev
      return (curList, prevList)) := by
  refine .bind (getListForBlock_answers (List.suffix_refl _)) fun curList _ => ?_
  rw [pprev_next]
  have hp : Answers (Sound (prev.next block) t) (getListForBlock prev) (t.listAt prev) :=
    getListForBlock_answers (List.suffix_cons block prev.chain)
  exact .bind_lift_ok rfl (.bind hp fun prevList _ => .pure _)

lemma exec_undoBlock (h : s.Sound (prev.next block) t) :
    (Undoable t prev block → ∃ s', exec (undoBlock (prev.next block)) s = (.ok (), s') ∧
      s'.Sound prev (t.remove (prev.next block).getBlockHash)) ∧
    (¬ Undoable t prev block → ∃ e s', exec (undoBlock (prev.next block)) s = (.error e, s')) := by
  rw [undoBlock, exec_bind_ok (exec_get s), h.evoDb]
  unfold Undoable
  by_cases hh : ((t.diffs[(prev.next block).getBlockHash]?).getD {}).hasChanges = true
  · obtain ⟨s1, hl, h1⟩ := undoneLists_answers.exec_eq h
    simp only [hh, if_true, forall_const, exec_bind, hl]
    cases hr : t.listAt (prev.next block) with
    | error e => exact ⟨fun h => by simp [Except.isOk, Except.toBool] at h, fun _ => ⟨e, s1, rfl⟩⟩
    | ok curList =>
      cases hp : t.listAt prev with
      | error e => exact ⟨fun h => by simp [Except.isOk, Except.toBool] at h, fun _ => ⟨e, s1, rfl⟩⟩
      | ok prevList =>
        refine ⟨fun _ => ⟨_, rfl, ?_⟩, fun hn => absurd ⟨rfl, rfl⟩ hn⟩
        dsimp only
        rw [h1.evoDb]
        exact h1.erase
  · simp only [hh]
    refine ⟨fun _ => ⟨_, rfl, ?_⟩, fun hn => absurd (fun hc => by cases hc) hn⟩
    dsimp only
    rw [h.evoDb]
    exact h.erase

end DeterministicMNManager
end Trivechain.Evo
