import Trivechain.Evo.TableHash
import Trivechain.Llmq.Signing

/-!
# Chain locks

`CChainLocksHandler` keeps the best chain lock it has seen, and the best one whose block is known. A
CLSIG is compared with the height of the best one; its signature is verified without a lock held;
then it is checked for a conflict with the known locked block and becomes the best one. When the
block of the best chain lock arrives later, `AcceptedBlockHeader` makes it the known locked block.

A CLSIG that passes the comparison is above the known locked block, where the check for conflicts
finds nothing. So what keeps the locked blocks on one chain is only what the signers lock.
-/

namespace Trivechain.Llmq
open Bls Evo Except BlockIndex List Option Run
open Std (ExtTreeMap ExtTreeSet)

/-- `CChainLockSig` -/
structure ChainLockSig where
  nHeight : Int := -1
  blockHash : Uint256 := 0
  sig : Option Sig := none
deriving DecidableEq

structure ChainLockContext where
  isEnforced : Bool
  hashGenesisBlock : Uint256
  llmqChainLocks : LLMQType
  verify : PubKey → Uint256 → Sig → Bool
  /-- `SerializeHash` of a CLSIG. -/
  serializeHash : ChainLockSig → Uint256

def clsigRequestIdPrefix : String := "clsig"

/-- The request id carries the height as an `int32_t`. -/
def ChainLockSig.requestId (clsig : ChainLockSig) (signing : SigningManager) : Uint256 :=
  signing.hashWriter
    (clsigRequestIdPrefix.toList.map Char.toNat ++ [(clsig.nHeight % 2 ^ 32).toNat])

/-- `VerifyRecoveredSig`, as `ProcessNewChainLock` calls it. -/
def ChainLockContext.verifyClsig (ctx : ChainLockContext) (signing : SigningManager)
    (clsig : ChainLockSig) : Bool :=
  signing.verifyRecoveredSig ctx.verify ctx.llmqChainLocks clsig.nHeight
    (clsig.requestId signing) clsig.blockHash clsig.sig

section Handler
variable [ChainHash]

/-- `mapBlockIndex`: entries under their hashes. -/
structure BlockMap where
  entries : ExtTreeMap Uint256 BlockIndex
  keyed : ∀ (hash : Uint256) (pindex : BlockIndex), entries[hash]? = some pindex →
    pindex.getBlockHash = hash

namespace BlockMap

def empty : BlockMap := ⟨∅, by simp⟩

variable (blocks : BlockMap)

def find (hash : Uint256) : Option BlockIndex := blocks.entries[hash]?

/-- `AddToBlockIndex`, which leaves a known entry as it is. -/
def addToBlockIndex (pindexNew : BlockIndex) : BlockMap where
  entries :=
    if (blocks.find pindexNew.getBlockHash).isSome then blocks.entries
    else blocks.entries.insert pindexNew.getBlockHash pindexNew
  keyed hash pindex h := by
    split_ifs at h with hknown
    · exact blocks.keyed hash pindex h
    · rw [Maps.getElem?_insert] at h
      split_ifs at h with heq
      · cases h
        exact heq.symm
      · exact blocks.keyed hash pindex h

variable {blocks}

lemma getBlockHash_of_find {hash : Uint256} {idx : BlockIndex}
    (h : blocks.find hash = some idx) : idx.getBlockHash = hash :=
  blocks.keyed hash idx h

end BlockMap

/-- The handler with the part of the block index that it reads and controls. `conflicting` are the
entries with `BLOCK_CONFLICT_CHAINLOCK`. -/
structure ChainLocksHandler where
  mapBlockIndex : BlockMap
  conflicting : ExtTreeSet Uint256 := ∅
  bestChainLockHash : Uint256 := 0
  bestChainLock : ChainLockSig := {}
  bestChainLockWithKnownBlock : ChainLockSig := {}
  bestChainLockBlockIndex : Option BlockIndex := none
  seenChainLocks : ExtTreeMap Uint256 Int := ∅

def cleanupSeenTimeout : Int := 24 * 60 * 60 * 1000

variable (ctx : ChainLockContext)

namespace ChainLocksHandler
variable (s : ChainLocksHandler)

def internalHasConflictingChainLock (nHeight : Int) (blockHash : Uint256) : Run Bool :=
  if !ctx.isEnforced then .ok false
  else
    match s.bestChainLockBlockIndex with
    | none => .ok false
    | some best =>
      if best.nHeight < nHeight then .ok false
      else if nHeight = best.nHeight then .ok (blockHash ≠ best.getBlockHash)
      else do
        let pAncestor ← demand .assertion (best.getAncestor nHeight)
        return pAncestor.getBlockHash ≠ blockHash

/-- The first critical section of `ProcessNewChainLock`: the state, and whether the CLSIG is
processed further. -/
def compareWithBest (now : Int) (clsig : ChainLockSig) : ChainLocksHandler × Bool :=
  if (s.seenChainLocks[ctx.serializeHash clsig]?).isSome then (s, false)
  else
    ({ s with seenChainLocks := s.seenChainLocks.insert (ctx.serializeHash clsig) now },
      !(s.bestChainLock.nHeight ≠ -1 ∧ clsig.nHeight ≤ s.bestChainLock.nHeight))

/-- The rest of the second critical section, after `bestChainLock` is set. -/
def lockKnownBlock : ChainLocksHandler :=
  match s.mapBlockIndex.find s.bestChainLock.blockHash with
  | none => s
  | some pindex =>
    if (pindex.nHeight : Int) ≠ s.bestChainLock.nHeight then s
    else
      { s with
        bestChainLockWithKnownBlock := s.bestChainLock
        bestChainLockBlockIndex := some pindex }

/-- The second critical section of `ProcessNewChainLock`, without a state when it finds a conflict.
-/
def updateBest (clsig : ChainLockSig) : Run (Option ChainLocksHandler) := do
  if ← s.internalHasConflictingChainLock ctx clsig.nHeight clsig.blockHash then
    return none
  return some { s with
    bestChainLockHash := ctx.serializeHash clsig, bestChainLock := clsig }.lockKnownBlock

/-- `signing` is the signing manager at the time of the verification. -/
def processNewChainLock (signing : SigningManager) (now : Int) (clsig : ChainLockSig) :
    Run ChainLocksHandler :=
  let (s', isNew) := s.compareWithBest ctx now clsig
  if isNew ∧ ctx.verifyClsig signing clsig then do
    return (← s'.updateBest ctx clsig).getD s'
  else .ok s'

def acceptedBlockHeader (pindexNew : BlockIndex) : ChainLocksHandler :=
  if pindexNew.getBlockHash ≠ s.bestChainLock.blockHash then s
  else if s.bestChainLock.nHeight ≠ pindexNew.nHeight then s
  else
    { s with
      bestChainLockWithKnownBlock := s.bestChainLock
      bestChainLockBlockIndex := some pindexNew }

def addToBlockIndex (pindexNew : BlockIndex) : ChainLocksHandler :=
  { s with mapBlockIndex := s.mapBlockIndex.addToBlockIndex pindexNew }

def hasGoodParent (pindexNew : BlockIndex) : Bool :=
  pindexNew.pprev.any fun pindexPrev =>
    (s.mapBlockIndex.find pindexPrev.getBlockHash).isSome ∧
      pindexPrev.getBlockHash ∉ s.conflicting

/-- `AcceptBlockHeader` for the header of `pindexNew`. `valid` is the outcome of the other checks.
The genesis block is announced each time it arrives. -/
def acceptBlockHeader (pindexNew : BlockIndex) (valid : Bool) : Run ChainLocksHandler :=
  if pindexNew.getBlockHash = ctx.hashGenesisBlock then
    .ok ((s.addToBlockIndex pindexNew).acceptedBlockHeader pindexNew)
  else if (s.mapBlockIndex.find pindexNew.getBlockHash).isSome then .ok s
  else if !valid ∨ !s.hasGoodParent pindexNew then .ok s
  else do
    if ← s.internalHasConflictingChainLock ctx pindexNew.nHeight pindexNew.getBlockHash then
      return { s.addToBlockIndex pindexNew with
        conflicting := s.conflicting.insert pindexNew.getBlockHash }
    return (s.addToBlockIndex pindexNew).acceptedBlockHeader pindexNew

/-- What `Cleanup` does to the CLSIGs that were seen. -/
def cleanup (now : Int) : ChainLocksHandler :=
  { s with seenChainLocks := s.seenChainLocks.filter fun _ seen =>
      now - seen < cleanupSeenTimeout }

end ChainLocksHandler

namespace ChainLocksHandler
variable {ctx} {s : ChainLocksHandler}

/-- The known locked block is not below the height of the CLSIG, which names no ancestor of it. -/
def Blocked (ctx : ChainLockContext) (s : ChainLocksHandler) (nHeight : Int)
    (blockHash : Uint256) : Prop :=
  ctx.isEnforced ∧ ∃ best, s.bestChainLockBlockIndex = some best ∧ nHeight ≤ best.nHeight ∧
    ∀ anc, best.getAncestor nHeight = some anc → anc.getBlockHash ≠ blockHash

/-- There is no conflict exactly when the CLSIG is not blocked. At a negative height the assertion
fails. -/
lemma hasConflicting_eq_false {nHeight : Int} {blockHash : Uint256} :
    s.internalHasConflictingChainLock ctx nHeight blockHash = .ok false ↔
      ¬ s.Blocked ctx nHeight blockHash := by
  unfold internalHasConflictingChainLock Blocked
  by_cases he : ctx.isEnforced
  swap
  · simp [he]
  cases hb : s.bestChainLockBlockIndex with
  | none => simp
  | some best =>
    simp only [he, Bool.not_true, Bool.false_eq_true, if_false, true_and, some.injEq,
      exists_eq_left']
    by_cases hl : (best.nHeight : Int) < nHeight
    · simp [hl]
    by_cases hq : nHeight = best.nHeight
    · have ha : best.getAncestor best.nHeight = some best := getAncestor_eq_some.2 (suffix_refl _)
      subst hq
      simpa [ha] using eq_comm
    · have hle : nHeight ≤ best.nHeight := by omega
      simp only [if_neg hl, if_neg hq, hle, true_and]
      cases best.getAncestor nHeight <;> simp [demand]

variable (s) in
structure Consistent : Prop where
  /-- The known locked block is not above the best CLSIG. -/
  height_le : ∀ best, s.bestChainLockBlockIndex = some best →
    (best.nHeight : Int) ≤ s.bestChainLock.nHeight
  /-- At the height of the best CLSIG it is the block of that CLSIG. -/
  hash_eq : ∀ best, s.bestChainLockBlockIndex = some best →
    (best.nHeight : Int) = s.bestChainLock.nHeight →
    best.getBlockHash = s.bestChainLock.blockHash

variable (s) in
def Above (clsig : ChainLockSig) : Prop :=
  s.bestChainLock.nHeight = -1 ∨ s.bestChainLock.nHeight < clsig.nHeight

instance (clsig : ChainLockSig) : Decidable (s.Above clsig) :=
  inferInstanceAs (Decidable (_ ∨ _))

variable {clsig : ChainLockSig} {s' : ChainLocksHandler} {pindexNew : BlockIndex} {valid : Bool}

lemma Consistent.lt_of_above (hs : s.Consistent) (ha : s.Above clsig) {best : BlockIndex}
    (hb : s.bestChainLockBlockIndex = some best) : s.bestChainLock.nHeight < clsig.nHeight := by
  have := hs.height_le best hb
  rcases ha with h | h <;> omega

lemma Consistent.not_blocked (hs : s.Consistent) (ha : s.Above clsig) :
    ¬ s.Blocked ctx clsig.nHeight clsig.blockHash := by
  rintro ⟨-, best, hb, hl, -⟩
  have := hs.lt_of_above ha hb
  have := hs.height_le best hb
  omega

lemma lockKnownBlock_eq :
    s.lockKnownBlock = s ∧ (∀ idx, s.mapBlockIndex.find s.bestChainLock.blockHash = some idx →
      (idx.nHeight : Int) ≠ s.bestChainLock.nHeight) ∨
    ∃ idx, s.mapBlockIndex.find s.bestChainLock.blockHash = some idx ∧
      (idx.nHeight : Int) = s.bestChainLock.nHeight ∧ s.lockKnownBlock = { s with
        bestChainLockWithKnownBlock := s.bestChainLock
        bestChainLockBlockIndex := some idx } := by
  unfold lockKnownBlock
  cases hf : s.mapBlockIndex.find s.bestChainLock.blockHash with
  | none => simp
  | some idx => by_cases h : (idx.nHeight : Int) = s.bestChainLock.nHeight <;> simp [h]

@[simp] lemma lockKnownBlock_bestChainLock : s.lockKnownBlock.bestChainLock = s.bestChainLock := by
  rcases s.lockKnownBlock_eq with ⟨h, -⟩ | ⟨idx, -, -, h⟩ <;> rw [h]

variable (s) in
lemma lockKnownBlock_blockIndex (idx : BlockIndex) :
    s.lockKnownBlock.bestChainLockBlockIndex = some idx ↔
      (s.mapBlockIndex.find s.bestChainLock.blockHash = some idx ∧
        (idx.nHeight : Int) = s.bestChainLock.nHeight) ∨
      (s.bestChainLockBlockIndex = some idx ∧
        ∀ p, s.mapBlockIndex.find s.bestChainLock.blockHash = some p →
          (p.nHeight : Int) ≠ s.bestChainLock.nHeight) := by
  rcases s.lockKnownBlock_eq with ⟨h, hn⟩ | ⟨p, hf, hh, h⟩
  · rw [h]
    grind
  · rw [h]
    grind

lemma updateBest_eq (h : ¬ s.Blocked ctx clsig.nHeight clsig.blockHash) :
    s.updateBest ctx clsig = .ok (some { s with
      bestChainLockHash := ctx.serializeHash clsig, bestChainLock := clsig }.lockKnownBlock) := by
  simp [updateBest, hasConflicting_eq_false.2 h]

lemma updateBest_some (h : s.updateBest ctx clsig = .ok (some s')) :
    ¬ s.Blocked ctx clsig.nHeight clsig.blockHash ∧ s' = { s with
        bestChainLockHash := ctx.serializeHash clsig, bestChainLock := clsig }.lockKnownBlock := by
  obtain ⟨conflict, hc, h⟩ := bind_ok.1 h
  cases conflict with
  | true => simp at h
  | false =>
    refine ⟨hasConflicting_eq_false.1 hc, ?_⟩
    simpa [eq_comm] using h

def Sets (ctx : ChainLockContext) (s : ChainLocksHandler) (signing : SigningManager)
    (clsig : ChainLockSig) : Prop :=
  s.seenChainLocks[ctx.serializeHash clsig]? = none ∧ s.Above clsig ∧
    ctx.verifyClsig signing clsig

variable (ctx s) in
lemma compareWithBest_snd (now : Int) (clsig : ChainLockSig) :
    (s.compareWithBest ctx now clsig).2 = true ↔
      s.seenChainLocks[ctx.serializeHash clsig]? = none ∧ s.Above clsig := by
  unfold compareWithBest Above
  cases s.seenChainLocks[ctx.serializeHash clsig]? with
  | some _ => simp
  | none =>
    simp only [isSome_none, Bool.false_eq_true, if_false, true_and, Bool.not_eq_true',
      decide_eq_false_iff_not]
    omega

variable (ctx s) in
lemma compareWithBest_fst (now : Int) (clsig : ChainLockSig) :
    ∃ seen, (s.compareWithBest ctx now clsig).1 = { s with seenChainLocks := seen } := by
  unfold compareWithBest
  split_ifs
  exacts [⟨_, rfl⟩, ⟨_, rfl⟩]

variable (ctx) in
lemma processNewChainLock_cases (hs : s.Consistent) (signing : SigningManager) (now : Int)
    (clsig : ChainLockSig) :
    ∃ seen, (s.Sets ctx signing clsig ∧ s.processNewChainLock ctx signing now clsig = .ok { s with
          seenChainLocks := seen
          bestChainLockHash := ctx.serializeHash clsig
          bestChainLock := clsig }.lockKnownBlock) ∨ (¬ s.Sets ctx signing clsig ∧
        s.processNewChainLock ctx signing now clsig = .ok { s with seenChainLocks := seen }) := by
  obtain ⟨seen, hsn⟩ := s.compareWithBest_fst ctx now clsig
  have hn := s.compareWithBest_snd ctx now clsig
  refine ⟨seen, ?_⟩
  by_cases ht : s.Sets ctx signing clsig
  · refine .inl ⟨ht, ?_⟩
    obtain ⟨h1, ha, hv⟩ := ht
    have hb : ¬ ({ s with seenChainLocks := seen } : ChainLocksHandler).Blocked ctx
        clsig.nHeight clsig.blockHash := hs.not_blocked ha
    simp only [processNewChainLock, hn.2 ⟨h1, ha⟩, hv, and_self, if_true, hsn, updateBest_eq hb]
    rfl
  · refine .inr ⟨ht, ?_⟩
    have : ¬ ((s.compareWithBest ctx now clsig).2 = true ∧ ctx.verifyClsig signing clsig) :=
      fun h => ht ⟨(hn.1 h.1).1, (hn.1 h.1).2, h.2⟩
    simp only [processNewChainLock, if_neg this, hsn]

variable (s) in
def Announces (ctx : ChainLockContext) (pindexNew : BlockIndex) (valid : Bool) : Prop :=
  pindexNew.getBlockHash = ctx.hashGenesisBlock ∨
    ((s.mapBlockIndex.find pindexNew.getBlockHash).isSome = false ∧ valid ∧
      s.hasGoodParent pindexNew)

variable (s) in
def Awaits (pindexNew : BlockIndex) : Prop :=
  pindexNew.getBlockHash = s.bestChainLock.blockHash ∧
    s.bestChainLock.nHeight = pindexNew.nHeight

lemma acceptedBlockHeader_cases (pindexNew : BlockIndex) :
    (s.Awaits pindexNew ∧ s.acceptedBlockHeader pindexNew = { s with
      bestChainLockWithKnownBlock := s.bestChainLock
      bestChainLockBlockIndex := some pindexNew }) ∨
    (¬ s.Awaits pindexNew ∧ s.acceptedBlockHeader pindexNew = s) := by
  unfold acceptedBlockHeader Awaits
  by_cases hs : pindexNew.getBlockHash = s.bestChainLock.blockHash <;>
    by_cases hh : s.bestChainLock.nHeight = pindexNew.nHeight <;> simp [hs, hh]

lemma Consistent.not_blocked_of_awaits (hs : s.Consistent) (h : s.Awaits pindexNew) :
    ¬ s.Blocked ctx pindexNew.nHeight pindexNew.getBlockHash := by
  rintro ⟨-, best, hb, hl, ha⟩
  have hg := hs.height_le best hb
  obtain ⟨hh, he⟩ := h
  have hm : best.nHeight = pindexNew.nHeight := by omega
  refine ha best ?_ ((hs.hash_eq best hb (by omega)).trans hh.symm)
  rw [← hm]
  exact getAncestor_eq_some.2 (suffix_refl _)

/-- A header locks its block when it is announced and the best CLSIG awaits it, and otherwise
changes the block index only. -/
inductive AfterHeader (ctx : ChainLockContext) (s : ChainLocksHandler) (pindexNew : BlockIndex)
    (valid : Bool) : ChainLocksHandler → Prop where
  | locked (blocks : BlockMap) (hann : s.Announces ctx pindexNew valid)
      (hawaits : s.Awaits pindexNew) :
      AfterHeader ctx s pindexNew valid { s with
        mapBlockIndex := blocks
        bestChainLockWithKnownBlock := s.bestChainLock
        bestChainLockBlockIndex := some pindexNew }
  | indexed (blocks : BlockMap) (conflicting : ExtTreeSet Uint256)
      (hno : ¬ (s.Announces ctx pindexNew valid ∧ s.Awaits pindexNew)) :
      AfterHeader ctx s pindexNew valid
        { s with mapBlockIndex := blocks, conflicting := conflicting }

lemma AfterHeader.announced (hn : s.Announces ctx pindexNew valid) :
    AfterHeader ctx s pindexNew valid
      ((s.addToBlockIndex pindexNew).acceptedBlockHeader pindexNew) := by
  rcases (s.addToBlockIndex pindexNew).acceptedBlockHeader_cases pindexNew with
    ⟨ha, hc⟩ | ⟨ha, hc⟩
  · rw [hc]
    exact .locked _ hn ha
  · rw [hc]
    exact .indexed _ _ fun h => ha h.2

lemma bestChainLock_acceptBlockHeader (h : s.acceptBlockHeader ctx pindexNew valid = .ok s') :
    s'.bestChainLock = s.bestChainLock := by
  have ha : ((s.addToBlockIndex pindexNew).acceptedBlockHeader pindexNew).bestChainLock =
      s.bestChainLock := by
    rcases (s.addToBlockIndex pindexNew).acceptedBlockHeader_cases pindexNew with
      ⟨-, h⟩ | ⟨-, h⟩ <;> rw [h] <;> rfl
  unfold acceptBlockHeader at h
  split_ifs at h
  · exact ok.inj h ▸ ha
  · exact ok.inj h ▸ rfl
  · exact ok.inj h ▸ rfl
  · obtain ⟨conflict, -, h⟩ := bind_ok.1 h
    cases conflict with
    | false => exact ok.inj h ▸ ha
    | true => exact ok.inj h ▸ rfl

lemma acceptBlockHeader_cases (hs : s.Consistent)
    (h : s.acceptBlockHeader ctx pindexNew valid = .ok s') :
    AfterHeader ctx s pindexNew valid s' := by
  unfold acceptBlockHeader at h
  split_ifs at h with hg hk hr
  · exact ok.inj h ▸ .announced (.inl hg)
  · refine ok.inj h ▸ .indexed _ _ ?_
    rintro ⟨hn | ⟨hu, -⟩, -⟩
    · exact hg hn
    · simp [hk] at hu
  · refine ok.inj h ▸ .indexed _ _ ?_
    rintro ⟨hn | ⟨-, hv, hp⟩, -⟩
    · exact hg hn
    · simp [hv, hp] at hr
  · obtain ⟨conflict, hc, h⟩ := bind_ok.1 h
    cases conflict with
    | false =>
      refine ok.inj h ▸ .announced (.inr ⟨by simpa using hk, ?_⟩)
      simpa using hr
    | true =>
      refine ok.inj h ▸ .indexed _ _ ?_
      rintro ⟨-, ha⟩
      have hf : s.internalHasConflictingChainLock ctx pindexNew.nHeight
          pindexNew.getBlockHash = .ok false :=
        hasConflicting_eq_false.2 (hs.not_blocked_of_awaits ha)
      rw [hf] at hc
      cases hc

end ChainLocksHandler

inductive ChainLockEvent where
  | clsig (signing : SigningManager) (now : Int) (clsig : ChainLockSig)
  | header (pindexNew : BlockIndex) (valid : Bool)
  | cleanup (now : Int)

namespace ChainLocksHandler
variable {ctx} {s s' : ChainLocksHandler} {ev : ChainLockEvent}

def step (ctx : ChainLockContext) (s : ChainLocksHandler) :
    ChainLockEvent → Run ChainLocksHandler
  | .clsig signing now clsig => s.processNewChainLock ctx signing now clsig
  | .header pindexNew valid => s.acceptBlockHeader ctx pindexNew valid
  | .cleanup now => .ok (s.cleanup now)

def run (ctx : ChainLockContext) (s : ChainLocksHandler) (evs : List ChainLockEvent) :
    Run ChainLocksHandler :=
  evs.foldlM (step ctx) s

lemma run_append (s : ChainLocksHandler) (evs evs' : List ChainLockEvent) :
    s.run ctx (evs ++ evs') = s.run ctx evs >>= fun s' => s'.run ctx evs' :=
  foldlM_append

/-- The event locks the block: a CLSIG that becomes the best and names the known block at its
height, or an announced header that the best CLSIG awaits. -/
def Locks (ctx : ChainLockContext) (s : ChainLocksHandler) (pindex : BlockIndex) :
    ChainLockEvent → Prop
  | .clsig signing _ clsig => s.Sets ctx signing clsig ∧
      s.mapBlockIndex.find clsig.blockHash = some pindex ∧ (pindex.nHeight : Int) = clsig.nHeight
  | .header pindexNew valid =>
      pindexNew = pindex ∧ s.Announces ctx pindexNew valid ∧ s.Awaits pindexNew
  | .cleanup _ => False

lemma blockIndex_step (hs : s.Consistent) (h : s.step ctx ev = .ok s') (idx : BlockIndex) :
    s'.bestChainLockBlockIndex = some idx ↔ s.Locks ctx idx ev ∨
        (s.bestChainLockBlockIndex = some idx ∧ ∀ p, ¬ s.Locks ctx p ev) := by
  cases ev with
  | clsig signing now clsig =>
    obtain ⟨seen, ⟨ht, ho⟩ | ⟨ht, ho⟩⟩ := processNewChainLock_cases ctx hs signing now clsig
    · obtain rfl := ok.inj (ho.symm.trans h)
      rw [lockKnownBlock_blockIndex]
      simp [Locks, ht]
    · obtain rfl := ok.inj (ho.symm.trans h)
      simp [Locks, ht]
  | header pindexNew valid =>
    cases acceptBlockHeader_cases hs h with
    | locked _ hn ha => simp [Locks, hn, ha]
    | indexed _ _ hno => grind [Locks]
  | cleanup now =>
    cases h
    simp [Locks, ChainLocksHandler.cleanup]

lemma Consistent.updated (hs : s.Consistent) {clsig : ChainLockSig} (ha : s.Above clsig)
    (seen : ExtTreeMap Uint256 Int) (hash : Uint256) : ({ s with
      seenChainLocks := seen
      bestChainLockHash := hash
      bestChainLock := clsig }.lockKnownBlock : ChainLocksHandler).Consistent := by
  have hc (best : BlockIndex) := (lockKnownBlock_blockIndex
    { s with seenChainLocks := seen, bestChainLockHash := hash, bestChainLock := clsig } best).1
  constructor
  · intro best hb
    rw [lockKnownBlock_bestChainLock]
    rcases hc best hb with ⟨-, he⟩ | ⟨hold, -⟩
    · exact he.le
    · have := hs.lt_of_above ha hold
      have := hs.height_le best hold
      show (best.nHeight : Int) ≤ clsig.nHeight
      omega
  · intro best hb he
    rw [lockKnownBlock_bestChainLock] at he ⊢
    rcases hc best hb with ⟨hf, -⟩ | ⟨hold, -⟩
    · exact BlockMap.getBlockHash_of_find hf
    · have := hs.lt_of_above ha hold
      have := hs.height_le best hold
      change (best.nHeight : Int) = clsig.nHeight at he
      omega

lemma Consistent.step (hs : s.Consistent) (h : s.step ctx ev = .ok s') : s'.Consistent := by
  cases ev with
  | clsig signing now clsig =>
    obtain ⟨seen, ⟨ht, ho⟩ | ⟨-, ho⟩⟩ := processNewChainLock_cases ctx hs signing now clsig
    · exact ok.inj (ho.symm.trans h) ▸ hs.updated ht.2.1 seen _
    · exact ok.inj (ho.symm.trans h) ▸ ⟨hs.height_le, hs.hash_eq⟩
  | header pindexNew valid =>
    cases acceptBlockHeader_cases hs h with
    | locked _ _ ha =>
      refine ⟨fun best hb => ?_, fun best hb _ => ?_⟩ <;>
        cases hb
      · exact ha.2.ge
      · exact ha.1
    | indexed => exact ⟨hs.height_le, hs.hash_eq⟩
  | cleanup now => exact ok.inj h ▸ ⟨hs.height_le, hs.hash_eq⟩

lemma exists_acceptBlockHeader (ctx : ChainLockContext) (s : ChainLocksHandler)
    (pindexNew : BlockIndex) (valid : Bool) :
    ∃ s', s.acceptBlockHeader ctx pindexNew valid = .ok s' := by
  have hc : ∃ conflict, s.internalHasConflictingChainLock ctx pindexNew.nHeight
      pindexNew.getBlockHash = .ok conflict := by
    unfold internalHasConflictingChainLock
    split_ifs
    · exact ⟨_, rfl⟩
    cases s.bestChainLockBlockIndex with
    | none => exact ⟨_, rfl⟩
    | some best =>
      simp only
      split_ifs with hl he
      · exact ⟨_, rfl⟩
      · exact ⟨_, rfl⟩
      · obtain ⟨anc, ha⟩ := best.exists_getAncestor (by omega : pindexNew.nHeight ≤ best.nHeight)
        rw [ha]
        exact ⟨_, rfl⟩
  obtain ⟨conflict, hc⟩ := hc
  unfold acceptBlockHeader
  split_ifs
  iterate 3 exact ⟨_, rfl⟩
  rw [hc]
  cases conflict
  exacts [⟨_, rfl⟩, ⟨_, rfl⟩]

lemma Consistent.exists_step (hs : s.Consistent) (ctx : ChainLockContext)
    (ev : ChainLockEvent) : ∃ s', s.step ctx ev = .ok s' := by
  cases ev with
  | clsig signing now clsig =>
    obtain ⟨seen, ⟨-, ho⟩ | ⟨-, ho⟩⟩ := processNewChainLock_cases ctx hs signing now clsig
    exacts [⟨_, ho⟩, ⟨_, ho⟩]
  | header pindexNew valid => exact exists_acceptBlockHeader ctx s pindexNew valid
  | cleanup now => exact ⟨_, rfl⟩

def initial (blocks : BlockMap) : ChainLocksHandler := { mapBlockIndex := blocks }

lemma consistent_run {blocks : BlockMap} {evs : List ChainLockEvent}
    (h : (initial blocks).run ctx evs = .ok s) : s.Consistent :=
  foldlM_invariant Consistent (fun _ _ _ hb hs => hb.step hs) evs _ s
    ⟨by simp [initial], by simp [initial]⟩ h

lemma Consistent.height_le_of_locks (hs : s.Consistent) {best idx : BlockIndex}
    (hb : s.bestChainLockBlockIndex = some best) (hl : s.Locks ctx idx ev) :
    best.nHeight ≤ idx.nHeight := by
  have hle := hs.height_le best hb
  cases ev with
  | clsig signing now clsig =>
    obtain ⟨ht, -, he⟩ := hl
    have := hs.lt_of_above ht.2.1 hb
    omega
  | header pindexNew valid =>
    obtain ⟨rfl, -, -, he⟩ := hl
    omega
  | cleanup now => exact hl.elim

def Follows (s s' : ChainLocksHandler) : Prop :=
  ∀ best, s.bestChainLockBlockIndex = some best →
    ∃ best', s'.bestChainLockBlockIndex = some best' ∧ best.chain <:+ best'.chain

lemma Follows.refl (s : ChainLocksHandler) : s.Follows s := fun best h => ⟨best, h, suffix_refl _⟩

lemma Follows.trans (s1 s2 s3 : ChainLocksHandler) (h : s1.Follows s2) (h' : s2.Follows s3) :
    s1.Follows s3 := by
  intro best hb
  obtain ⟨best', hb', hs⟩ := h best hb
  obtain ⟨best'', hb'', hs'⟩ := h' best' hb'
  exact ⟨best'', hb'', hs.trans hs'⟩

/-- What an event locks has the known locked block as an ancestor. -/
def Extends (ctx : ChainLockContext) (s : ChainLocksHandler) (ev : ChainLockEvent) : Prop :=
  ∀ best pindex, s.bestChainLockBlockIndex = some best → s.Locks ctx pindex ev →
    pindex.getAncestor best.nHeight = some best

lemma follows_step_iff (hs : s.Consistent) (h : s.step ctx ev = .ok s') :
    s.Follows s' ↔ s.Extends ctx ev := by
  constructor
  · intro hf best idx hb hl
    obtain ⟨best', hb', hsf⟩ := hf best hb
    have := (blockIndex_step hs h idx).2 (.inl hl)
    obtain rfl := some.inj (hb'.symm.trans this)
    exact getAncestor_eq_some.2 hsf
  · intro he best hb
    by_cases hl : ∃ p, s.Locks ctx p ev
    · obtain ⟨p, hp⟩ := hl
      exact ⟨p, (blockIndex_step hs h p).2 (.inl hp), getAncestor_eq_some.1 (he best p hb hp)⟩
    · exact ⟨best, (blockIndex_step hs h best).2 (.inr ⟨hb, not_exists.1 hl⟩), suffix_refl _⟩

end ChainLocksHandler

open ChainLocksHandler

/-- Once a block is locked, every block locked later at its height or above has it as an
ancestor. -/
def SingleChain (ctx : ChainLockContext) (blocks : BlockMap) (evs : List ChainLockEvent) : Prop :=
  ∀ pre mid post, evs = pre ++ mid ++ post → ∀ s s', (initial blocks).run ctx pre = .ok s →
    s.run ctx mid = .ok s' → ∀ best best', s.bestChainLockBlockIndex = some best →
    s'.bestChainLockBlockIndex = some best' → best.nHeight ≤ best'.nHeight →
    best'.getAncestor best.nHeight = some best

/-- The locked blocks form a single chain exactly when everything that locks a block extends
the block locked before. -/
theorem singleChain_iff (ctx : ChainLockContext) (blocks : BlockMap)
    (evs : List ChainLockEvent) : SingleChain ctx blocks evs ↔
      ∀ pre ev post, evs = pre ++ ev :: post → ∀ s, (initial blocks).run ctx pre = .ok s →
        s.Extends ctx ev := by
  have ht : (∀ pre ev post, evs = pre ++ ev :: post → ∀ s s',
      (initial blocks).run ctx pre = .ok s → s.step ctx ev = .ok s' → s.Follows s') ↔
      ∀ pre ev post, evs = pre ++ ev :: post → ∀ s, (initial blocks).run ctx pre = .ok s →
        s.Extends ctx ev := by
    constructor
    · intro h pre ev post he s hs
      obtain ⟨s', hs'⟩ := (consistent_run hs).exists_step ctx ev
      exact (follows_step_iff (consistent_run hs) hs').1 (h pre ev post he s s' hs hs')
    · intro h pre ev post he s s' hs hs'
      exact (follows_step_iff (consistent_run hs) hs').2 (h pre ev post he s hs)
  rw [← ht]
  have hpr := foldlM_related_iff (f := step ctx) Follows.refl Follows.trans evs
    (initial blocks)
  constructor
  · intro h pre ev post he s s' hs hs' best hbs
    -- one step as a run: the block it leads to is not below the one before
    have hr : s.run ctx [ev] = .ok s' := by simp [run, foldlM_cons, hs']
    have hc := consistent_run hs
    by_cases hl : ∃ p, s.Locks ctx p ev
    · obtain ⟨p, hp⟩ := hl
      have hp' := (blockIndex_step hc hs' p).2 (.inl hp)
      exact ⟨p, hp', getAncestor_eq_some.1 (h pre [ev] post (by simp [he]) s s' hs hr
        best p hbs hp' (hc.height_le_of_locks hbs hp))⟩
    · exact ⟨best, (blockIndex_step hc hs' best).2 (.inr ⟨hbs, not_exists.1 hl⟩), suffix_refl _⟩
  · intro h pre mid post he s s' hs hs' best best' hbs hb' _
    obtain ⟨b, hb, hf⟩ := hpr.2 h pre mid post he s s' hs hs' best hbs
    obtain rfl := some.inj (hb.symm.trans hb')
    exact getAncestor_eq_some.2 hf

/-!
### Interleaved executions

The lock is not held between the two critical sections. An execution of `ProcessNewChainLock` that
has passed the first one and the verification waits for the second one; any number can wait.
-/

structure Executions where
  handler : ChainLocksHandler
  waiting : List ChainLockSig := []

inductive ExecutionStep where
  /-- The first critical section, and the verification after it. -/
  | compare (signing : SigningManager) (now : Int) (clsig : ChainLockSig)
  /-- The second critical section of the execution at this place. -/
  | update (i : Nat)
  | header (pindexNew : BlockIndex) (valid : Bool)
  | cleanup (now : Int)

namespace Executions
variable {ctx} {e e' : Executions}

def step (ctx : ChainLockContext) (e : Executions) : ExecutionStep → Run Executions
  | .compare signing now clsig =>
    let (s', isNew) := e.handler.compareWithBest ctx now clsig
    if isNew ∧ ctx.verifyClsig signing clsig then .ok ⟨s', e.waiting ++ [clsig]⟩
    else .ok ⟨s', e.waiting⟩
  | .update i =>
    match e.waiting[i]? with
    | none => .ok e
    | some clsig => do
      return ⟨(← e.handler.updateBest ctx clsig).getD e.handler, e.waiting.eraseIdx i⟩
  | .header pindexNew valid => do
    return { e with handler := ← e.handler.acceptBlockHeader ctx pindexNew valid }
  | .cleanup now => .ok { e with handler := e.handler.cleanup now }

def run (ctx : ChainLockContext) (e : Executions) (steps : List ExecutionStep) : Run Executions :=
  steps.foldlM (step ctx) e

lemma run_append (e : Executions) (steps steps' : List ExecutionStep) :
    e.run ctx (steps ++ steps') = e.run ctx steps >>= fun e' => e'.run ctx steps' :=
  foldlM_append

def bestHeight (e : Executions) : Int := e.handler.bestChainLock.nHeight

/-- The execution at place `i` sets the best CLSIG. -/
def Puts (ctx : ChainLockContext) (e : Executions) (i : Nat) (clsig : ChainLockSig) : Prop :=
  e.waiting[i]? = some clsig ∧ ¬ e.handler.Blocked ctx clsig.nHeight clsig.blockHash

lemma step_update_of_puts {i : Nat} {clsig : ChainLockSig} (hp : e.Puts ctx i clsig) :
    ∃ e', e.step ctx (.update i) = .ok e' ∧ e'.handler.bestChainLock = clsig := by
  simp [step, hp.1, updateBest_eq hp.2]

lemma bestChainLock_step {st : ExecutionStep} (h : e.step ctx st = .ok e') :
    e'.handler.bestChainLock = e.handler.bestChainLock ∨
      ∃ i clsig, st = .update i ∧ e.Puts ctx i clsig ∧ e'.handler.bestChainLock = clsig := by
  cases st with
  | compare signing now clsig =>
    obtain ⟨seen, hs⟩ := e.handler.compareWithBest_fst ctx now clsig
    refine .inl ?_
    simp only [step, hs] at h
    split_ifs at h <;> exact ok.inj h ▸ rfl
  | update i =>
    cases hw : e.waiting[i]? with
    | none =>
      simp only [step, hw] at h
      exact .inl (ok.inj h ▸ rfl)
    | some clsig =>
      simp only [step, hw] at h
      obtain ⟨result, hr, h⟩ := bind_ok.1 h
      cases h
      cases result with
      | none => exact .inl rfl
      | some s' =>
        obtain ⟨hb, rfl⟩ := updateBest_some hr
        exact .inr ⟨i, clsig, rfl, ⟨hw, hb⟩, by simp⟩
  | header pindexNew valid =>
    obtain ⟨s', hs', h⟩ := bind_ok.1 h
    cases h
    exact .inl (bestChainLock_acceptBlockHeader hs')
  | cleanup now => exact .inl (ok.inj h ▸ rfl)

/-- At the second critical section the CLSIG is not below the best one, and a known block has the
height that the CLSIG gives it. -/
def Ready (ctx : ChainLockContext) (e : Executions) (i : Nat) : Prop :=
  ∀ clsig, e.Puts ctx i clsig → e.bestHeight ≤ clsig.nHeight ∧
    ∀ pindex, e.handler.mapBlockIndex.find clsig.blockHash = some pindex →
      (pindex.nHeight : Int) = clsig.nHeight

end Executions

open Executions

/-- The height of the best CLSIG never falls, and no CLSIG becomes the best one with another height
than its block has, if that is known. -/
def HeightsKept (ctx : ChainLockContext) (blocks : BlockMap) (steps : List ExecutionStep) : Prop :=
  (∀ pre mid post, steps = pre ++ mid ++ post → ∀ e e',
    Executions.run ctx ⟨initial blocks, []⟩ pre = .ok e → e.run ctx mid = .ok e' →
    e.bestHeight ≤ e'.bestHeight) ∧
  ∀ pre i post, steps = pre ++ .update i :: post → ∀ e,
    Executions.run ctx ⟨initial blocks, []⟩ pre = .ok e →
    ∀ clsig s', e.waiting[i]? = some clsig → e.handler.updateBest ctx clsig = .ok (some s') →
    ∀ pindex, e.handler.mapBlockIndex.find s'.bestChainLock.blockHash = some pindex →
      (pindex.nHeight : Int) = s'.bestChainLock.nHeight

theorem heightsKept_iff (ctx : ChainLockContext) (blocks : BlockMap)
    (steps : List ExecutionStep) : HeightsKept ctx blocks steps ↔
      ∀ pre i post, steps = pre ++ .update i :: post → ∀ e,
        Executions.run ctx ⟨initial blocks, []⟩ pre = .ok e → e.Ready ctx i := by
  have hpr := foldlM_related_iff (f := Executions.step ctx)
    (R := fun e e' => e.bestHeight ≤ e'.bestHeight) (fun e => le_refl e.bestHeight)
    (fun _ _ _ => le_trans) steps ⟨initial blocks, []⟩
  unfold HeightsKept
  constructor
  · rintro ⟨hn, hm⟩ pre i post hq e he clsig hp
    obtain ⟨e', hs, hb⟩ := step_update_of_puts hp
    constructor
    · have := hpr.1 hn pre _ post hq e e' he hs
      rwa [Executions.bestHeight, Executions.bestHeight, hb] at this
    · intro pindex hf
      simpa using hm pre i post hq e he clsig _ hp.1 (updateBest_eq hp.2) pindex
        (by simpa using hf)
  · intro hr
    constructor
    · refine hpr.2 fun pre st post hq e e' he hs => ?_
      rcases bestChainLock_step hs with hsm | ⟨i, clsig, rfl, hp, hb⟩
      · exact (congrArg ChainLockSig.nHeight hsm).ge
      · exact (hr pre i post hq e he clsig hp).1.trans_eq (congrArg ChainLockSig.nHeight hb).symm
    · intro pre i post hq e he clsig s' hw hu pindex
      obtain ⟨hl, rfl⟩ := updateBest_some hu
      rw [lockKnownBlock_bestChainLock]
      exact (hr pre i post hq e he clsig ⟨hw, hl⟩).2 pindex

end Handler
end Trivechain.Llmq

namespace Trivechain.Llmq.TwoBranches
open Bls Evo ChainLocksHandler

def common (n : Nat) : BlockIndex := ⟨⟨[], 0⟩, List.replicate n ⟨[], 0⟩⟩
def a8 : BlockIndex := (common 7).next ⟨[], 1⟩
def b8 : BlockIndex := (common 7).next ⟨[], 2⟩
def b9 : BlockIndex := b8.next ⟨[], 3⟩

def blocks : List BlockIndex := (List.range 8).map common ++ [a8, b8, b9]

local instance : ChainHash := tableHash [] blocks

def signing : SigningManager where
  hashWriter := List.sum
  getActiveQuorumSet _ _ := [⟨3, 4⟩]
  hasRecoveredSig _ _ _ := false
  hasRecoveredSigForId _ _ := false

def ctx : ChainLockContext where
  isEnforced := true
  hashGenesisBlock := (common 0).getBlockHash
  llmqChainLocks := LLMQ_5_60
  verify _ hash sig := hash == sig
  serializeHash clsig := clsig.nHeight.toNat

def lock (nHeight : Int) (pindex : BlockIndex) : ChainLockSig :=
  let clsig : ChainLockSig := { nHeight := nHeight, blockHash := pindex.getBlockHash }
  { clsig with
    sig := some (signing.buildSignHash ctx.llmqChainLocks 3 (clsig.requestId signing)
      clsig.blockHash) }

def headers : List ChainLockEvent := blocks.map (.header · true)

def locks : List ChainLockEvent :=
  [.clsig signing 0 (lock 8 a8), .clsig signing 0 (lock 9 b9)]

/-- Both chain locks are accepted, although the second block does not have the first as an ancestor.
-/
theorem two_branches_locked : ¬ SingleChain ctx .empty (headers ++ locks) := by
  intro hn
  have hl : ((initial .empty).run ctx (headers ++ locks.take 1)).toOption.map
      (·.bestChainLockBlockIndex) = some (some a8) := by decide +kernel
  have hl' : ((initial .empty).run ctx ((headers ++ locks.take 1) ++ locks.drop 1)).toOption.map
      (·.bestChainLockBlockIndex) = some (some b9) := by decide +kernel
  obtain ⟨s, hs, hb⟩ := Run.exists_of_map_toOption hl
  obtain ⟨s', hs', hb'⟩ := Run.exists_of_map_toOption hl'
  have hm : s.run ctx (locks.drop 1) = .ok s' := by
    rwa [run_append, hs, Run.ok_bind] at hs'
  have ha : b9.getAncestor a8.nHeight = some a8 :=
    hn (headers ++ locks.take 1) (locks.drop 1) [] rfl s s' hs hm a8 b9 hb hb'
      (by decide)
  revert ha
  decide

def stale : List ExecutionStep :=
  [.compare signing 0 (lock 8 a8), .compare signing 0 (lock 9 b9), .update 1, .update 0]

def compared : List ExecutionStep :=
  blocks.map (.header · true) ++ [.compare signing 0 (lock 9 a8)]

def mismatched : List ExecutionStep := compared ++ [.update 0]

theorem stale_and_mismatched_updates :
    ¬ HeightsKept ctx .empty stale ∧ ¬ HeightsKept ctx .empty mismatched := by
  constructor
  · rintro ⟨hn, -⟩
    have hh : (Executions.run ctx ⟨initial .empty, []⟩ (stale.take 3)).toOption.map
        (·.bestHeight) = some 9 := by decide +kernel
    have hh' : (Executions.run ctx ⟨initial .empty, []⟩
        (stale.take 3 ++ stale.drop 3)).toOption.map (·.bestHeight) = some 8 := by decide +kernel
    obtain ⟨e, he, hbs⟩ := Run.exists_of_map_toOption hh
    obtain ⟨e', he', hb'⟩ := Run.exists_of_map_toOption hh'
    have hd : e.run ctx (stale.drop 3) = .ok e' := by
      rwa [Executions.run_append, he, Run.ok_bind] at he'
    have := hn (stale.take 3) (stale.drop 3) [] rfl e e' he hd
    omega
  · rintro ⟨-, hm⟩
    have hs : (Executions.run ctx ⟨initial .empty, []⟩ compared).toOption.map
        (fun e => (e.waiting, e.handler.bestChainLockBlockIndex,
          e.handler.mapBlockIndex.find a8.getBlockHash)) =
        some ([lock 9 a8], none, some a8) := by decide +kernel
    obtain ⟨e, he, hs⟩ := Run.exists_of_map_toOption hs
    simp only [Prod.mk.injEq] at hs
    obtain ⟨hw, hbs, hf⟩ := hs
    have hb : ¬ e.handler.Blocked ctx (lock 9 a8).nHeight (lock 9 a8).blockHash := by
      simp [Blocked, hbs]
    have := hm compared 0 [] rfl e he (lock 9 a8) _ (by simp [hw])
      (updateBest_eq hb) a8
      (by rw [lockKnownBlock_bestChainLock]; exact hf)
    rw [lockKnownBlock_bestChainLock] at this
    exact absurd this (by change ¬ ((8 : Int) = 9); decide)

end Trivechain.Llmq.TwoBranches
