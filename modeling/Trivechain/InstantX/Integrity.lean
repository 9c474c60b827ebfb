import Trivechain.InstantX.Votes

/-!
# Voted outpoints refer to lock candidates

`mapVotedOutpoints` holds hashes of transactions, and `Vote` looks their candidates up without
asking whether they are there. A hash is safe there as long as its candidate is stored and has a
lock for the outpoint: removing the candidate removes the entries of its own outpoints.

`DirectSend.Sound` says this of a state. All functions keep it, except that a vote for an outpoint
which is not an input of its transaction breaks it.
-/

namespace Trivechain.InstantX
open Evo TxLockCandidate Maps
open Std (ExtTreeMap ExtTreeSet)

def TxLockCandidate.SameShape (c c' : TxLockCandidate) : Prop :=
  c'.txLockRequest = c.txLockRequest ∧ ∀ o, o ∈ c'.mapOutPointLocks ↔ o ∈ c.mapOutPointLocks

namespace TxLockCandidate
variable {c c' c'' : TxLockCandidate} {o : OutPoint}

lemma SameShape.refl (c : TxLockCandidate) : c.SameShape c := ⟨rfl, fun _ => Iff.rfl⟩

lemma SameShape.trans (h : c.SameShape c') (h' : c'.SameShape c'') : c.SameShape c'' :=
  ⟨h'.1.trans h.1, fun o => (h'.2 o).trans (h.2 o)⟩

lemma SameShape.getHash_eq [ChainHash] (h : c.SameShape c') : c'.getHash = c.getHash := by
  unfold getHash
  rw [h.1]

lemma sameShape_modifyLock (f : OutPointLock → OutPointLock) : c.SameShape (c.modifyLock o f) := by
  unfold modifyLock
  split
  · exact .refl c
  · rename_i lock hl
    refine ⟨rfl, fun o' => ?_⟩
    have ho : o ∈ c.mapOutPointLocks := by
      rw [ExtTreeMap.mem_iff_isSome_getElem?, hl]
      rfl
    have hi := ExtTreeMap.mem_insert (t := c.mapOutPointLocks) (k := o) (a := o') (v := f lock)
    grind

lemma mem_addOutPointLocks {vin : List OutPoint} :
    o ∈ (c.addOutPointLocks vin).mapOutPointLocks ↔ o ∈ vin ∨ o ∈ c.mapOutPointLocks := by
  induction vin generalizing c with
  | nil => simp [addOutPointLocks]
  | cons a vin ih =>
    have ht : o ∈ (c.addOutPointLock a).mapOutPointLocks ↔ o = a ∨ o ∈ c.mapOutPointLocks := by
      simp only [addOutPointLock, ExtTreeMap.mem_insertIfNew, Std.LawfulEqCmp.compare_eq_iff_eq]
      exact or_congr eq_comm Iff.rfl
    have := ih (c := c.addOutPointLock a)
    simp only [addOutPointLocks, List.foldl_cons] at this ⊢
    grind

@[simp] lemma addOutPointLocks_request (vin : List OutPoint) :
    (c.addOutPointLocks vin).txLockRequest = c.txLockRequest := by
  induction vin generalizing c with
  | nil => rfl
  | cons a vin ih => exact ih (c := c.addOutPointLock a)

end TxLockCandidate

namespace DirectSend

def Voted (s : DirectSend) (o : OutPoint) (hash : Uint256) : Prop :=
  hash ∈ s.mapVotedOutpoints[o]?.getD ∅

def HasLock (s : DirectSend) (hash : Uint256) (o : OutPoint) : Prop :=
  ∃ c, s.mapTxLockCandidates[hash]? = some c ∧ o ∈ c.mapOutPointLocks

/-- Every voted transaction has a candidate with a lock for the outpoint, and every candidate with
locks is stored under its hash. -/
structure Sound [ChainHash] (s : DirectSend) : Prop where
  voted : ∀ o hash, s.Voted o hash → s.HasLock hash o
  keyed : ∀ (hash : Uint256) c, s.mapTxLockCandidates[hash]? = some c →
    ∀ o ∈ c.mapOutPointLocks, c.getHash = hash

def Shaped (s s' : DirectSend) : Prop :=
  ∀ hash : Uint256, Option.Rel TxLockCandidate.SameShape s.mapTxLockCandidates[hash]?
    s'.mapTxLockCandidates[hash]?

section Shape
variable {s s' s'' : DirectSend} {hash : Uint256}

lemma Shaped.refl (s : DirectSend) : s.Shaped s := by
  intro hash
  cases s.mapTxLockCandidates[hash]? with
  | none => exact .none
  | some c => exact .some (.refl c)

lemma Shaped.of_eq (h : s'.mapTxLockCandidates = s.mapTxLockCandidates) : s.Shaped s' := by
  have := Shaped.refl s
  unfold Shaped at this ⊢
  rwa [h]

lemma Shaped.get (h : s.Shaped s') {c : TxLockCandidate}
    (hc : s.mapTxLockCandidates[hash]? = some c) :
    ∃ c', s'.mapTxLockCandidates[hash]? = some c' ∧ c.SameShape c' := by
  have hr := h hash
  rw [hc] at hr
  generalize s'.mapTxLockCandidates[hash]? = x at hr
  cases hr with
  | some hh => exact ⟨_, rfl, hh⟩

lemma Shaped.get' (h : s.Shaped s') {c' : TxLockCandidate}
    (hc : s'.mapTxLockCandidates[hash]? = some c') :
    ∃ c, s.mapTxLockCandidates[hash]? = some c ∧ c.SameShape c' := by
  have hr := h hash
  rw [hc] at hr
  generalize s.mapTxLockCandidates[hash]? = x at hr
  cases hr with
  | some hh => exact ⟨_, rfl, hh⟩

lemma Shaped.trans (h : s.Shaped s') (h' : s'.Shaped s'') : s.Shaped s'' := by
  intro hash
  have h1 := h hash
  have h2 := h' hash
  generalize s.mapTxLockCandidates[hash]? = x at h1 ⊢
  generalize s'.mapTxLockCandidates[hash]? = y at h1 h2
  cases h1 with
  | none => exact h2
  | some hh =>
    generalize s''.mapTxLockCandidates[hash]? = z at h2 ⊢
    cases h2 with
    | some hh' => exact .some (hh.trans hh')

lemma HasLock.of_shaped {o : OutPoint} (h : s.HasLock hash o)
    (hh : s.Shaped s') : s'.HasLock hash o := by
  obtain ⟨c, hc, ho⟩ := h
  obtain ⟨c', hc', hp⟩ := hh.get hc
  exact ⟨c', hc', (hp.2 o).2 ho⟩

lemma Sound.of_shaped [ChainHash] (hs : s.Sound) (h : s.Shaped s')
    (hv : s'.mapVotedOutpoints = s.mapVotedOutpoints) : s'.Sound := by
  refine ⟨fun o hash ho => ?_, fun hash c' hc' o ho => ?_⟩
  · exact (hs.voted o hash (by rwa [Voted, ← hv])).of_shaped h
  · obtain ⟨c, hc, hh⟩ := h.get' hc'
    rw [hh.getHash_eq]
    exact hs.keyed hash c hc o ((hh.2 o).1 ho)

lemma shaped_modifyCandidate (hash : Uint256) {f : TxLockCandidate → TxLockCandidate}
    (hf : ∀ c : TxLockCandidate, c.SameShape (f c)) : s.Shaped (s.modifyCandidate hash f) := by
  unfold modifyCandidate
  split
  · exact .refl s
  · rename_i c hc
    intro hash'
    simp only [getElem?_insert]
    split_ifs with he
    · subst he
      rw [hc]
      exact .some (hf c)
    · exact Shaped.refl s hash'

@[simp] lemma modifyCandidate_voted (hash : Uint256) (f : TxLockCandidate → TxLockCandidate) :
    (s.modifyCandidate hash f).mapVotedOutpoints = s.mapVotedOutpoints := by
  unfold modifyCandidate
  split <;> rfl

end Shape

section Removal
variable [ChainHash] {p : VoteParams} {ctx : VoteContext} {s : DirectSend}
variable (hs : s.Sound)
include hs

lemma Sound.removeCandidate {hash : Uint256} {c : TxLockCandidate}
    (hc : ∀ c', s.mapTxLockCandidates[hash]? = some c' → c' = c) :
    (s.removeCandidate hash c).Sound := by
  refine ⟨fun o hash' ho => ?_, fun hash' c' hc' => ?_⟩
  · simp only [Voted, DirectSend.removeCandidate, getElem?_foldl_erase] at ho
    split_ifs at ho with hm
    · simp at ho
    · obtain ⟨c', hc', hl⟩ := hs.voted o hash' ho
      have hn : hash' ≠ hash := by
        rintro rfl
        obtain rfl := hc c' hc'
        exact hm (ExtTreeMap.mem_keys.2 hl)
      refine ⟨c', ?_, hl⟩
      rw [DirectSend.removeCandidate, getElem?_erase, if_neg hn]
      exact hc'
  · rw [DirectSend.removeCandidate, getElem?_erase] at hc'
    split_ifs at hc'
    exact hs.keyed hash' c' hc'

variable (p ctx) in
lemma Sound.checkAndRemove : (s.checkAndRemove p ctx).Sound := by
  unfold DirectSend.checkAndRemove
  split_ifs
  · exact hs
  · -- candidates are only removed, so the ones met in the loop are those stored at its start
    have hl : (s.removeExpiredCandidates p).Sound ∧ ∀ (hash : Uint256) c,
        (s.removeExpiredCandidates p).mapTxLockCandidates[hash]? = some c →
          s.mapTxLockCandidates[hash]? = some c := by
      unfold removeExpiredCandidates
      refine List.foldlRecOn (motive := fun s' : DirectSend => s'.Sound ∧ ∀ (hash : Uint256) c,
        s'.mapTxLockCandidates[hash]? = some c → s.mapTxLockCandidates[hash]? = some c)
        _ _ ⟨hs, fun _ _ h => h⟩ fun s' hs' e he => ?_
      split_ifs
      · refine ⟨hs'.1.removeCandidate fun c' hc' => ?_, fun hash c hc => ?_⟩
        · have := hs'.2 e.1 c' hc'
          rw [ExtTreeMap.mem_toList_iff_getElem?_eq_some.1 he] at this
          exact (Option.some.inj this).symm
        · rw [DirectSend.removeCandidate, getElem?_erase] at hc
          split_ifs at hc
          exact hs'.2 hash c hc
      · exact hs'
    exact hl.1.of_shaped (.of_eq rfl) rfl

lemma Sound.dropBoth (txHash conflict : Uint256) : (s.dropBoth p ctx txHash conflict).Sound := by
  unfold DirectSend.dropBoth
  split
  · have he : ∀ c : TxLockCandidate, c.SameShape { c with nConfirmedHeight := 0 } :=
      fun c => ⟨rfl, fun _ => Iff.rfl⟩
    have hb := hs.of_shaped ((shaped_modifyCandidate txHash he).trans
      (shaped_modifyCandidate conflict he)) (by simp)
    exact (hb.checkAndRemove p ctx).of_shaped (.of_eq rfl) rfl
  · exact hs

lemma Sound.resolveInput {txHash : Uint256} {o : OutPoint} {s' : DirectSend}
    (h : s.resolveInput p ctx txHash o = some s') : s'.Sound := by
  unfold DirectSend.resolveInput at h
  split at h
  · split_ifs at h
    cases h
    exact hs
  · split_ifs at h
    · cases h
      exact hs.dropBoth txHash _
    · cases h
      exact hs

lemma Sound.tryToFinalizeLockCandidate (c : TxLockCandidate) :
    (s.tryToFinalizeLockCandidate p ctx c).Sound := by
  have hr : (s.resolveConflicts p ctx c).2.Sound := by
    simp only [resolveConflicts]
    split_ifs
    · exact hs
    · split
      · rename_i h
        obtain ⟨o, -, ho⟩ := List.exists_of_findSome?_eq_some h
        exact hs.resolveInput ho
      · exact hs
  unfold DirectSend.tryToFinalizeLockCandidate
  split_ifs
  · split
    · rename_i s' h
      rw [h] at hr
      unfold lockTransactionInputs
      split_ifs
      · exact hr
      · exact hr.of_shaped (.of_eq rfl) rfl
    · rename_i s' h
      rwa [h] at hr
  · exact hs

end Removal

section Votes
variable {p : VoteParams} {ctx : VoteContext} {s s' : DirectSend} {vote : TxLockVote}

lemma Sound.insertVoted [ChainHash] (hs : s.Sound) {hash : Uint256} {o : OutPoint}
    (hl : s.HasLock hash o) (hn : s'.mapTxLockCandidates = s.mapTxLockCandidates)
    (hv : s'.mapVotedOutpoints =
      s.mapVotedOutpoints.insert o ((s.mapVotedOutpoints[o]?.getD ∅).insert hash)) : s'.Sound := by
  refine ⟨fun o' hash' h => ?_, fun hash' c hc => hs.keyed hash' c (hn ▸ hc)⟩
  rw [HasLock, hn]
  rw [Voted, hv, getElem?_insert] at h
  split_ifs at h with he
  · subst he
    rcases mem_insert.1 h with rfl | h
    · exact hl
    · exact hs.voted o' hash' h
  · exact hs.voted o' hash' h

lemma shaped_markConflicting (vote : TxLockVote) (hash : Uint256) :
    s.Shaped (s.markConflicting vote hash) ∧
      (s.markConflicting vote hash).mapVotedOutpoints = s.mapVotedOutpoints := by
  unfold markConflicting
  split
  · exact ⟨.refl s, rfl⟩
  · split_ifs
    · have hm : ∀ c : TxLockCandidate, c.SameShape (c.markOutpointAsAttacked vote.outpoint) :=
        fun c => sameShape_modifyLock _
      exact ⟨(shaped_modifyCandidate _ hm).trans (shaped_modifyCandidate _ hm), by simp⟩
    · exact ⟨.refl s, rfl⟩

lemma updateVotedOutpoints_spec (s : DirectSend) (vote : TxLockVote) :
    ∃ s1, s.Shaped s1 ∧ s1.mapVotedOutpoints = s.mapVotedOutpoints ∧
      (s.updateVotedOutpoints vote).mapTxLockCandidates = s1.mapTxLockCandidates ∧
      (s.updateVotedOutpoints vote).mapVotedOutpoints = s1.mapVotedOutpoints.insert vote.outpoint
        ((s1.mapVotedOutpoints[vote.outpoint]?.getD ∅).insert vote.txHash) := by
  unfold updateVotedOutpoints
  split
  · rename_i hashes hh
    obtain ⟨s1, hs1⟩ : ∃ s1, s1 = hashes.toList.foldl
      (fun s hash => s.markConflicting vote hash) s := ⟨_, rfl⟩
    have hl : s.Shaped s1 ∧ s1.mapVotedOutpoints = s.mapVotedOutpoints := by
      rw [hs1]
      refine List.foldlRecOn (motive := fun s1 : DirectSend => s.Shaped s1 ∧
        s1.mapVotedOutpoints = s.mapVotedOutpoints) _ _ ⟨.refl s, rfl⟩ fun s1 h hash _ => ?_
      have hm := shaped_markConflicting (s := s1) vote hash
      exact ⟨h.1.trans hm.1, hm.2.trans h.2⟩
    rw [← hs1]
    exact ⟨s1, hl.1, hl.2, rfl, by simp [hl.2, hh]⟩
  · rename_i hn
    exact ⟨s, .refl s, rfl, rfl, by rw [hn]; rfl⟩

lemma Sound.addVote [ChainHash] (hs : s.Sound) (hl : s.HasLock vote.txHash vote.outpoint) :
    (s.addVote vote).2.Sound ∧ s.Shaped (s.addVote vote).2 := by
  obtain ⟨s1, hh, hv, hc, hi⟩ := updateVotedOutpoints_spec s vote
  have hn := (hs.of_shaped hh hv).insertVoted (hl.of_shaped hh) hc hi
  have hs' := hh.trans (.of_eq hc)
  unfold DirectSend.addVote
  simp only
  split
  · exact ⟨hn, hs'⟩
  · have ha : ∀ c : TxLockCandidate, c.SameShape (c.addVote vote) := fun c => sameShape_modifyLock _
    have hm := shaped_modifyCandidate (s := s.updateVotedOutpoints vote) vote.txHash ha
    exact ⟨hn.of_shaped hm (by simp), hs'.trans hm⟩

lemma Sound.addOrphanVote [ChainHash] (hs : s.Sound) : (s.addOrphanVote p ctx vote).2.Sound := by
  have he : (s.createEmptyTxLockCandidate ctx vote.txHash).Sound := by
    have hg : ∀ hash : Uint256, ∀ c,
        (s.createEmptyTxLockCandidate ctx vote.txHash).mapTxLockCandidates[hash]? = some c →
          s.mapTxLockCandidates[hash]? = some c ∨ c.mapOutPointLocks = ∅ := by
      intro hash c hc
      simp only [createEmptyTxLockCandidate, getElem?_insertIfNew] at hc
      split_ifs at hc
      · cases hc
        exact .inr rfl
      · exact .inl hc
    refine ⟨fun o hash h => ?_, fun hash c hc o ho => ?_⟩
    · obtain ⟨c, hc, ho⟩ := hs.voted o hash h
      refine ⟨c, ?_, ho⟩
      simp only [createEmptyTxLockCandidate, getElem?_insertIfNew]
      rw [if_neg, hc]
      rintro ⟨rfl, hn⟩
      rw [hn] at hc
      cases hc
    · rcases hg hash c hc with hc | hc
      · exact hs.keyed hash c hc o ho
      · simp [hc] at ho
  unfold DirectSend.addOrphanVote
  simp only
  split
  · exact he.of_shaped (.of_eq rfl) rfl
  · split_ifs <;> exact he.of_shaped (.of_eq rfl) rfl

/-- Votes for a candidate that has its request are for its outpoints. -/
def ForInputs (s : DirectSend) (vote : TxLockVote) : Prop :=
  ∀ c, s.mapTxLockCandidates[vote.txHash]? = some c → c.txLockRequest.isSome →
    vote.outpoint ∈ c.mapOutPointLocks

lemma Sound.processNewTxLockVote [ChainHash] (hs : s.Sound) (hv : s.ForInputs vote) :
    (s.processNewTxLockVote p ctx vote).2.Sound := by
  unfold DirectSend.processNewTxLockVote
  split_ifs
  · exact hs
  · split
    · exact hs.addOrphanVote
    · rename_i c hc
      split_ifs with hr
      · exact hs.addOrphanVote
      · exact hs
      · have hm : c.txLockRequest.isSome := by
          cases ho : c.txLockRequest <;> simp_all
        have ha := hs.addVote ⟨c, hc, hv c hc hm⟩
        split
        · rename_i s' h
          rw [h] at ha
          exact ha.1
        · rename_i s' h
          rw [h] at ha
          split
          · exact ha.1
          · exact ha.1.tryToFinalizeLockCandidate _

end Votes

section Requests
variable [ChainHash] {p : VoteParams} {ctx : VoteContext} {s s' : DirectSend} {tx : Transaction}

omit [ChainHash] in
lemma ForInputs.of_shaped {vote : TxLockVote} (h : s.ForInputs vote) (hp : s.Shaped s') :
    s'.ForInputs vote := by
  intro c' hc' hr
  obtain ⟨c, hc, hh⟩ := hp.get' hc'
  exact (hh.2 _).2 (h c hc (hh.1 ▸ hr))

variable (ctx) in
lemma Sound.processOrphanTxLockVotes (hs : s.Sound)
    (hv : ∀ (hash : Uint256) vote, s.mapTxLockVotesOrphan[hash]? = some vote →
      s.ForInputs vote) : (s.processOrphanTxLockVotes ctx).Sound := by
  suffices h : (s.processOrphanTxLockVotes ctx).Sound ∧
      s.Shaped (s.processOrphanTxLockVotes ctx) from h.1
  unfold DirectSend.processOrphanTxLockVotes
  refine List.foldlRecOn (motive := fun s' : DirectSend => s'.Sound ∧ s.Shaped s') _ _
    ⟨hs, .refl s⟩ fun s1 h e he => ?_
  have ht : s1.ForInputs e.2 :=
    (hv e.1 e.2 (ExtTreeMap.mem_toList_iff_getElem?_eq_some.1 he)).of_shaped h.2
  have ho : (s1.processOrphanTxLockVote ctx e.2).2.Sound ∧
      s1.Shaped (s1.processOrphanTxLockVote ctx e.2).2 := by
    unfold processOrphanTxLockVote
    split
    · exact ⟨h.1, .refl s1⟩
    · rename_i c hc
      split_ifs with hk
      · exact ⟨h.1, .refl s1⟩
      · refine h.1.addVote ⟨c, hc, ht c hc ?_⟩
        cases hp : c.txLockRequest <;> simp_all
  unfold takeOrphan
  split
  · rename_i s2 hq
    rw [hq] at ho
    exact ⟨ho.1.of_shaped (.of_eq rfl) rfl, (h.2.trans ho.2).trans (.of_eq rfl)⟩
  · rename_i s2 hq
    rw [hq] at ho
    exact ⟨ho.1, h.2.trans ho.2⟩

lemma Sound.insertCandidate (hs : s.Sound) {c : TxLockCandidate} (hr : c.txLockRequest = some tx)
    (hl : ∀ o, s.HasLock tx.getHash o → o ∈ c.mapOutPointLocks) :
    ({ s with mapTxLockCandidates := s.mapTxLockCandidates.insert tx.getHash c } :
      DirectSend).Sound := by
  refine ⟨fun o hash h => ?_, fun hash c' hc' o ho => ?_⟩
  · obtain ⟨c', hc', ho⟩ := hs.voted o hash h
    by_cases he : hash = tx.getHash
    · refine ⟨c, by simp [he], hl o ⟨c', he ▸ hc', ho⟩⟩
    · refine ⟨c', ?_, ho⟩
      rw [getElem?_insert, if_neg he]
      exact hc'
  · rw [getElem?_insert] at hc'
    split_ifs at hc' with he
    · cases hc'
      simp [getHash, hr, he]
    · exact hs.keyed hash c' hc' o ho

/-- Orphan votes for a lock request are for its inputs, and so are the votes for known requests. -/
def OrphansForInputs (s : DirectSend) (tx : Transaction) : Prop :=
  ∀ (hash : Uint256) vote, s.mapTxLockVotesOrphan[hash]? = some vote →
    (vote.txHash = tx.getHash → vote.outpoint ∈ tx.vin) ∧ s.ForInputs vote

variable (ctx) in
lemma Sound.createTxLockCandidate (hs : s.Sound) (hor : s.OrphansForInputs tx) :
    (s.createTxLockCandidate ctx tx).2.Sound ∧ ((s.createTxLockCandidate ctx tx).1 = true →
      ∀ (hash : Uint256) vote,
        (s.createTxLockCandidate ctx tx).2.mapTxLockVotesOrphan[hash]? = some vote →
          (s.createTxLockCandidate ctx tx).2.ForInputs vote) := by
  -- a candidate with locks for all inputs takes the orphan votes
  have hp : ∀ c : TxLockCandidate, (∀ o ∈ tx.vin, o ∈ c.mapOutPointLocks) →
      ∀ (hash : Uint256) vote, s.mapTxLockVotesOrphan[hash]? = some vote →
        ({ s with mapTxLockCandidates := s.mapTxLockCandidates.insert tx.getHash c } :
          DirectSend).ForInputs vote := by
    intro c hl hash vote hv c' hc' hr
    rw [getElem?_insert] at hc'
    split_ifs at hc' with he
    · cases hc'
      exact hl _ ((hor hash vote hv).1 he)
    · exact (hor hash vote hv).2 c' hc' hr
  unfold DirectSend.createTxLockCandidate
  simp only
  split_ifs
  · exact ⟨hs, nofun⟩
  · split
    · rename_i hn
      refine ⟨hs.insertCandidate (by simp) ?_, fun _ => hp _ fun o ho => ?_⟩
      · rintro o ⟨c, hc, -⟩
        rw [hn] at hc
        cases hc
      · exact mem_addOutPointLocks.2 (.inl ho)
    · rename_i c hc
      have hold : ∀ o, s.HasLock tx.getHash o → o ∈ c.mapOutPointLocks := by
        rintro o ⟨c', hc', ho⟩
        rw [hc] at hc'
        cases hc'
        exact ho
      split_ifs
      · exact ⟨hs.insertCandidate rfl hold, nofun⟩
      · refine ⟨hs.insertCandidate (by simp) fun o ho => ?_, fun _ => hp _ fun o ho => ?_⟩
        · exact mem_addOutPointLocks.2 (.inr (hold o ho))
        · exact mem_addOutPointLocks.2 (.inl ho)
      · exact ⟨hs, fun _ hash vote hv => (hor hash vote hv).2⟩

lemma Sound.processTxLockRequest (hs : s.Sound) (ho : s.OrphansForInputs tx) :
    (s.processTxLockRequest p ctx tx).2.Sound := by
  have hc := hs.createTxLockCandidate ctx ho
  unfold DirectSend.processTxLockRequest
  split
  · rename_i s1 he
    rw [he] at hc
    exact hc.1
  · rename_i s1 he
    rw [he] at hc
    have hl := hc.1.processOrphanTxLockVotes ctx (hc.2 rfl)
    simp only
    split
    · exact hl
    · exact hl.tryToFinalizeLockCandidate _

end Requests
end DirectSend
end Trivechain.InstantX
