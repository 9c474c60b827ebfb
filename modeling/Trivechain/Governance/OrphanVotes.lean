import Trivechain.Governance.VoteRuns

/-!
# Orphan votes of an object

An expired orphan vote is processed once more before it is erased. If its masternode is still not
known, the vote would be stored again, but it still has the place of its masternode, so it is not.
-/

namespace Trivechain.Governance
open Bls Evo List CacheMultiMap
variable [VoteHash] [PropertyHash]

inductive OrphanEvent where
  | event (e : ObjectEvent)
  | checkOrphanVotes (ctx : GovernanceContext) (fRateChecksEnabled : Bool)

namespace GovernanceObject

section
variable (obj : GovernanceObject) (ctx : GovernanceContext) (fRateChecksEnabled : Bool)

def checkOrphanVote (item : OutPoint × VoteTimePair) : GovernanceObject :=
  let (key, pairVote) := item
  if ctx.nNow ≤ pairVote.2 ∧ !(ctx.mnList.getMNByCollateral pairVote.1.masternodeOutpoint).any
      DeterministicMN.isValid then obj
  else
    let r := obj.processVote ctx fRateChecksEnabled pairVote.1
    if pairVote.2 < ctx.nNow ∨ r.accepted then
      { r.object with cmmapOrphanVotes := r.object.cmmapOrphanVotes.erase key pairVote }
    else r.object

/-- New orphans are put to the front, where the loop has been. -/
def checkOrphanVotes : GovernanceObject :=
  obj.cmmapOrphanVotes.listItems.foldl (checkOrphanVote · ctx fRateChecksEnabled) obj

def handleOrphan : OrphanEvent → GovernanceObject
  | .event e => obj.handle e
  | .checkOrphanVotes ctx fRateChecksEnabled => obj.checkOrphanVotes ctx fRateChecksEnabled

def orphans : List (OutPoint × VoteTimePair) := obj.cmmapOrphanVotes.listItems

end

/-- The cache of a new object has no bound, and its items are stored under the masternodes. -/
structure Keyed (obj : GovernanceObject) : Prop where
  unbounded : obj.cmmapOrphanVotes.nMaxSize = 0
  key_eq : ∀ x ∈ obj.orphans, x.1 = x.2.1.masternodeOutpoint

variable {obj : GovernanceObject} {ctx : GovernanceContext} {checks : Bool}
  {vote : GovernanceVote} {item x : OutPoint × VoteTimePair}

variable (obj) in
omit [PropertyHash] in
lemma pairwise_orphans : obj.orphans.Pairwise fun x y => x.1 ≠ y.1 := by
  refine obj.cmmapOrphanVotes.distinct.imp fun {x y} h he => ?_
  have := VoteTimePair.equiv_eq_true x.2 y.2
  grind [equiv]

/-- A vote is stored only if no vote of its masternode waits. -/
lemma Keyed.orphans_processVote (h : obj.Keyed) (ctx : GovernanceContext) (checks : Bool)
    (vote : GovernanceVote) : (obj.processVote ctx checks vote).object.Keyed ∧
      ((obj.processVote ctx checks vote).object.orphans = obj.orphans ∨
        (∀ x ∈ obj.orphans, x.1 ≠ vote.masternodeOutpoint) ∧
        (obj.processVote ctx checks vote).object.orphans = (vote.masternodeOutpoint, vote,
          ctx.nNow + GOVERNANCE_ORPHAN_EXPIRATION_TIME) :: obj.orphans) := by
  unfold processVote
  by_cases hf : obj.fileVotes.hasVote vote.getHash
  · rw [if_pos hf]
    exact ⟨h, .inl rfl⟩
  rw [if_neg hf]
  dsimp only
  cases ctx.mnList.getMNByCollateral vote.masternodeOutpoint with
  | none =>
    have hp : obj.cmmapOrphanVotes.pruned = obj.orphans := by
      unfold pruned
      split_ifs with hl
      · rw [orphans, length_eq_zero_iff.1 (hl.trans h.unbounded), dropLast_nil]
      · rfl
    dsimp only [reject, orphans, CacheMultiMap.insert]
    split_ifs with hi
    · exact ⟨h, .inl rfl⟩
    · refine ⟨⟨h.unbounded, fun x hx => ?_⟩, .inr ⟨fun x hx he => hi ?_, congrArg (_ :: ·) hp⟩⟩
      · change x ∈ _ :: obj.cmmapOrphanVotes.pruned at hx
        rw [hp] at hx
        rcases mem_cons.1 hx with rfl | hx
        exacts [rfl, h.key_eq x hx]
      · exact any_eq_true.2 ⟨x, hx, decide_eq_true ⟨he, VoteTimePair.equiv_eq_true _ _⟩⟩
  | some dmn => split_ifs <;> exact ⟨⟨h.unbounded, h.key_eq⟩, .inl rfl⟩

/-- The loop erases an item that has expired, and no others than the one it is at. -/
lemma Keyed.orphans_checkOrphanVote (h : obj.Keyed) (ctx : GovernanceContext) (checks : Bool)
    (hi : item ∈ obj.orphans) : (obj.checkOrphanVote ctx checks item).Keyed ∧
      ∀ x, (x ∈ (obj.checkOrphanVote ctx checks item).orphans → x ∈ obj.orphans ∧
          (x = item → ctx.nNow ≤ x.2.2)) ∧
        (x ∈ obj.orphans → x.1 ≠ item.1 → x ∈ (obj.checkOrphanVote ctx checks item).orphans) := by
  obtain ⟨hk, ho⟩ := h.orphans_processVote ctx checks item.2.1
  -- the place of the item is its own
  replace ho := ho.resolve_right fun ho => ho.1 item hi (h.key_eq item hi)
  unfold checkOrphanVote
  dsimp only
  split_ifs with hs ha
  · exact ⟨h, fun x => ⟨fun hx => ⟨hx, fun he => he ▸ hs.1⟩, fun hx _ => hx⟩⟩
  · have hm : ∀ {x}, x ∈ ((obj.processVote ctx checks item.2.1).object.cmmapOrphanVotes.erase item.1
        item.2).listItems ↔ x ∈ obj.orphans ∧ x.1 ≠ item.1 := by
      rintro ⟨k, p⟩
      rw [mem_listItems_erase _ fun p q _ _ _ => VoteTimePair.equiv_eq_true p q]
      simp only [VoteTimePair.equiv_eq_true, and_true, ← ho]
      rfl
    refine ⟨⟨hk.unbounded, fun x hx => h.key_eq x (hm.1 hx).1⟩, fun x => ⟨fun hx => ?_, fun hx hn =>
      hm.2 ⟨hx, hn⟩⟩⟩
    exact ⟨(hm.1 hx).1, fun he => absurd (congrArg Prod.fst he) (hm.1 hx).2⟩
  · rw [ho]
    exact ⟨hk, fun x => ⟨fun hx => ⟨hx, fun he => he ▸ not_lt.1 fun hl => ha (.inl hl)⟩,
      fun hx _ => hx⟩⟩

lemma Keyed.orphans_checkOrphanVotes (h : obj.Keyed) (ctx : GovernanceContext) (checks : Bool) :
    (obj.checkOrphanVotes ctx checks).Keyed ∧
      ∀ x ∈ (obj.checkOrphanVotes ctx checks).orphans, x ∈ obj.orphans ∧ ctx.nNow ≤ x.2.2 := by
  -- along the loop, the items to come are still there
  have hl : ∀ (l : List (OutPoint × VoteTimePair)) {obj : GovernanceObject}, obj.Keyed →
      l ⊆ obj.orphans → l.Pairwise (fun x y => x.1 ≠ y.1) →
      (l.foldl (checkOrphanVote · ctx checks) obj).Keyed ∧
        ∀ x ∈ (l.foldl (checkOrphanVote · ctx checks) obj).orphans,
          x ∈ obj.orphans ∧ (x ∈ l → ctx.nNow ≤ x.2.2) := by
    intro l
    induction l with
    | nil => exact fun h _ _ => ⟨h, fun x hx => ⟨hx, fun hn => absurd hn (not_mem_nil)⟩⟩
    | cons item l ih =>
      intro obj h hs hd
      obtain ⟨hi, hd⟩ := pairwise_cons.1 hd
      obtain ⟨hk, ho⟩ := h.orphans_checkOrphanVote ctx checks (hs (.head _))
      obtain ⟨hk, hr⟩ := ih hk (fun x hx => (ho x).2 (hs (.tail _ hx)) (hi x hx).symm) hd
      refine ⟨hk, fun x hx => ?_⟩
      obtain ⟨hx, hn⟩ := hr x hx
      obtain ⟨hx, he⟩ := (ho x).1 hx
      exact ⟨hx, fun hm => (mem_cons.1 hm).elim he hn⟩
  obtain ⟨hk, ho⟩ := hl obj.orphans h (Subset.refl _) obj.pairwise_orphans
  exact ⟨hk, fun x hx => ⟨(ho x hx).1, (ho x hx).2 (ho x hx).1⟩⟩

omit [PropertyHash] in
lemma Keyed.of_eq {obj' : GovernanceObject} (h : obj.Keyed)
    (ho : obj'.cmmapOrphanVotes = obj.cmmapOrphanVotes) : obj'.Keyed ∧ obj'.orphans = obj.orphans :=
  have ho' : obj'.orphans = obj.orphans := congrArg CacheMultiMap.listItems ho
  ⟨⟨ho ▸ h.unbounded, ho' ▸ h.key_eq⟩, ho'⟩

/-- An orphan was there before the event, or the event is its receipt. -/
lemma Keyed.handleOrphan (h : obj.Keyed) (e : OrphanEvent) : (obj.handleOrphan e).Keyed ∧
    ∀ x ∈ (obj.handleOrphan e).orphans, x ∈ obj.orphans ∨ ∃ ctx checks,
      e = .event (.processVote ctx checks x.2.1) ∧
        x.2.2 = ctx.nNow + GOVERNANCE_ORPHAN_EXPIRATION_TIME := by
  rcases e with e | ⟨ctx, checks⟩
  · cases e with
    | processVote ctx checks w =>
      obtain ⟨hk, ho⟩ := h.orphans_processVote ctx checks w
      refine ⟨hk, fun x hx => ?_⟩
      change x ∈ (obj.processVote ctx checks w).object.orphans at hx
      rcases ho with ho | ⟨-, ho⟩
      · exact .inl (ho ▸ hx)
      · rw [ho] at hx
        rcases mem_cons.1 hx with rfl | hx
        exacts [.inr ⟨ctx, checks, rfl, rfl⟩, .inl hx]
    | clearMasternodeVotes ctx =>
      have ho : (obj.handle (.clearMasternodeVotes ctx)).cmmapOrphanVotes =
          obj.cmmapOrphanVotes := by
        refine foldlRecOn (motive := fun obj' : GovernanceObject =>
          obj'.cmmapOrphanVotes = obj.cmmapOrphanVotes) _ _ rfl ?_
        intro obj' h' o _
        dsimp only [clearVotesOf]
        split_ifs <;> exact h'
      obtain ⟨hk, ho⟩ := h.of_eq ho
      exact ⟨hk, fun x hx => .inl (ho ▸ hx)⟩
    | removeInvalidVotes ctx o =>
      have ho : (obj.handle (.removeInvalidVotes ctx o)).cmmapOrphanVotes =
          obj.cmmapOrphanVotes := by
        dsimp only [handle, removeInvalidVotes]
        split
        · rfl
        · split_ifs <;> rfl
      obtain ⟨hk, ho⟩ := h.of_eq ho
      exact ⟨hk, fun x hx => .inl (ho ▸ hx)⟩
  · obtain ⟨hk, ho⟩ := h.orphans_checkOrphanVotes ctx checks
    exact ⟨hk, fun x hx => .inl (ho x hx).1⟩

/-- Whatever waits after a run was there at its start or received in the run. -/
lemma Keyed.foldl_handleOrphan (h : obj.Keyed) (events : List OrphanEvent) :
    (events.foldl GovernanceObject.handleOrphan obj).Keyed ∧
      ∀ x ∈ (events.foldl GovernanceObject.handleOrphan obj).orphans, x ∈ obj.orphans ∨
        ∃ ctx checks, .event (.processVote ctx checks x.2.1) ∈ events := by
  induction events generalizing obj with
  | nil => exact ⟨h, fun x hx => .inl hx⟩
  | cons e events ih =>
    obtain ⟨hk, ho⟩ := h.handleOrphan e
    obtain ⟨hk, hr⟩ := ih hk
    refine ⟨hk, fun x hx => ?_⟩
    rcases hr x hx with hx | ⟨ctx, checks, hx⟩
    · rcases ho x hx with hx | ⟨ctx, checks, rfl, -⟩
      exacts [.inl hx, .inr ⟨ctx, checks, .head _⟩]
    · exact .inr ⟨ctx, checks, .tail _ hx⟩

def Waits (obj : GovernanceObject) (vote : GovernanceVote) : Prop := ∃ x ∈ obj.orphans, x.2.1 = vote

/-- A vote that is received once does not wait any more after a check of the orphan votes at a time
when it has expired, whatever happens in between and later. -/
theorem orphan_expires (obj : GovernanceObject) (hz : obj.cmmapOrphanVotes.nMaxSize = 0)
    (ho : obj.orphans = []) (vote : GovernanceVote) (ctx ctx' : GovernanceContext)
    (checks checks' : Bool) (before between after : List OrphanEvent)
    (hr : ∀ ctx checks, OrphanEvent.event (.processVote ctx checks vote) ∉
      before ++ between ++ after)
    (ht : ctx.nNow + GOVERNANCE_ORPHAN_EXPIRATION_TIME < ctx'.nNow) :
    ¬ ((before ++ .event (.processVote ctx checks vote) :: between ++
      .checkOrphanVotes ctx' checks' :: after).foldl handleOrphan obj).Waits vote := by
  simp only [mem_append, not_or] at hr
  obtain ⟨hk0, h0⟩ := (⟨hz, by simp [ho]⟩ : obj.Keyed).foldl_handleOrphan before
  obtain ⟨hk1, h1⟩ := hk0.handleOrphan (.event (.processVote ctx checks vote))
  obtain ⟨hk2, h2⟩ := hk1.foldl_handleOrphan between
  obtain ⟨hk3, h3⟩ := hk2.orphans_checkOrphanVotes ctx' checks'
  rw [foldl_append, foldl_append, foldl_cons, foldl_cons]
  rintro ⟨x, hx, rfl⟩
  -- back to the receipt, which sets the time
  rcases (hk3.foldl_handleOrphan after).2 x hx with hx | ⟨ctx, checks, hx⟩
  · obtain ⟨hx, hn⟩ := h3 x hx
    rcases h2 x hx with hx | ⟨ctx, checks, hx⟩
    · rcases h1 x hx with hx | ⟨_, _, he, hx⟩
      · rcases h0 x hx with hx | ⟨ctx, checks, hx⟩
        · simp [ho] at hx
        · exact (hr ctx checks).1.1 hx
      · cases he
        omega
    · exact (hr ctx checks).1.2 hx
  · exact (hr ctx checks).2 hx

end GovernanceObject
end Trivechain.Governance

namespace Trivechain.Governance.OneVoter
open Evo GovernanceObject

attribute [local instance] contentHash propertyHash

def unknown (nNow : Int) : GovernanceContext := { ctx with mnList := {}, nNow }

def received : GovernanceObject := (proposal.processVote (unknown 1000) false (vote 1 900)).object

/-- The vote waits when its masternode is not known, and expires at the time 1600. -/
theorem orphan_gone : received.Waits (vote 1 900) ∧
    ¬ ([OrphanEvent.event (.processVote (unknown 1000) false (vote 1 900)),
      .event (.processVote (unknown 1300) false (vote 2 950)),
      .checkOrphanVotes (unknown 1600) false, .checkOrphanVotes (unknown 1601) false].foldl
        handleOrphan proposal).Waits (vote 1 900) := by
  have h : (⟨5, 0⟩, vote 1 900, 1600) ∈ received.orphans := by decide +kernel
  refine ⟨⟨_, h, rfl⟩, orphan_expires proposal rfl rfl _ (unknown 1000) (unknown 1601) false false []
    [.event (.processVote (unknown 1300) false (vote 2 950)), .checkOrphanVotes (unknown 1600) false]
    [] ?_ (by decide)⟩
  intro ctx checks h
  simp [vote] at h

end Trivechain.Governance.OneVoter
