import Trivechain.Governance.VoteRuns
import Trivechain.Validation.Payments

/-!
# Triggers of superblocks

Whether a superblock is triggered is read from a flag of the governance object, which
`UpdateSentinelVariables` computes from the votes; which one is the best is computed from the votes
themselves. The two agree if the flag is up to date, but without a valid masternode
`UpdateSentinelVariables` returns before it resets the flag.
-/

namespace Trivechain.Governance
open Evo Validation List GovernanceObject
variable [VoteHash]

/-- `CSuperblock` with its governance object. -/
structure Trigger where
  nBlockHeight : Int
  object : Option GovernanceObject

def Trigger.yesCountAt (t : Trigger) (nBlockHeight : Int) : Option Int :=
  if nBlockHeight ≠ t.nBlockHeight then none
  else t.object.map (getAbsoluteYesCount · VOTE_SIGNAL_FUNDING)

/-- `max(nGovernanceMinQuorum, nMnCount / 10)` -/
def GovernanceContext.absVoteReq (ctx : GovernanceContext) : Int :=
  max ctx.nGovernanceMinQuorum ((ctx.mnList.getValidMNsCount : Int) / 10)

section Manager
variable (ctx : GovernanceContext) (p : ValueParams) (nBlockHeight : Int)

def triggeredLoop : List Trigger → Bool × List Trigger
  | [] => (false, [])
  | t :: triggers =>
    match t.object with
    | none => ((triggeredLoop triggers).1, t :: (triggeredLoop triggers).2)
    | some obj =>
      if nBlockHeight ≠ t.nBlockHeight then
        ((triggeredLoop triggers).1, t :: (triggeredLoop triggers).2)
      else
        let pObj := obj.updateSentinelVariables ctx
        if pObj.fCachedFunding then (true, { t with object := some pObj } :: triggers)
        else ((triggeredLoop triggers).1, { t with object := some pObj } :: (triggeredLoop triggers).2)

def isSuperblockTriggered (vecTriggers : List Trigger) : Bool × List Trigger :=
  if !p.isValidBlockHeight nBlockHeight then (false, vecTriggers)
  else triggeredLoop ctx nBlockHeight vecTriggers

def betterTrigger (best : Int × Option Trigger) (t : Trigger) : Int × Option Trigger :=
  match t.yesCountAt nBlockHeight with
  | none => best
  | some nTempYesCount => if best.1 < nTempYesCount then (nTempYesCount, some t) else best

def getBestSuperblock (vecTriggers : List Trigger) : Option Trigger :=
  if !p.isValidBlockHeight nBlockHeight then none
  else
    let best := vecTriggers.foldl (betterTrigger nBlockHeight) (0, none)
    if 0 < best.1 then best.2 else none

/-- If a superblock is triggered, the best one has enough votes and the most. -/
def Answered (vecTriggers : List Trigger) : Prop :=
  (isSuperblockTriggered ctx p nBlockHeight vecTriggers).1 = true →
    ∃ best n, getBestSuperblock p nBlockHeight
        (isSuperblockTriggered ctx p nBlockHeight vecTriggers).2 = some best ∧
      best.yesCountAt nBlockHeight = some n ∧ ctx.absVoteReq ≤ n ∧
      ∀ t ∈ vecTriggers, ∀ m ∈ t.yesCountAt nBlockHeight, m ≤ n

end Manager

variable {ctx : GovernanceContext} {p : ValueParams} {nBlockHeight : Int}
  {vecTriggers : List Trigger}

lemma fCachedFunding_updateSentinelVariables (obj : GovernanceObject) :
    (obj.updateSentinelVariables ctx).fCachedFunding =
      if ctx.mnList.getValidMNsCount = 0 then obj.fCachedFunding
      else decide (ctx.absVoteReq ≤ obj.getAbsoluteYesCount VOTE_SIGNAL_FUNDING) := by
  unfold updateSentinelVariables
  simp only [Nat.cast_eq_zero]
  split_ifs <;> rfl

lemma triggeredLoop_votes (ctx : GovernanceContext) (nBlockHeight : Int) (triggers : List Trigger) :
    (triggeredLoop ctx nBlockHeight triggers).2.map (Trigger.yesCountAt · nBlockHeight) =
      triggers.map (Trigger.yesCountAt · nBlockHeight) := by
  induction triggers with
  | nil => rfl
  | cons t triggers ih =>
    have hv : ∀ obj, t.object = some obj →
        ({ t with object := some (obj.updateSentinelVariables ctx) } : Trigger).yesCountAt
          nBlockHeight = t.yesCountAt nBlockHeight := by
      intro obj ho
      have hc : (obj.updateSentinelVariables ctx).getAbsoluteYesCount VOTE_SIGNAL_FUNDING =
          obj.getAbsoluteYesCount VOTE_SIGNAL_FUNDING := by
        unfold updateSentinelVariables
        dsimp only
        split_ifs <;> rfl
      simp [Trigger.yesCountAt, ho, hc]
    unfold triggeredLoop
    split
    · simp [ih]
    · rename_i obj ho
      dsimp only
      split_ifs <;> simp [ih, hv obj ho]

lemma triggeredLoop_eq_true (triggers : List Trigger) :
    (triggeredLoop ctx nBlockHeight triggers).1 = true ↔ ∃ t ∈ triggers, ∃ obj,
      t.object = some obj ∧ nBlockHeight = t.nBlockHeight ∧
      (obj.updateSentinelVariables ctx).fCachedFunding = true := by
  induction triggers with
  | nil => simp [triggeredLoop]
  | cons t triggers ih =>
    rw [exists_mem_cons_iff, ← ih, triggeredLoop]
    split
    · rename_i ho
      simp [ho]
    · rename_i obj ho
      dsimp only
      split_ifs <;> simp_all

lemma foldl_betterTrigger (nBlockHeight : Int) (triggers : List Trigger) (start :
  Int × Option Trigger)
    (hst : 0 < start.1 → ∃ t, start.2 = some t ∧ t.yesCountAt nBlockHeight = some start.1) :
    let best := triggers.foldl (betterTrigger nBlockHeight) start
    start.1 ≤ best.1 ∧ (∀ t ∈ triggers, ∀ m ∈ t.yesCountAt nBlockHeight, m ≤ best.1) ∧
      (0 < best.1 → ∃ t, best.2 = some t ∧ t.yesCountAt nBlockHeight = some best.1) ∧
      ∀ t ∈ best.2, t ∈ triggers ∨ t ∈ start.2 := by
  induction triggers generalizing start with
  | nil => exact ⟨le_refl _, by simp, hst, fun t ht => .inr ht⟩
  | cons t triggers ih =>
    have hs : start.1 ≤ (betterTrigger nBlockHeight start t).1 ∧
        (∀ m ∈ t.yesCountAt nBlockHeight, m ≤ (betterTrigger nBlockHeight start t).1) ∧
        (0 < (betterTrigger nBlockHeight start t).1 →
          ∃ t', (betterTrigger nBlockHeight start t).2 = some t' ∧
            t'.yesCountAt nBlockHeight = some (betterTrigger nBlockHeight start t).1) ∧
        ∀ t' ∈ (betterTrigger nBlockHeight start t).2, t' = t ∨ t' ∈ start.2 := by
      unfold betterTrigger
      split
      · rename_i hnn
        exact ⟨le_refl _, by simp [hnn], hst, fun t' ht => .inr ht⟩
      · rename_i n hn
        split_ifs with hlt
        · exact ⟨hlt.le, by simp [hn], fun _ => ⟨t, rfl, hn⟩, by simp⟩
        · exact ⟨le_refl _, by simpa [hn] using hlt, hst, fun t' ht => .inr ht⟩
    obtain ⟨hl, hms, hf, hmm⟩ := ih _ hs.2.2.1
    refine ⟨hs.1.trans hl, ?_, hf, fun t' ht => ?_⟩
    · rw [forall_mem_cons]
      exact ⟨fun m hm => (hs.2.1 m hm).trans hl, hms⟩
    · rcases hmm t' ht with hmm | hmm
      · exact .inl (.tail t hmm)
      · exact (hs.2.2.2 t' hmm).imp_left fun he => mem_cons.2 (.inl he)

def Backed (ctx : GovernanceContext) (nBlockHeight : Int) (triggers : List Trigger) : Prop :=
  ∃ t ∈ triggers, ∃ n ∈ t.yesCountAt nBlockHeight, ctx.absVoteReq ≤ n

lemma best_iff_backed (hq : 0 < ctx.nGovernanceMinQuorum)
    (hh : p.isValidBlockHeight nBlockHeight) (triggers : List Trigger) :
    (∃ best n, getBestSuperblock p nBlockHeight triggers = some best ∧
      best.yesCountAt nBlockHeight = some n ∧ ctx.absVoteReq ≤ n ∧
      ∀ t ∈ triggers, ∀ m ∈ t.yesCountAt nBlockHeight, m ≤ n) ↔
    Backed ctx nBlockHeight triggers := by
  obtain ⟨-, hm, hf, hmm⟩ := foldl_betterTrigger nBlockHeight triggers (0, none)
    (fun h => absurd h (lt_irrefl 0))
  rw [getBestSuperblock, hh]
  dsimp only [Bool.not_true, Bool.false_eq_true, if_false] at hm hf hmm ⊢
  constructor
  · rintro ⟨best, n, hb, hn, hl, -⟩
    split_ifs at hb
    have hi : best ∈ triggers := by simpa using hmm best hb
    exact ⟨best, hi, n, hn, hl⟩
  · rintro ⟨t, ht, n, hn, hl⟩
    have hr : 0 < ctx.absVoteReq := lt_max_of_lt_left hq
    have hn_le := hm t ht n hn
    have hp : 0 < (triggers.foldl (betterTrigger nBlockHeight) (0, none)).1 :=
      hr.trans_le (hl.trans hn_le)
    obtain ⟨best, hb, hc⟩ := hf hp
    exact ⟨best, _, by rw [if_neg (by simp), if_pos hp, hb], hc, hl.trans hn_le, hm⟩

lemma forall_votes_iff {triggers triggers' : List Trigger}
    (h : triggers.map (Trigger.yesCountAt · nBlockHeight) =
      triggers'.map (Trigger.yesCountAt · nBlockHeight)) (P : Int → Prop) :
    (∀ t ∈ triggers, ∀ m ∈ t.yesCountAt nBlockHeight, P m) ↔
      ∀ t ∈ triggers', ∀ m ∈ t.yesCountAt nBlockHeight, P m := by
  rw [← forall_mem_map (P := fun c => ∀ m ∈ c, P m), h, forall_mem_map]

/-- The answers agree exactly if, while no masternode is valid, a trigger that still has the flag
comes with one for the same height with enough votes. -/
theorem answered_iff (hquorum : 0 < ctx.nGovernanceMinQuorum) :
    Answered ctx p nBlockHeight vecTriggers ↔
      (ctx.mnList.getValidMNsCount = 0 → p.isValidBlockHeight nBlockHeight = true →
        (∃ t ∈ vecTriggers, ∃ obj, t.object = some obj ∧ nBlockHeight = t.nBlockHeight ∧
          obj.fCachedFunding = true) → Backed ctx nBlockHeight vecTriggers) := by
  unfold Answered isSuperblockTriggered
  cases hh : p.isValidBlockHeight nBlockHeight with
  | false => simp
  | true =>
    have hv := triggeredLoop_votes ctx nBlockHeight vecTriggers
    have hb : Backed ctx nBlockHeight (triggeredLoop ctx nBlockHeight vecTriggers).2 ↔
        Backed ctx nBlockHeight vecTriggers := by
      have h := not_congr (forall_votes_iff hv fun n => ¬ ctx.absVoteReq ≤ n)
      push Not at h
      exact h
    simp only [Bool.not_true, Bool.false_eq_true, if_false, forall_const, ← forall_votes_iff hv]
    rw [best_iff_backed hquorum hh, hb, triggeredLoop_eq_true]
    simp only [fCachedFunding_updateSentinelVariables]
    by_cases hm : ctx.mnList.getValidMNsCount = 0
    · simp [hm]
    · simp only [hm, if_false, decide_eq_true_eq, false_imp_iff, iff_true]
      -- the flag is up to date
      rintro ⟨t, ht, obj, ho, hs, hl⟩
      exact ⟨t, ht, _, by rw [Trigger.yesCountAt, if_neg (not_not.2 hs), ho]; rfl, hl⟩

end Trivechain.Governance

namespace Trivechain.Governance.StaleFlag
open Evo Validation OneVoter

local instance : VoteHash := contentHash
local instance : PropertyHash := propertyHash

def funded : GovernanceObject :=
  (({ proposal with nObjectType := GOVERNANCE_OBJECT_TRIGGER }.processVote ctx false
    (vote 1 900)).object).updateSentinelVariables ctx

def emptied : GovernanceContext := { ctx with mnList := {} }

theorem answered_with_masternode : Answered ctx TwicePaid.params 9 [⟨9, some funded⟩] ∧
      (isSuperblockTriggered ctx TwicePaid.params 9 [⟨9, some funded⟩]).1 = true :=
  ⟨(answered_iff (by decide)).2 fun h => absurd h (by decide +kernel), by decide +kernel⟩

/-- Once the votes of masternodes that are gone were removed, the flag is still there. -/
theorem triggered_without_votes : (isSuperblockTriggered emptied TwicePaid.params 9
      [⟨9, some (funded.clearMasternodeVotes emptied)⟩]).1 = true ∧
    (getBestSuperblock TwicePaid.params 9 (isSuperblockTriggered emptied TwicePaid.params 9
      [⟨9, some (funded.clearMasternodeVotes emptied)⟩]).2).isNone = true := by
  constructor <;> decide +kernel

end Trivechain.Governance.StaleFlag
