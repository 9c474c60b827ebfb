import Trivechain.Evo.SpecialTx

/-!
# The value of a coinbase

What a coinbase may pay: the subsidy and the fees, and at the heights of superblocks the payments of
the triggered superblock. `IsBlockValueValid` has a branch for each thing a node may not know:
whether it is synced, whether superblocks are enabled, which triggers it has.
-/

namespace Trivechain.Validation
open Evo

def MAX_MONEY : Amount := 84000000 * COIN

def MoneyRange (nValue : Amount) : Prop := 0 ≤ nValue ∧ nValue ≤ MAX_MONEY

instance (nValue : Amount) : Decidable (MoneyRange nValue) := inferInstanceAs (Decidable (_ ∧ _))

def addValueOut (nValueOut : Amount) (out : TxOut) : Run Amount :=
  if MoneyRange out.nValue ∧ MoneyRange (nValueOut + out.nValue) then .ok (nValueOut + out.nValue)
  else .error (.fault .outOfRange)

def getValueOut (tx : Transaction) : Run Amount := tx.vout.foldlM addValueOut 0

structure ValueParams where
  nBudgetPaymentsStartBlock : Int
  nBudgetPaymentsCycleBlocks : Int
  nBudgetPaymentsWindowBlocks : Int
  nSuperblockStartBlock : Int
  nSuperblockCycle : Nat
  /-- The bits for which `GetPaymentsLimit` takes the subsidy. -/
  nBitsLimit : Int
  /-- `GetBlockSubsidy` by bits and height of the block below, the whole or the part that is kept
  for superblocks. -/
  getBlockSubsidy : Int → Int → Bool → Amount
  /-- The first block has a large subsidy, all others at most that of the time of mining with
  processors. -/
  subsidy_range : ∀ nPrevBits nPrevHeight fSuperblockPartOnly,
    0 ≤ getBlockSubsidy nPrevBits nPrevHeight fSuperblockPartOnly ∧
      getBlockSubsidy nPrevBits nPrevHeight fSuperblockPartOnly ≤
        if nPrevHeight = 0 then 33600000 * COIN else 50 * COIN
  cycle_le : nSuperblockCycle ≤ 43800

/-- `CSuperblock` with what is read of its governance object. -/
structure Superblock where
  nBlockHeight : Int
  vecPayments : List TxOut
  hasObject : Bool := true
  isSetCachedFunding : Bool := true
  absoluteYesCount : Int

structure ValueContext where
  isSynced : Bool
  fLiteMode : Bool
  superblocksEnabled : Bool
  /-- `GetActiveTriggers` -/
  triggers : List Superblock

namespace ValueParams
variable (p : ValueParams)

def isValidBlockHeight (nBlockHeight : Int) : Bool :=
  nBlockHeight ≥ p.nSuperblockStartBlock ∧ Int.tmod nBlockHeight p.nSuperblockCycle = 0

def getPaymentsLimit (nBlockHeight : Int) : Amount :=
  if !p.isValidBlockHeight nBlockHeight then 0
  else p.getBlockSubsidy p.nBitsLimit (nBlockHeight - 1) true * p.nSuperblockCycle

lemma getPaymentsLimit_nonneg (nBlockHeight : Int) : 0 ≤ p.getPaymentsLimit nBlockHeight := by
  unfold getPaymentsLimit
  split_ifs
  · exact le_refl 0
  · exact mul_nonneg (p.subsidy_range _ _ _).1 (Int.natCast_nonneg _)

end ValueParams

namespace Superblock
variable (s : Superblock)

def getPaymentsTotalAmount : Amount := (s.vecPayments.map TxOut.nValue).sum

def findPayments : List TxOut → List TxOut → Bool
  | [], _ => true
  | payment :: payments, vout =>
    match vout.dropWhile (· ≠ payment) with
    | [] => false
    | vout => findPayments payments vout

def isValid (p : ValueParams) (txNew : Transaction) (nBlockValue : Amount) (nBlockHeight : Int)
    (blockReward : Amount) : Bool :=
  p.isValidBlockHeight nBlockHeight && s.vecPayments.length ≤ txNew.vout.length &&
    s.getPaymentsTotalAmount ≤ p.getPaymentsLimit nBlockHeight &&
    nBlockValue ≤ blockReward + s.getPaymentsTotalAmount &&
    findPayments s.vecPayments txNew.vout

end Superblock

namespace ValueContext
variable (ctx : ValueContext)

def isSuperblockTriggered (p : ValueParams) (nBlockHeight : Int) : Bool :=
  p.isValidBlockHeight nBlockHeight && ctx.triggers.any fun s =>
    s.hasObject && nBlockHeight = s.nBlockHeight && s.isSetCachedFunding

def getBestSuperblock (p : ValueParams) (nBlockHeight : Int) : Option Superblock :=
  if !p.isValidBlockHeight nBlockHeight then none
  else (ctx.triggers.foldl
    (fun best s =>
      if s.nBlockHeight = nBlockHeight && s.hasObject && s.absoluteYesCount > best.1 then
        (s.absoluteYesCount, some s)
      else best) ((0 : Int), none)).2

/-- `CSuperblockManager::IsValid` -/
def isValidSuperblock (p : ValueParams) (txNew : Transaction) (nBlockValue : Amount)
    (nBlockHeight : Int) (blockReward : Amount) : Bool :=
  match ctx.getBestSuperblock p nBlockHeight with
  | none => false
  | some s => s.isValid p txNew nBlockValue nBlockHeight blockReward

end ValueContext

section Valid
variable (p : ValueParams) (ctx : ValueContext) (txNew : Transaction) (nBlockValue : Amount)
  (nBlockHeight : Int) (blockReward : Amount)

/-- The error is kept without the numbers in it. -/
def rewardMet (reason : String) : Except String Unit :=
  if nBlockValue ≤ blockReward then .ok () else .error reason

def isOldBudgetBlockValueValid : Except String Unit :=
  if nBlockHeight < p.nBudgetPaymentsStartBlock then
    .error "Incorrect block, old budgets are not activated yet"
  else if nBlockHeight ≥ p.nSuperblockStartBlock then
    .error "Incorrect block, old budgets are no longer active"
  else if Int.tmod nBlockHeight p.nBudgetPaymentsCycleBlocks < p.nBudgetPaymentsWindowBlocks then
    if ctx.isSynced then
      rewardMet nBlockValue blockReward
        "coinbase pays too much, exceeded block reward, old budgets are disabled"
    else .ok ()
  else rewardMet nBlockValue blockReward
    "coinbase pays too much, exceeded block reward, block is not in old budget cycle window"

/-- The value of the coinbase, which is `nBlockValue`, is checked. -/
def isBlockValueValid : Except String Unit :=
  if nBlockHeight < p.nBudgetPaymentsStartBlock then
    rewardMet nBlockValue blockReward
      "coinbase pays too much, exceeded block reward, old budgets are not activated yet"
  else if nBlockHeight < p.nSuperblockStartBlock then
    isOldBudgetBlockValueValid p ctx nBlockValue nBlockHeight blockReward
  else if !p.isValidBlockHeight nBlockHeight then
    rewardMet nBlockValue blockReward ("coinbase pays too much, exceeded block reward, " ++
      "only regular blocks are allowed at this height")
  else if ¬ nBlockValue ≤ blockReward + p.getPaymentsLimit nBlockHeight then
    .error "coinbase pays too much, exceeded superblock max value"
  else if !ctx.isSynced || ctx.fLiteMode then .ok ()
  else if !ctx.superblocksEnabled then
    rewardMet nBlockValue blockReward
      "coinbase pays too much, exceeded block reward, superblocks are disabled"
  else if !ctx.isSuperblockTriggered p nBlockHeight then
    rewardMet nBlockValue blockReward
      "coinbase pays too much, exceeded block reward, no triggered superblock detected"
  else if !ctx.isValidSuperblock p txNew nBlockValue nBlockHeight blockReward then
    .error "invalid superblock detected"
  else .ok ()

end Valid

lemma rewardMet_ok {nBlockValue blockReward : Amount} {reason : String}
    (h : rewardMet nBlockValue blockReward reason = .ok ()) : nBlockValue ≤ blockReward := by
  unfold rewardMet at h
  split_ifs at h with hl
  exact hl

/-- From the start of superblocks on, a valid coinbase pays at most the reward, and at their heights
the limit of the payments on top, whatever the node knows. -/
lemma le_of_isBlockValueValid {p : ValueParams} {ctx : ValueContext} {txNew : Transaction}
    {nBlockValue blockReward : Amount} {nBlockHeight : Int}
    (hh : p.nSuperblockStartBlock ≤ nBlockHeight)
    (h : isBlockValueValid p ctx txNew nBlockValue nBlockHeight blockReward = .ok ()) :
    nBlockValue ≤ blockReward + if p.isValidBlockHeight nBlockHeight
      then p.getPaymentsLimit nBlockHeight else 0 := by
  -- a branch that compares with the reward alone
  have hw : ∀ reason, rewardMet nBlockValue blockReward reason = .ok () →
      nBlockValue ≤ blockReward + if p.isValidBlockHeight nBlockHeight
        then p.getPaymentsLimit nBlockHeight else 0 := by
    intro reason hr
    have hmt := rewardMet_ok hr
    have hl := p.getPaymentsLimit_nonneg nBlockHeight
    split_ifs <;> linarith
  unfold isBlockValueValid at h
  rw [if_neg (show ¬ nBlockHeight < p.nSuperblockStartBlock by omega)] at h
  split_ifs at h with hold hv hm hs hp ht hu
  all_goals first
    | exact hw _ h
    | (rw [if_pos (by simpa using hv)]; exact hm)

end Trivechain.Validation
