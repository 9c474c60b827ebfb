import Trivechain.Validation.Supply

/-!
# Payments that a coinbase has to make

The payments of a superblock are looked up among the outputs of the coinbase one after the other,
each from the place of the one before on; the shares of the owner and of the operator of the paid
masternode each among all outputs. In both cases one output may stand for two equal payments.
-/

namespace Trivechain.Validation
open Evo List

namespace Superblock

/-- The payments are outputs at increasing places, and those at other places are worth at most the
reward. -/
def PaidInOrder (s : Superblock) (txNew : Transaction) (blockReward : Amount) : Prop :=
  ∃ place : Fin s.vecPayments.length ↪o Fin txNew.vout.length,
    (∀ i, txNew.vout.get (place i) = s.vecPayments.get i) ∧
    ∑ j ∈ (Finset.univ.map place.toEmbedding)ᶜ, (txNew.vout.get j).nValue ≤ blockReward

variable {s : Superblock} {payments vout : List TxOut}

section Destutter
variable {α : Type} [DecidableEq α] {a x : α} {l vs : List α}

lemma cons_sublist_dropWhile : (a :: l).Sublist (vs.dropWhile (· ≠ a)) ↔ (a :: l).Sublist vs := by
  induction vs with
  | nil => rfl
  | cons x vs ih =>
    by_cases hx : x = a
    · rw [dropWhile_cons_of_neg (by simpa using hx)]
    · rw [dropWhile_cons_of_pos (by simpa using hx), ih, sublist_cons_iff]
      simp [Ne.symm hx]

lemma dropWhile_ne_cases (a : α) (vs : List α) :
    vs.dropWhile (· ≠ a) = [] ∨ ∃ rest, vs.dropWhile (· ≠ a) = a :: rest := by
  have hh := head?_dropWhile_not (fun x => decide (x ≠ a)) vs
  cases hf : vs.dropWhile (· ≠ a) with
  | nil => exact .inl rfl
  | cons x rest =>
    rw [hf] at hh
    have hx : x = a := by simpa using hh
    exact .inr ⟨rest, by rw [hx]⟩

lemma destutter'_eq_cons (a : α) (l : List α) : ∃ l', l.destutter' (· ≠ ·) a = a :: l' := by
  induction l with
  | nil => exact ⟨[], rfl⟩
  | cons b l ih =>
    rw [destutter'_cons]
    split_ifs
    · exact ⟨_, rfl⟩
    · exact ih

lemma mem_destutter : x ∈ l.destutter (· ≠ ·) ↔ x ∈ l := by
  cases l with
  | nil => rfl
  | cons a l =>
    rw [destutter_cons']
    induction l generalizing a with
    | nil => rfl
    | cons b l ih =>
      rw [destutter'_cons]
      split_ifs with h
      · rw [mem_cons, ih, mem_cons (b := a)]
      · rw [not_not] at h
        rw [ih, h]
        simp

end Destutter

/-- The search takes equal neighbours for one payment. -/
lemma findPayments_iff : findPayments payments vout ↔ (payments.destutter (· ≠ ·)).Sublist vout := by
  cases payments with
  | nil => simp [findPayments]
  | cons payment payments =>
    rw [destutter_cons']
    induction payments generalizing payment vout with
    | nil =>
      rw [findPayments, destutter'_nil, ← cons_sublist_dropWhile]
      rcases dropWhile_ne_cases payment vout with hf | ⟨rest, hf⟩ <;> rw [hf] <;> simp [findPayments]
    | cons next payments ih =>
      obtain ⟨l, hl⟩ := destutter'_eq_cons payment (next :: payments)
      rw [findPayments, hl, ← cons_sublist_dropWhile, ← hl]
      rcases dropWhile_ne_cases payment vout with hf | ⟨rest, hf⟩
      · simp only [hf, hl]
        simp
      · rw [hf]
        dsimp only
        rw [ih]
        by_cases hn : payment = next
        · subst hn
          rw [destutter'_cons_neg _ (by simp)]
        · obtain ⟨l', hl'⟩ := destutter'_eq_cons next payments
          rw [destutter'_cons_pos _ hn, cons_sublist_cons, hl', sublist_cons_iff]
          simp [Ne.symm hn]

lemma paidInOrder_of_sublist {txNew : Transaction} {nBlockValue blockReward : Amount}
    (hs : s.vecPayments.Sublist txNew.vout) (hv : nBlockValue = (txNew.vout.map TxOut.nValue).sum)
    (hl : nBlockValue ≤ blockReward + s.getPaymentsTotalAmount) :
    s.PaidInOrder txNew blockReward := by
  obtain ⟨place, hp⟩ := sublist_iff_exists_fin_orderEmbedding_get_eq.1 hs
  refine ⟨place, fun i => (hp i).symm, ?_⟩
  have ht := Finset.sum_add_sum_compl (Finset.univ.map place.toEmbedding)
    fun j => (txNew.vout.get j).nValue
  have hd : ∑ j ∈ Finset.univ.map place.toEmbedding, (txNew.vout.get j).nValue =
      s.getPaymentsTotalAmount := by
    rw [Finset.sum_map, getPaymentsTotalAmount, ← Fin.sum_univ_fun_getElem]
    exact Finset.sum_congr rfl fun i _ => congrArg TxOut.nValue (hp i).symm
  have ha : ∑ j, (txNew.vout.get j).nValue = nBlockValue := by
    rw [hv, ← Fin.sum_univ_fun_getElem]
    rfl
  linarith

/-- Every coinbase that is valid for the superblock makes its payments in order. -/
def AlwaysInOrder (s : Superblock) (p : ValueParams) (nBlockHeight : Int) (blockReward : Amount) :
    Prop :=
  ∀ txNew nBlockValue, getValueOut txNew = .ok nBlockValue →
    s.isValid p txNew nBlockValue nBlockHeight blockReward = true → s.PaidInOrder txNew blockReward

/-- A coinbase can be valid: the payments are within the limit, and what is looked for is an amount
that it may pay. -/
structure Payable (s : Superblock) (p : ValueParams) (nBlockHeight : Int) (blockReward : Amount) :
    Prop where
  height : p.isValidBlockHeight nBlockHeight = true
  limit : s.getPaymentsTotalAmount ≤ p.getPaymentsLimit nBlockHeight
  nonneg : ∀ payment ∈ s.vecPayments, 0 ≤ payment.nValue
  range : ((s.vecPayments.destutter (· ≠ ·)).map TxOut.nValue).sum ≤
    min MAX_MONEY (blockReward + s.getPaymentsTotalAmount)

lemma getValueOut_of_nonneg {tx : Transaction} (hn : ∀ out ∈ tx.vout, 0 ≤ out.nValue)
    (hs : (tx.vout.map TxOut.nValue).sum ≤ MAX_MONEY) :
    getValueOut tx = .ok (tx.vout.map TxOut.nValue).sum := by
  have hl : ∀ (l : List TxOut) (a : Amount), 0 ≤ a → (∀ out ∈ l, 0 ≤ out.nValue) →
      a + (l.map TxOut.nValue).sum ≤ MAX_MONEY →
      l.foldlM addValueOut a = .ok (a + (l.map TxOut.nValue).sum) := by
    intro l
    induction l with
    | nil => simp
    | cons out l ih =>
      intro a ha hn hs
      obtain ⟨ho, hn⟩ := forall_mem_cons.1 hn
      have hp : 0 ≤ (l.map TxOut.nValue).sum := sum_nonneg fun b hb => by
        obtain ⟨out, hm, rfl⟩ := mem_map.1 hb
        exact hn out hm
      rw [map_cons, sum_cons, ← add_assoc] at hs ⊢
      rw [foldlM_cons, addValueOut,
        if_pos ⟨⟨ho, by linarith⟩, by positivity, by linarith⟩, Run.ok_bind]
      exact ih _ (by positivity) hn hs
  simpa [getValueOut] using hl tx.vout 0 le_rfl hn (by simpa using hs)

/-- Two neighbours that are equal can be found in one output, if the coinbase of such a superblock
can be valid at all. -/
lemma not_alwaysInOrder {p : ValueParams} {nBlockHeight : Int} {blockReward : Amount}
    (hc : ¬ s.vecPayments.IsChain (· ≠ ·)) (h : s.Payable p nBlockHeight blockReward) :
    ¬ s.AlwaysInOrder p nBlockHeight blockReward := by
  intro ha
  have hinj : Function.Injective fun k => (⟨0, .pubKeyHash k⟩ : TxOut) := fun k k' he => by
    simpa using he
  obtain ⟨_, ⟨k, rfl⟩, hk⟩ :=
    (Set.infinite_range_of_injective hinj).exists_notMem_finset s.vecPayments.toFinset
  rw [mem_toFinset] at hk
  let filler : TxOut := ⟨0, .pubKeyHash k⟩
  let txNew : Transaction :=
    { nVersion := 1, payload := .normal, vin := [.null],
      vout := s.vecPayments.destutter (· ≠ ·) ++ replicate s.vecPayments.length filler }
  have hv : (txNew.vout.map TxOut.nValue).sum =
      ((s.vecPayments.destutter (· ≠ ·)).map TxOut.nValue).sum := by
    simp [txNew, filler]
  have hr := le_min_iff.1 h.range
  have hn : ∀ out ∈ txNew.vout, 0 ≤ out.nValue := by
    intro out ho
    rcases mem_append.1 ho with ho | ho
    · exact h.nonneg out ((destutter_sublist _ _).subset ho)
    · rw [eq_of_mem_replicate ho]
  obtain ⟨place, hp, -⟩ := ha txNew _ (getValueOut_of_nonneg hn (hv ▸ hr.1)) (by
    simp only [isValid, h.height, h.limit, findPayments_iff, hv, hr.2, decide_true, Bool.and_true,
      Bool.and_eq_true, decide_eq_true_eq, true_and]
    exact ⟨by simp [txNew], sublist_append_left _ _⟩)
  have hs : s.vecPayments.Sublist txNew.vout :=
    sublist_iff_exists_fin_orderEmbedding_get_eq.2 ⟨place, fun i => (hp i).symm⟩
  -- the other outputs are no payments
  have hf := hs.filter (· ≠ filler)
  rw [filter_eq_self.2 fun out ho => by
      simp only [decide_not, Bool.not_eq_true', decide_eq_false_iff_not]
      exact fun he => hk (show filler ∈ s.vecPayments from he ▸ ho), filter_append,
    filter_replicate_of_neg (by simp), append_nil] at hf
  have he := (hf.trans filter_sublist).eq_of_length_le (destutter_sublist _ _).length_le
  exact hc ((destutter_eq_self_iff _ _).1 he.symm)

/-- The coinbases that are valid for a superblock make its payments in order exactly if no two
neighbours among them are equal, or if there are no such coinbases. -/
theorem alwaysInOrder_iff (s : Superblock) (p : ValueParams) (nBlockHeight : Int)
    (blockReward : Amount) : s.AlwaysInOrder p nBlockHeight blockReward ↔
      s.vecPayments.IsChain (· ≠ ·) ∨ ¬ s.Payable p nBlockHeight blockReward := by
  refine ⟨fun h => ?_, fun h txNew nBlockValue hvalue hvalid => ?_⟩
  · by_contra hn
    rw [not_or, not_not] at hn
    exact not_alwaysInOrder hn.1 hn.2 h
  obtain ⟨hv, hnn, hr⟩ := getValueOut_ok hvalue
  simp only [isValid, Bool.and_eq_true, decide_eq_true_eq, findPayments_iff] at hvalid
  obtain ⟨⟨⟨⟨hh, -⟩, ht⟩, hl⟩, hf⟩ := hvalid
  refine paidInOrder_of_sublist ?_ hv hl
  rcases h with hc | hp
  · rwa [destutter_of_isChain _ _ hc] at hf
  · -- the values of what is found
    have hsum := Sublist.sum_le_sum (hf.map TxOut.nValue) fun a ha => by
      obtain ⟨out, ho, rfl⟩ := mem_map.1 ha
      exact hnn out ho
    refine absurd ⟨hh, ht, fun payment hm => hnn payment (hf.subset (mem_destutter.2 hm)), ?_⟩ hp
    rw [← hv] at hsum
    exact le_min (hsum.trans (hv ▸ (hr _ [] (append_nil _).symm).2)) (hsum.trans hl)

end Superblock

namespace TwicePaid

def params : ValueParams where
  nBudgetPaymentsStartBlock := 0
  nBudgetPaymentsCycleBlocks := 1
  nBudgetPaymentsWindowBlocks := 1
  nSuperblockStartBlock := 1
  nSuperblockCycle := 1
  nBitsLimit := 0
  getBlockSubsidy := fun _ _ _ => 50 * COIN
  subsidy_range := fun _ _ _ => by split_ifs <;> decide
  cycle_le := by decide

def payment : TxOut := ⟨10, .pubKeyHash 1⟩

def coinbase : Transaction where
  nVersion := 1
  payload := .normal
  vin := [.null]
  vout := [⟨5, .pubKeyHash 7⟩, payment, ⟨0, .pubKeyHash 7⟩]

/-- Two equal payments are found in one output. -/
theorem equal_payments_found_once :
    ∃ s : Superblock, s.vecPayments = [payment, payment] ∧ getValueOut coinbase = .ok 15 ∧
      s.isValid params coinbase 15 9 5 = true ∧ ¬ s.PaidInOrder coinbase 5 := by
  refine ⟨{ nBlockHeight := 9, vecPayments := [payment, payment], absoluteYesCount := 1 }, rfl,
    by decide +kernel, by decide +kernel, ?_⟩
  rintro ⟨place, hp, -⟩
  -- both payments are at the only place with this output
  have ho : ∀ j : Fin coinbase.vout.length, coinbase.vout.get j = payment → j.1 = 1 := by decide
  have he := (ho _ (hp (0 : Fin 2))).trans (ho _ (hp (1 : Fin 2))).symm
  exact absurd (place.injective (Fin.ext he)) (by decide)

end TwicePaid

structure PaymentParams where
  T3Height : Int
  nMasternodePaymentsStartBlock : Int
  nMasternodePaymentsIncreaseBlock : Int
  DIP0003EnforcementHeight : Int

/-- The product with 0.5 is exact up to the truncation. The one with 0.4 is the truncated quotient
for the amounts of blocks, but not for all that have 53 bits. -/
def PaymentParams.getMasternodePayment (p : PaymentParams) (nHeight : Int) (blockValue : Amount) :
    Amount :=
  if p.T3Height < nHeight then 0
  else if nHeight < p.nMasternodePaymentsStartBlock then 0
  else if nHeight < p.nMasternodePaymentsIncreaseBlock then (blockValue * 2).tdiv 5
  else blockValue.tdiv 2

def shares (dmnPayee : DeterministicMN) (masternodeReward : Amount) :
    Amount × Amount :=
  let operatorReward :=
    if dmnPayee.nOperatorReward ≠ 0 ∧ dmnPayee.pdmnState.scriptOperatorPayout ≠ .empty then
      (masternodeReward * dmnPayee.nOperatorReward).tdiv 10000
    else 0
  (masternodeReward - operatorReward, operatorReward)

def outputIfPositive (nValue : Amount) (scriptPubKey : Script) : List TxOut :=
  if 0 < nValue then [⟨nValue, scriptPubKey⟩] else []

section Outputs
variable (p : PaymentParams) (mnList : DeterministicMNList) (nBlockHeight : Int)
  (blockReward : Amount)

/-- `mnList` is the list of the block before. -/
def getBlockTxOuts : Option (List TxOut) :=
  mnList.getMNPayee.map fun dmnPayee =>
    let (owner, operator) := shares dmnPayee (p.getMasternodePayment nBlockHeight blockReward)
    outputIfPositive owner dmnPayee.pdmnState.scriptPayout ++
      outputIfPositive operator dmnPayee.pdmnState.scriptOperatorPayout

/-- The loop over the required outputs. The destination of a missing one is asserted to be known. -/
def findOutputs (vout : List TxOut) : List TxOut → Run Bool
  | [] => .ok true
  | txout :: required =>
    if txout ∈ vout then findOutputs vout required
    else do
      Run.ensure txout.scriptPubKey.extractDestination.isSome
      return false

def isTransactionValid (txNew : Transaction) : Run Bool :=
  if nBlockHeight < p.DIP0003EnforcementHeight then .ok true
  else match getBlockTxOuts p mnList nBlockHeight blockReward with
    | none => .ok true
    | some voutMasternodePayments => findOutputs txNew.vout voutMasternodePayments

def received (dmn : DeterministicMN) (vout : List TxOut) : Amount :=
  ((vout.filter fun out => out.scriptPubKey = dmn.pdmnState.scriptPayout ∨
    out.scriptPubKey = dmn.pdmnState.scriptOperatorPayout).map TxOut.nValue).sum

/-- The coinbase has the required outputs, each as often as required, and pays the masternode. -/
def PaidInFull (txNew : Transaction) : Prop :=
  ∀ dmnPayee required, mnList.getMNPayee = some dmnPayee →
    getBlockTxOuts p mnList nBlockHeight blockReward = some required →
    required.Subperm txNew.vout ∧ ((∀ out ∈ txNew.vout, 0 ≤ out.nValue) →
      p.getMasternodePayment nBlockHeight blockReward ≤ received dmnPayee txNew.vout)

end Outputs

lemma findOutputs_eq_true {vout required : List TxOut} :
    findOutputs vout required = .ok true ↔ required ⊆ vout := by
  induction required with
  | nil => simp [findOutputs]
  | cons txout required ih =>
    rw [findOutputs, cons_subset]
    split_ifs with hm
    · rw [ih]
      exact (and_iff_right hm).symm
    · refine iff_of_false (fun h => ?_) fun h => hm h.1
      obtain ⟨_, -, h⟩ := Run.bind_ok.1 h
      cases h

lemma le_sum_outputIfPositive (nValue : Amount) (script : Script) :
    nValue ≤ ((outputIfPositive nValue script).map TxOut.nValue).sum := by
  unfold outputIfPositive
  split_ifs with hp
  · simp
  · simpa using hp

variable {p : PaymentParams} {mnList : DeterministicMNList} {nBlockHeight : Int}
  {blockReward : Amount} {dmnPayee : DeterministicMN} {required vout : List TxOut}

lemma required_spec (hp : mnList.getMNPayee = some dmnPayee)
    (hr : getBlockTxOuts p mnList nBlockHeight blockReward = some required) :
    (∀ out ∈ required, out.scriptPubKey = dmnPayee.pdmnState.scriptPayout ∨
      out.scriptPubKey = dmnPayee.pdmnState.scriptOperatorPayout) ∧
    p.getMasternodePayment nBlockHeight blockReward ≤ (required.map TxOut.nValue).sum := by
  rw [getBlockTxOuts, hp, Option.map_some] at hr
  obtain rfl := Option.some.inj hr
  constructor
  · intro out ho
    rcases mem_append.1 ho with ho | ho
    all_goals
      unfold outputIfPositive at ho
      split_ifs at ho <;> simp_all
  · have hn := le_sum_outputIfPositive (shares dmnPayee
      (p.getMasternodePayment nBlockHeight blockReward)).1 dmnPayee.pdmnState.scriptPayout
    have hop := le_sum_outputIfPositive (shares dmnPayee
      (p.getMasternodePayment nBlockHeight blockReward)).2 dmnPayee.pdmnState.scriptOperatorPayout
    rw [map_append, sum_append]
    refine le_trans (le_of_eq ?_) (add_le_add hn hop)
    exact (sub_add_cancel _ _).symm

lemma le_received (hp : mnList.getMNPayee = some dmnPayee)
    (hr : getBlockTxOuts p mnList nBlockHeight blockReward = some required)
    (hb : required.Subperm vout) (hn : ∀ out ∈ vout, 0 ≤ out.nValue) :
    p.getMasternodePayment nBlockHeight blockReward ≤ received dmnPayee vout := by
  obtain ⟨hs, hm⟩ := required_spec hp hr
  have hf := hb.filter fun out => out.scriptPubKey = dmnPayee.pdmnState.scriptPayout ∨
    out.scriptPubKey = dmnPayee.pdmnState.scriptOperatorPayout
  rw [filter_eq_self.2 fun out ho => by simpa using hs out ho] at hf
  obtain ⟨l, hpr, hl⟩ := hf
  calc p.getMasternodePayment nBlockHeight blockReward
      ≤ (required.map TxOut.nValue).sum := hm
    _ = (l.map TxOut.nValue).sum := (hpr.map _).sum_eq.symm
    _ ≤ received dmnPayee vout := by
      refine (hl.map _).sum_le_sum fun a ha => ?_
      obtain ⟨out, ho, rfl⟩ := mem_map.1 ha
      exact hn out (mem_of_mem_filter ho)

/-- All valid coinbases pay the masternode in full exactly if the shares of the owner and of the
operator are not equal outputs. -/
theorem paidInFull_iff (hdip3 : p.DIP0003EnforcementHeight ≤ nBlockHeight) :
    (∀ txNew, isTransactionValid p mnList nBlockHeight blockReward txNew = .ok true →
      PaidInFull p mnList nBlockHeight blockReward txNew) ↔
    ∀ required ∈ getBlockTxOuts p mnList nBlockHeight blockReward, required.Nodup := by
  constructor
  · intro h required hr
    -- the coinbase with one output for each different required one
    have hd := h ⟨1, .normal, [.null], required.dedup, 0⟩ (by
      rw [isTransactionValid, if_neg (not_lt.2 hdip3), hr]
      exact findOutputs_eq_true.2 (subset_dedup required))
    obtain ⟨dmnPayee, hp, -⟩ := Option.map_eq_some_iff.1 hr
    have hl := (hd dmnPayee required hp hr).1.length_le
    rw [← dedup_eq_self]
    exact (dedup_sublist required).eq_of_length_le hl
  · intro hn txNew hv dmnPayee required hp hr
    rw [isTransactionValid, if_neg (not_lt.2 hdip3), hr] at hv
    have hs := subperm_of_subset (hn required hr) (findOutputs_eq_true.1 hv)
    exact ⟨hs, le_received hp hr hs⟩

namespace EqualShares

def params : PaymentParams := ⟨1000, 0, 0, 1⟩

def masternode (nOperatorReward : Nat) : DeterministicMN where
  proTxHash := 1
  internalId := 0
  collateralOutpoint := ⟨1, 0⟩
  nOperatorReward
  pdmnState := { scriptPayout := .pubKeyHash 4, scriptOperatorPayout := .pubKeyHash 4 }

def listOf (dmn : DeterministicMN) : DeterministicMNList :=
  { mnMap := (∅ : Std.ExtTreeMap Uint256 DeterministicMN).insert dmn.proTxHash dmn }

theorem paidInFull_of_quarter : (params.DIP0003EnforcementHeight ≤ 9) ∧
    ∀ txNew, isTransactionValid params (listOf (masternode 2500)) 9 400 txNew = .ok true →
      PaidInFull params (listOf (masternode 2500)) 9 400 txNew := by
  refine ⟨by decide, (paidInFull_iff (by decide)).2 fun required hr => ?_⟩
  have ho : getBlockTxOuts params (listOf (masternode 2500)) 9 400 =
      some [⟨150, .pubKeyHash 4⟩, ⟨50, .pubKeyHash 4⟩] := by decide +kernel
  rw [ho] at hr
  cases hr
  decide

/-- A coinbase with one output for both halves is valid. -/
theorem half_paid : ∃ txNew : Transaction,
    isTransactionValid params (listOf (masternode 5000)) 9 400 txNew = .ok true ∧
    params.getMasternodePayment 9 400 = 200 ∧ received (masternode 5000) txNew.vout = 100 ∧
    getBlockTxOuts params (listOf (masternode 5000)) 9 400 =
      some [⟨100, .pubKeyHash 4⟩, ⟨100, .pubKeyHash 4⟩] :=
  ⟨⟨1, .normal, [.null], [⟨100, .pubKeyHash 4⟩], 0⟩, by decide +kernel, by decide, by decide,
    by decide +kernel⟩

end EqualShares

structure SubsidyParams extends PaymentParams where
  nSubsidyHalvingInterval : Int
  nBudgetPaymentsStartBlock : Int
  /-- The base by bits and height of the block below, from when it depended on the difficulty. -/
  nMiningBase : Int → Int → Int

def rounds (first step last : Int) : Nat := ((last - first) / step + 1).toNat

namespace SubsidyParams
variable (p : SubsidyParams)

def reduce (nSubsidy : Amount) : Amount := nSubsidy * 3 / 4

def getBlockSubsidy (nPrevBits nPrevHeight : Int) (fSuperblockPartOnly : Bool) : Amount :=
  if p.T3Height < nPrevHeight then 0
  else if nPrevHeight = 0 then 33600000 * COIN
  else
    let nSubsidyBase :=
      if nPrevHeight ≤ 19522 then p.nMiningBase nPrevBits nPrevHeight
      else if nPrevHeight ≤ 100000 then
        let nHalvings := nPrevHeight / p.nSubsidyHalvingInterval / 4 - 1
        (fun base : Int => base / 2)^[nHalvings.toNat] 25
      else if nPrevHeight ≤ 226655 then 12
      else 25
    let nSubsidy := nSubsidyBase * COIN
    let nSubsidy :=
      if nPrevHeight ≤ 226655 then
        (fun n : Amount => n * 9 / 10)^[rounds 200000 200000 nPrevHeight] nSubsidy
      else nSubsidy
    let nSubsidy :=
      if 752255 ≤ nPrevHeight then reduce^[rounds 752255 525600 nPrevHeight] nSubsidy
      else nSubsidy
    let nSuperblockPart :=
      if nPrevHeight ≤ p.nBudgetPaymentsStartBlock then 0
      else if nPrevHeight ≤ 226655 then nSubsidy / 10
      else nSubsidy * 3 / 10
    if fSuperblockPartOnly then nSuperblockPart else nSubsidy - nSuperblockPart

lemma reduce_pos {k : Nat} (h : k < 73) : 0 < reduce^[k] (25 * COIN) := by
  revert k
  decide +kernel

lemma getBlockSubsidy_pos {nPrevBits nPrevHeight : Int} (hf : 226655 < nPrevHeight)
    (hl : nPrevHeight < 38595455) (ht : nPrevHeight ≤ p.T3Height) :
    0 < p.getBlockSubsidy nPrevBits nPrevHeight false := by
  have hk : rounds 752255 525600 nPrevHeight < 73 := by
    unfold rounds
    omega
  -- the part for superblocks is never all of it
  have hr : ∀ {n : Int}, 0 < n → 0 < n - 0 ∧ 0 < n - n * 3 / 10 := by omega
  have hp := hr (reduce_pos hk)
  have hc : (0 : Int) < 25 * COIN := by decide
  unfold getBlockSubsidy
  rw [if_neg (by omega), if_neg (by omega)]
  simp only [if_neg (show ¬ nPrevHeight ≤ 19522 by omega), if_neg (show ¬ nPrevHeight ≤ 226655 by omega),
    if_neg (show ¬ nPrevHeight ≤ 100000 by omega), Bool.false_eq_true, if_false]
  split_ifs
  · exact hp.1
  · exact hp.2
  · exact (hr hc).1
  · exact (hr hc).2

end SubsidyParams

/-- After the fork, masternodes share in the reward of exactly the blocks with a subsidy, except for
one: only the subsidy counts the end of the emission from the block below. -/
theorem payment_iff_subsidy (p : SubsidyParams) (hs : p.nMasternodePaymentsStartBlock ≤ 226657)
    (ht : p.T3Height < 38595455) (nHeight : Int) (blockValue : Amount) (nPrevBits : Int)
    (hh : 226656 < nHeight) (hi : p.nMasternodePaymentsIncreaseBlock ≤ nHeight)
    (hv : 2 ≤ blockValue) :
    (0 < p.getMasternodePayment nHeight blockValue ↔
      0 < p.getBlockSubsidy nPrevBits (nHeight - 1) false) ↔ nHeight ≠ p.T3Height + 1 := by
  have hm : nHeight ≤ p.T3Height → 0 < p.getMasternodePayment nHeight blockValue := by
    intro hl
    unfold PaymentParams.getMasternodePayment
    rw [if_neg (by omega), if_neg (by omega), if_neg (by omega)]
    rw [Int.tdiv_eq_ediv_of_nonneg (le_trans (by decide) hv)]
    exact Int.le_ediv_of_mul_le (by decide) hv
  have hz : p.T3Height < nHeight → p.getMasternodePayment nHeight blockValue = 0 :=
    fun h => if_pos h
  have hb : nHeight - 1 ≤ p.T3Height → 0 < p.getBlockSubsidy nPrevBits (nHeight - 1) false :=
    fun h => p.getBlockSubsidy_pos (by omega) (by omega) h
  have hn : p.T3Height < nHeight - 1 → p.getBlockSubsidy nPrevBits (nHeight - 1) false = 0 :=
    fun h => if_pos h
  rcases lt_trichotomy nHeight (p.T3Height + 1) with hl | he | hl
  · exact iff_of_true (iff_of_true (hm (by omega)) (hb (by omega))) hl.ne
  · refine iff_of_false (fun h => ?_) (not_not.2 he)
    have h0 := h.2 (hb (by omega))
    rw [hz (by omega)] at h0
    cases h0
  · refine iff_of_true ?_ hl.ne'
    rw [hz (by omega), hn (by omega)]

namespace SubsidyParams

def mainNet (nMiningBase : Int → Int → Int) : SubsidyParams :=
  ⟨⟨1212121, 1000, 445500, 450000⟩, 525600, 2, nMiningBase⟩

theorem payment_iff_subsidy_before : 0 < (mainNet fun _ _ => 25).getMasternodePayment 1212121 2 ↔
    0 < (mainNet fun _ _ => 25).getBlockSubsidy 0 1212120 false :=
  (payment_iff_subsidy (mainNet fun _ _ => 25) (by decide) (by decide) 1212121 2 0 (by decide)
    (by decide) (by decide)).2 (by decide)

/-- The block after the last one with a payment has a subsidy. -/
theorem subsidy_without_payment : (mainNet fun _ _ => 25).getMasternodePayment 1212122 2 = 0 ∧
    0 < (mainNet fun _ _ => 25).getBlockSubsidy 0 1212121 false := by decide +kernel

end SubsidyParams
end Trivechain.Validation
