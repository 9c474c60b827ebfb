import Trivechain.Validation.UndoBlock

/-!
# The value of all coins

How much the value of all unspent coins can grow with a block. The coinbase may take the fees, which
are what transactions leave of the coins they spend, the subsidy, and at the heights of superblocks
the payments.

Coins of the coinbase cannot be spent in their own block, so the fees come from coins that were
there before. This bounds all sums.
-/

namespace Trivechain.Validation
open Evo Coins Run
open Std (ExtTreeMap)
open List Function TxOut

noncomputable def totalBy (val : Coin → Amount) (u : Utxo) : Amount :=
  finsum fun o => (u o).elim 0 val

noncomputable def total (u : Utxo) : Amount := totalBy (fun coin => coin.out.nValue) u

def FinitelyMany (u : Utxo) : Prop := {o | u o ≠ none}.Finite

section Totals
variable {val : Coin → Amount} {u : Utxo}

lemma FinitelyMany.support (h : FinitelyMany u) (val : Coin → Amount) :
    (support fun o => (u o).elim 0 val).Finite := by
  refine h.subset fun o ho hn => ho ?_
  show (u o).elim 0 val = 0
  rw [hn]
  rfl

lemma FinitelyMany.update (h : FinitelyMany u) (o : OutPoint) (x : Option Coin) :
    FinitelyMany (update u o x) := by
  refine (h.insert o).subset fun o' ho' => ?_
  by_cases he : o' = o
  · exact .inl he
  · refine .inr ?_
    show u o' ≠ none
    rw [← update_of_ne he x u]
    exact ho'

lemma totalBy_update (h : FinitelyMany u) (o : OutPoint) (x : Option Coin) :
    totalBy val (update u o x) = totalBy val u + (x.elim 0 val - (u o).elim 0 val) := by
  have hp : (fun o' => (update u o x o').elim 0 val) = fun o' => (u o').elim 0 val +
      (if o' = o then x.elim 0 val - (u o).elim 0 val else 0) := by
    funext o'
    by_cases he : o' = o
    · subst he
      simp
    · simp [he]
  have hs : (finsum fun o' => if o' = o then x.elim 0 val - (u o).elim 0 val else 0) =
      x.elim 0 val - (u o).elim 0 val := by
    rw [finsum_eq_single _ o fun o' ho' => if_neg ho', if_pos rfl]
  rw [totalBy, hp, finsum_add_distrib (h.support val), hs]
  · rfl
  · refine (Set.finite_singleton o).subset fun o' ho' => ?_
    by_contra hn
    exact ho' (if_neg hn)

lemma totalBy_nonneg (hv : ∀ o coin, u o = some coin → 0 ≤ val coin) : 0 ≤ totalBy val u := by
  refine finsum_nonneg fun o => ?_
  cases hu : u o with
  | none => exact le_refl 0
  | some coin => exact hv o coin hu

variable (val) in
lemma totalBy_spendAll {vin : List OutPoint} {coins : List Coin} (h : FinitelyMany u)
    (hn : vin.Nodup) (hc : CoinsAt u vin coins) : FinitelyMany (spendAll u vin) ∧
      totalBy val (spendAll u vin) = totalBy val u - (coins.map val).sum := by
  induction vin generalizing u coins with
  | nil =>
    cases hc
    exact ⟨h, by simp [spendAll]⟩
  | cons o vin ih =>
    cases hc with
    | @cons _ coin _ coins hcn hc =>
      obtain ⟨hw, hn⟩ := nodup_cons.1 hn
      obtain ⟨hf, hs⟩ := ih (h.update o none) hn (CoinsAt.update hc hw none)
      refine ⟨hf, ?_⟩
      show totalBy val (spendAll (update u o none) vin) = _
      rw [hs, totalBy_update h, hcn, map_cons, sum_cons]
      simp only [Option.elim_none, Option.elim_some]
      ring

lemma totalBy_addAll {coins : List (OutPoint × Coin)} (h : FinitelyMany u)
    (hn : (coins.map Prod.fst).Nodup)
    (hf : ∀ e ∈ coins, e.2.out.scriptPubKey.isUnspendable = false → u e.1 = none)
    (hv : ∀ e ∈ coins, 0 ≤ val e.2) : FinitelyMany (addAll u coins) ∧
      totalBy val (addAll u coins) ≤ totalBy val u + (coins.map fun e => val e.2).sum := by
  induction coins generalizing u with
  | nil => exact ⟨h, by simp [addAll]⟩
  | cons e coins ih =>
    obtain ⟨hw, hn⟩ := nodup_cons.1 (map_cons ▸ hn)
    obtain ⟨hv0, hv⟩ := forall_mem_cons.1 hv
    obtain ⟨hf0, hf⟩ := forall_mem_cons.1 hf
    have ht : FinitelyMany (CoinsTip.addTo u e.1 e.2) ∧
        totalBy val (CoinsTip.addTo u e.1 e.2) ≤ totalBy val u + val e.2 := by
      unfold CoinsTip.addTo
      split_ifs with hs
      · exact ⟨h, by linarith⟩
      · refine ⟨h.update e.1 _, ?_⟩
        rw [totalBy_update h, hf0 (by simpa using hs)]
        simp
    have ho : ∀ e' ∈ coins, e'.2.out.scriptPubKey.isUnspendable = false →
        CoinsTip.addTo u e.1 e.2 e'.1 = none := fun e' he' hs => by
      rw [addTo_of_ne fun he => hw (mem_map.2 ⟨e', he', he⟩)]
      exact hf e' he' hs
    obtain ⟨hfn, hm⟩ := ih ht.1 hn ho hv
    refine ⟨hfn, ?_⟩
    show totalBy val (addAll (CoinsTip.addTo u e.1 e.2) coins) ≤ _
    rw [map_cons, sum_cons]
    linarith [ht.2]

end Totals

def SumsInRange (l : List Amount) : Prop :=
  ∀ pre post, l = pre ++ post → MoneyRange pre.sum

lemma foldlM_sum {α : Type} {f : Amount → α → Run Amount} {g : α → Amount} {P : α → Prop}
    (hf : ∀ a x b, f a x = .ok b → b = a + g x ∧ MoneyRange b ∧ P x) {l : List α} {a b : Amount}
    (ha : MoneyRange a) (ho : l.foldlM f a = .ok b) : b = a + (l.map g).sum ∧ (∀ x ∈ l, P x) ∧
      ∀ pre post, l.map g = pre ++ post → MoneyRange (a + pre.sum) := by
  induction l generalizing a with
  | nil =>
    cases ho
    refine ⟨by simp, fun x hx => absurd hx not_mem_nil, fun pre post he => ?_⟩
    obtain ⟨rfl, -⟩ := append_eq_nil_iff.1 he.symm
    simpa using ha
  | cons x l ih =>
    obtain ⟨c, hc, ho⟩ := bind_ok.1 ho
    obtain ⟨rfl, hr, hx⟩ := hf a x c hc
    obtain ⟨hb, hl, hs⟩ := ih hr ho
    refine ⟨by rw [hb, map_cons, sum_cons]; ring, forall_mem_cons.2 ⟨hx, hl⟩,
      fun pre post he => ?_⟩
    cases pre with
    | nil => simpa using ha
    | cons y pre =>
      obtain ⟨hy, he⟩ := List.cons.inj he
      have := hs pre post he
      rwa [← hy, sum_cons, ← add_assoc]

lemma moneyRange_zero : MoneyRange 0 := by decide

lemma getValueOut_ok {tx : Transaction} {nValueOut : Amount} (h : getValueOut tx = .ok nValueOut) :
    nValueOut = (tx.vout.map nValue).sum ∧ (∀ out ∈ tx.vout, 0 ≤ out.nValue) ∧
      SumsInRange (tx.vout.map nValue) := by
  obtain ⟨hm, ha, hs⟩ := foldlM_sum (g := nValue) (P := fun out => 0 ≤ out.nValue)
    (fun a out b ho => by
      unfold addValueOut at ho
      split_ifs at ho with hr
      cases ho
      exact ⟨rfl, hr.2, hr.1.1⟩) moneyRange_zero h
  exact ⟨by simpa using hm, ha, fun pre post he => by simpa using hs pre post he⟩

lemma checkTxInputs_ok {nSpendHeight : Int} {coins : List Coin} {nValueOut : Amount}
    (h : checkTxInputs nSpendHeight coins nValueOut = .ok ()) :
    nValueOut ≤ (coins.map fun coin => coin.out.nValue).sum ∧
      (∀ coin ∈ coins, ¬ (coin.fCoinBase = true ∧ nSpendHeight - coin.nHeight < 5)) ∧
      SumsInRange (coins.map fun coin => coin.out.nValue) := by
  obtain ⟨nValueIn, hi, h⟩ := bind_ok.1 h
  obtain ⟨_, hb, -⟩ := bind_ok.1 h
  rw [denyIf_ok] at hb
  obtain ⟨hsm, ha, hs⟩ := foldlM_sum (g := fun coin : Coin => coin.out.nValue)
    (P := fun coin => ¬ (coin.fCoinBase = true ∧ nSpendHeight - coin.nHeight < 5))
    (fun a coin b ho => by
      obtain ⟨_, -, ho⟩ := bind_ok.1 ho
      obtain ⟨_, hm, ho⟩ := bind_ok.1 ho
      obtain ⟨_, hr, ho⟩ := bind_ok.1 ho
      cases ho
      rw [denyIf_ok] at hm hr
      exact ⟨rfl, (not_not.1 hr).2, hm⟩) moneyRange_zero hi
  refine ⟨?_, ha, fun pre post he => by simpa using hs pre post he⟩
  rw [hsm] at hb
  linarith

def fee (e : Transaction × List Coin) : Amount :=
  (e.2.map fun coin => coin.out.nValue).sum - (e.1.vout.map nValue).sum

structure Pays (nHeight : Nat) (tx : Transaction) (undo : List Coin) : Prop where
  not_coinBase : ¬ tx.isCoinBase = true
  mature : ∀ coin ∈ undo, ¬ (coin.fCoinBase = true ∧ (nHeight : Int) - coin.nHeight < 5)
  nonneg : ∀ out ∈ tx.vout, 0 ≤ out.nValue
  fee_nonneg : 0 ≤ fee (tx, undo)
  sumsIn : SumsInRange (undo.map fun coin => coin.out.nValue)
  sumsOut : SumsInRange (tx.vout.map nValue)

lemma CoinsAt.unique {u : Utxo} {vin : List OutPoint} {coins coins' : List Coin}
    (h : CoinsAt u vin coins) (h' : CoinsAt u vin coins') : coins = coins' := by
  induction h generalizing coins' with
  | nil =>
    cases h'
    rfl
  | cons hc _ ih =>
    cases h' with
    | cons hc' h' =>
      rw [hc] at hc'
      rw [Option.some.inj hc', ih h']

section Fees
variable [ChainHash] {known : Set OutPoint} {u u' : Utxo} {env : BlockEnv} {tx : Transaction}
  {i : Nat} {st st' : ConnectState}

lemma connectInputs_pays (h : st.view.Sees u known) (hb : ¬ tx.isCoinBase = true)
    (hk : connectInputs env i tx st = .ok st') :
    ∃ coins, CoinsAt u tx.vin coins ∧ Pays env.nHeight tx coins ∧
      st'.nFees = st.nFees + fee (tx, coins) := by
  obtain ⟨-, coins, nValueOut, -, hc, ho, hi, rfl⟩ := connectInputs_ok h hb hk
  obtain ⟨rfl, hn, hs⟩ := getValueOut_ok ho
  obtain ⟨hl, hm, hsm⟩ := checkTxInputs_ok hi
  exact ⟨coins, hc, ⟨hb, hm, hn, by unfold fee; linarith, hsm, hs⟩, rfl⟩

lemma connectTx_pays (h : st.view.Sees u known) (hb : ¬ tx.isCoinBase = true) {undo : List Coin}
    (ha : Applies env.nHeight tx undo u u') (ho : connectTx env st (tx, i) = .ok st') :
    Pays env.nHeight tx undo ∧ st'.nFees = st.nFees + fee (tx, undo) := by
  obtain ⟨st1, hi, ho⟩ := bind_ok.1 ho
  obtain ⟨⟨undo', view⟩, -, ho⟩ := bind_ok.1 ho
  cases ho
  obtain ⟨coins, hc, hp, hf⟩ := connectInputs_pays h hb hi
  have hs := ha.spent
  rw [spentInputs, if_neg hb] at hs
  obtain rfl := hc.unique hs
  exact ⟨hp, hf⟩

lemma connectTxs_pay {txs : List Transaction} {n : Nat} (hn : n ≠ 0)
    (h : st.view.Sees u known) (hd : ∀ tx ∈ txs, tx.vin.Nodup)
    (hk : ∀ tx ∈ txs, ∀ e ∈ outputCoins env.nHeight tx, e.1 ∈ known)
    (hb : ∀ tx ∈ txs, ¬ tx.isCoinBase = true)
    (ho : (txs.zipIdx n).foldlM (connectTx env) st = .ok st') :
    ∃ us u', AppliesAll env.nHeight (txs.zip us) u u' ∧ us.length = txs.length ∧
      st'.view.Sees u' known ∧ st'.vtxundo = st.vtxundo ++ us ∧
      (∀ e ∈ txs.zip us, Pays env.nHeight e.1 e.2) ∧
      st'.nFees = st.nFees + ((txs.zip us).map fee).sum := by
  induction txs generalizing n u st with
  | nil =>
    cases ho
    exact ⟨[], u, rfl, rfl, h, by simp, fun e he => absurd he not_mem_nil, by simp⟩
  | cons tx txs ih =>
    obtain ⟨st1, hs, ho⟩ := bind_ok.1 ho
    obtain ⟨hc0, hb⟩ := forall_mem_cons.1 hb
    obtain ⟨hn0, hd⟩ := forall_mem_cons.1 hd
    obtain ⟨hk0, hk⟩ := forall_mem_cons.1 hk
    obtain ⟨undo, u1, ha, hss, hu⟩ := connectTx_applies h hn0 hk0 (fun hc => absurd hc hc0) hs
    obtain ⟨hp, hf⟩ := connectTx_pays h hc0 ha hs
    obtain ⟨us, u', hal, hl, hs', hu', hp', hf'⟩ := ih (Nat.succ_ne_zero n) hss hd hk hb ho
    refine ⟨undo :: us, u', ⟨u1, ha, hal⟩, by simp [hl], hs', ?_,
      forall_mem_cons.2 ⟨hp, hp'⟩, ?_⟩
    · rw [hu', hu, if_neg hn, append_assoc]
      rfl
    · rw [hf', hf, zip_cons_cons, map_cons, sum_cons, add_assoc]

end Fees

def NonNegative (u : Utxo) : Prop := ∀ o coin, u o = some coin → 0 ≤ coin.out.nValue

section Values
variable [ChainHash] {u u' : Utxo} {nHeight : Nat} {tx : Transaction} {undo : List Coin}

lemma outputCoins_nonneg (ho : ∀ out ∈ tx.vout, 0 ≤ out.nValue) :
    ∀ e ∈ outputCoins nHeight tx, 0 ≤ e.2.out.nValue := by
  intro e he
  obtain ⟨⟨out, k⟩, hm, rfl⟩ := mem_map.1 he
  exact ho out (fst_mem_of_mem_zipIdx hm)

lemma NonNegative.applies (h : NonNegative u) (ha : Applies nHeight tx undo u u')
    (ho : ∀ out ∈ tx.vout, 0 ≤ out.nValue) : NonNegative u' :=
  ha.forall_coins h fun e he _ => outputCoins_nonneg ho e he

lemma sum_outputCoins (val : Coin → Amount)
    (hv : ∀ out, val ⟨out, tx.isCoinBase, nHeight⟩ = out.nValue) :
    ((outputCoins nHeight tx).map fun e => val e.2).sum = (tx.vout.map nValue).sum := by
  unfold outputCoins
  rw [map_map]
  have hf : ((fun e : OutPoint × Coin => val e.2) ∘ fun e : TxOut × Nat =>
      ((⟨tx.getHash, e.2⟩ : OutPoint), (⟨e.1, tx.isCoinBase, nHeight⟩ : Coin))) =
      nValue ∘ Prod.fst := by
    funext e
    exact hv e.1
  rw [hf, ← map_map, zipIdx_map_fst]

lemma Applies.totalBy_le (h : Applies nHeight tx undo u u') (val : Coin → Amount)
    (hf : FinitelyMany u) (hv : ∀ e ∈ outputCoins nHeight tx, 0 ≤ val e.2) :
    FinitelyMany u' ∧ totalBy val u' ≤ totalBy val u - (undo.map val).sum +
      ((outputCoins nHeight tx).map fun e => val e.2).sum := by
  obtain ⟨hf', hs⟩ := totalBy_spendAll val hf h.nodup h.spent
  obtain ⟨hf'', ha⟩ := totalBy_addAll hf' (nodup_outputs nHeight tx) h.fresh hv
  rw [← h.result] at hf'' ha
  exact ⟨hf'', by linarith⟩

/-- Transactions that spend lower the value of the coins by their fees, also without coins of the
coinbase of the block. -/
lemma appliesAll_values {val : Coin → Amount} {txs : List (Transaction × List Coin)}
    (hv : ∀ coin : Coin, ¬ (coin.fCoinBase = true ∧ (nHeight : Int) - coin.nHeight < 5) →
      val coin = coin.out.nValue)
    (hl : AppliesAll nHeight txs u u') (hy : ∀ e ∈ txs, Pays nHeight e.1 e.2)
    (hf : FinitelyMany u) (hn : NonNegative u) :
    FinitelyMany u' ∧ NonNegative u' ∧ totalBy val u' + (txs.map fee).sum ≤ totalBy val u := by
  induction txs generalizing u with
  | nil =>
    obtain rfl : u' = u := hl
    exact ⟨hf, hn, by simp⟩
  | cons e txs ih =>
    obtain ⟨tx, undo⟩ := e
    obtain ⟨u1, ha, hl⟩ := hl
    obtain ⟨hp, hy⟩ := forall_mem_cons.1 hy
    have ho : ∀ out, val ⟨out, tx.isCoinBase, nHeight⟩ = out.nValue := fun out =>
      hv _ fun h => hp.not_coinBase h.1
    have hc : (undo.map val).sum = (undo.map fun coin => coin.out.nValue).sum :=
      congrArg List.sum (map_congr_left fun coin hcn => hv coin (hp.mature coin hcn))
    obtain ⟨hf1, hs⟩ := ha.totalBy_le val hf fun e he => by
      obtain ⟨⟨out, k⟩, hm, rfl⟩ := mem_map.1 he
      exact (ho out).symm ▸ hp.nonneg out (fst_mem_of_mem_zipIdx hm)
    obtain ⟨hf', hn', hsm⟩ := ih hl hy hf1 (hn.applies ha hp.nonneg)
    refine ⟨hf', hn', ?_⟩
    rw [hc, sum_outputCoins val ho] at hs
    rw [map_cons, sum_cons, fee]
    linarith

end Values

lemma finitelyMany_visible (v : CoinsView) : FinitelyMany v.visible := by
  induction v with
  | db d =>
    refine (d.coins.keys.finite_toSet).subset fun o ho => ?_
    refine Std.ExtTreeMap.mem_keys.2 (Std.ExtTreeMap.isSome_getElem?_iff_mem.1 ?_)
    exact Option.isSome_iff_ne_none.2 ho
  | cache c base ih =>
    refine (c.cacheCoins.keys.finite_toSet.union ih).subset fun o ho => ?_
    cases hc : c.cacheCoins[o]? with
    | none =>
      refine .inr fun hn => ho ?_
      exact (CoinsViewCache.look_of_none hc).trans hn
    | some e =>
      refine .inl (Std.ExtTreeMap.mem_keys.2 (Std.ExtTreeMap.isSome_getElem?_iff_mem.1 ?_))
      rw [hc]
      rfl

lemma totalBy_mono {val val' : Coin → Amount} {u : Utxo} (h : FinitelyMany u)
    (hv : ∀ o coin, u o = some coin → val coin ≤ val' coin) : totalBy val u ≤ totalBy val' u := by
  refine finsum_le_finsum' (h.support val) (h.support val') fun o => ?_
  cases hu : u o with
  | none => exact le_refl 0
  | some coin => exact hv o coin hu

lemma sumsInRange_of_nonneg {l : List Amount} (hn : ∀ a ∈ l, 0 ≤ a)
    (hs : l.sum ≤ MAX_MONEY) : SumsInRange l := by
  intro pre post he
  subst he
  have hp : 0 ≤ pre.sum := sum_nonneg fun a ha => hn a (by simp [ha])
  have hps : 0 ≤ post.sum := sum_nonneg fun a ha => hn a (by simp [ha])
  rw [sum_append] at hs
  exact ⟨hp, by linarith⟩

structure MoneyView where
  tip : CoinsTip
  wellFlagged : (CoinsView.cache tip.cache tip.base).WellFlagged
  nonNegative : NonNegative tip.coins
  range : MoneyRange (total tip.coins)

lemma MoneyView.sees (view : MoneyView) : view.tip.Sees view.tip.coins ∅ :=
  ⟨view.wellFlagged, rfl, fun o ho => absurd ho (Set.notMem_empty o)⟩

lemma MoneyView.finitelyMany (view : MoneyView) : FinitelyMany view.tip.coins :=
  finitelyMany_visible (.cache view.tip.cache view.tip.base)

def superblockPart (p : ValueParams) (nBlockHeight : Int) : Amount :=
  if p.isValidBlockHeight nBlockHeight then p.getPaymentsLimit nBlockHeight else 0

def olderValue (nHeight : Nat) (coin : Coin) : Amount :=
  if coin.fCoinBase = true ∧ coin.nHeight = nHeight then 0 else coin.out.nValue

lemma olderValue_mature {nHeight : Nat} {coin : Coin}
    (h : ¬ (coin.fCoinBase = true ∧ (nHeight : Int) - coin.nHeight < 5)) :
    olderValue nHeight coin = coin.out.nValue := by
  refine if_neg fun hn => h ⟨hn.1, ?_⟩
  rw [hn.2]
  omega

lemma olderValue_le {nHeight : Nat} {coin : Coin} (h : 0 ≤ coin.out.nValue) :
    0 ≤ olderValue nHeight coin ∧ olderValue nHeight coin ≤ coin.out.nValue := by
  unfold olderValue
  split_ifs
  · exact ⟨le_refl 0, h⟩
  · exact ⟨h, le_refl _⟩

section Bound
variable [ChainHash] {env : BlockEnv} {u u1 u' : Utxo} {cb : Transaction}
  {txs : List (Transaction × List Coin)}

lemma block_values (hb : cb.isCoinBase) (hfr : Applies env.nHeight cb [] u u1)
    (hl : AppliesAll env.nHeight txs u1 u') (ho : ∀ out ∈ cb.vout, 0 ≤ out.nValue)
    (hp : ∀ e ∈ txs, Pays env.nHeight e.1 e.2) (hf : FinitelyMany u) (hn : NonNegative u) :
    total u' + (txs.map fee).sum ≤ total u + (cb.vout.map nValue).sum ∧
      (txs.map fee).sum ≤ total u := by
  have hn1 := hn.applies hfr ho
  constructor
  · obtain ⟨hf1, hs⟩ := hfr.totalBy_le (fun coin => coin.out.nValue) hf (outputCoins_nonneg ho)
    obtain ⟨-, -, hm⟩ := appliesAll_values (fun coin _ => rfl) hl hp hf1 hn1
    rw [sum_outputCoins (fun coin => coin.out.nValue) fun out => rfl] at hs
    simp only [map_nil, sum_nil, sub_zero] at hs
    exact hm.trans hs
  · obtain ⟨hf1, hs⟩ := hfr.totalBy_le (olderValue env.nHeight) hf
      fun e he => (olderValue_le (outputCoins_nonneg ho e he)).1
    obtain ⟨-, hn', hm⟩ := appliesAll_values (fun coin h => olderValue_mature h) hl hp hf1 hn1
    -- the outputs of the coinbase do not count
    have hw : ((outputCoins env.nHeight cb).map fun e => olderValue env.nHeight e.2).sum = 0 := by
      refine sum_eq_zero fun a ha => ?_
      obtain ⟨e, he, rfl⟩ := mem_map.1 ha
      obtain ⟨x, -, rfl⟩ := mem_map.1 he
      exact if_pos ⟨hb, rfl⟩
    have holder : totalBy (olderValue env.nHeight) u ≤ total u :=
      totalBy_mono hf fun o coin hc => (olderValue_le (hn o coin hc)).2
    have hr : 0 ≤ totalBy (olderValue env.nHeight) u' :=
      totalBy_nonneg fun o coin hc => (olderValue_le (hn' o coin hc)).1
    rw [hw] at hs
    simp only [map_nil, sum_nil, sub_zero, add_zero] at hs
    linarith

omit [ChainHash] in
lemma checkValue_ok {block : Block} {nFees : Amount} (hvt : block.vtx.head? = some cb)
    (hh : env.params.nSuperblockStartBlock ≤ env.nHeight) (h : checkValue env block nFees = .ok ())
    : (∀ out ∈ cb.vout, 0 ≤ out.nValue) ∧ SumsInRange (cb.vout.map nValue) ∧
      (cb.vout.map nValue).sum ≤
        nFees + env.params.getBlockSubsidy env.nPrevBits (env.nHeight - 1) false +
          superblockPart env.params env.nHeight := by
  rw [checkValue, hvt] at h
  obtain ⟨tx, ht, h⟩ := bind_ok.1 h
  cases ht
  obtain ⟨nBlockValue, hl, h⟩ := bind_ok.1 h
  obtain ⟨rfl, hn, hs⟩ := getValueOut_ok hl
  dsimp only at h
  split at h
  · cases h
  · rename_i hv
    exact ⟨hn, hs, le_of_isBlockValueValid hh hv⟩

def MAX_INT64 : Int := 2 ^ 63 - 1

omit [ChainHash] in
lemma ValueParams.superblockPart_le (p : ValueParams) (height : Int) :
    superblockPart p height ≤ 33600000 * COIN := by
  unfold superblockPart ValueParams.getPaymentsLimit
  split_ifs with hv hn
  · decide
  · have hs := (p.subsidy_range p.nBitsLimit (height - 1) true).2
    have hc := p.cycle_le
    split_ifs at hs with hf
    · -- the second block is a superblock only where all are
      have ho : p.nSuperblockCycle = 1 := by
        have ht : Int.tmod height p.nSuperblockCycle = 0 := by
          simp only [ValueParams.isValidBlockHeight, decide_eq_true_eq] at hv
          exact hv.2
        rw [show height = 1 by omega] at ht
        have hd : ((p.nSuperblockCycle : Nat) : Int) ∣ ((1 : Nat) : Int) :=
          Int.dvd_of_tmod_eq_zero ht
        exact Nat.dvd_one.1 (Int.natCast_dvd_natCast.1 hd)
      rw [ho]
      simpa using hs
    · calc _ ≤ (50 * COIN) * (p.nSuperblockCycle : Int) :=
            mul_le_mul_of_nonneg_right hs (Int.natCast_nonneg _)
        _ ≤ (50 * COIN) * 43800 := by
            refine mul_le_mul_of_nonneg_left ?_ (by decide)
            exact_mod_cast hc
        _ ≤ 33600000 * COIN := by decide
  · decide

omit [ChainHash] in
/-- What the coinbase is compared with fits in 64 bits. -/
lemma ValueParams.reward_range (p : ValueParams) (nPrevBits nHeight : Int) {nFees : Amount}
    (hn : 0 ≤ nFees) (hm : nFees ≤ MAX_MONEY) :
    0 ≤ nFees + p.getBlockSubsidy nPrevBits (nHeight - 1) false ∧
      nFees + p.getBlockSubsidy nPrevBits (nHeight - 1) false + superblockPart p nHeight ≤
        MAX_INT64 := by
  obtain ⟨hs0, hs⟩ := p.subsidy_range nPrevBits (nHeight - 1) false
  have hl : (if nHeight - 1 = 0 then 33600000 * COIN else 50 * COIN) ≤ 33600000 * COIN := by
    split_ifs <;> decide
  have hp := p.superblockPart_le nHeight
  have hx : MAX_MONEY + 33600000 * COIN + 33600000 * COIN ≤ MAX_INT64 := by decide
  exact ⟨by linarith, by linarith⟩

lemma nFees_of_isCoinBase {st st' : ConnectState} {i : Nat} (hc : cb.isCoinBase = true)
    (h : connectTx env st (cb, i) = .ok st') : st'.nFees = st.nFees := by
  obtain ⟨st0, hi, h⟩ := Run.bind_ok.1 h
  rw [connectInputs, if_pos hc] at hi
  cases hi
  obtain ⟨x, -, h⟩ := Run.bind_ok.1 h
  cases h
  rfl

/-- With a block from the start of superblocks on, the value of all coins grows by at most the
subsidy, and the limit of the payments at the heights of superblocks. All sums of outputs, inputs
and fees are in the range of money, and what the coinbase is compared with fits in 64 bits. -/
theorem supply_bound (env : BlockEnv) (block : Block) (view : MoneyView)
    (hheight : env.params.nSuperblockStartBlock ≤ env.nHeight) {st : ConnectState}
    (hok : connectBlock env block view.tip = .ok st) : total st.view.coins ≤ total view.tip.coins +
        env.params.getBlockSubsidy env.nPrevBits (env.nHeight - 1) false +
          superblockPart env.params env.nHeight ∧
      st.nFees = ((block.vtx.tail.zip st.vtxundo).map fee).sum ∧
      SumsInRange ((block.vtx.tail.zip st.vtxundo).map fee) ∧
      (∀ tx ∈ block.vtx, SumsInRange (tx.vout.map nValue)) ∧
      (∀ undo ∈ st.vtxundo, SumsInRange (undo.map fun coin => coin.out.nValue)) ∧
      0 ≤ st.nFees + env.params.getBlockSubsidy env.nPrevBits (env.nHeight - 1) false ∧
      st.nFees + env.params.getBlockSubsidy env.nPrevBits (env.nHeight - 1) false +
        superblockPart env.params env.nHeight ≤ MAX_INT64 := by
  obtain ⟨view1, known, hss, ht, hh, hvl, ho⟩ := connectBlock_loop view.sees hok
  obtain ⟨hne, hb, hx⟩ := checkBlock_spec hh
  obtain ⟨cb, txs, hv⟩ := List.exists_cons_of_ne_nil hne
  rw [hv] at hb hx ho ht
  rw [List.zipIdx_cons] at hb ht
  obtain ⟨hc0, hcs⟩ := List.forall_mem_cons.1 hb
  obtain ⟨ht0, hx⟩ := List.forall_mem_cons.1 hx
  obtain ⟨ho0, ho⟩ := List.forall_mem_cons.1 ho
  obtain ⟨st1, hs, ht⟩ := Run.bind_ok.1 ht
  -- the coinbase
  have hcn : cb.isCoinBase = true := hc0.2 rfl
  obtain ⟨undo, u1, hap, hs1, hu1⟩ := connectTx_applies hss
    (checkTransaction_nodup ht0) (fun e he => (ho0 e he).1) (fun _ e he => (ho0 e he).2) hs
  have hsp := hap.spent
  rw [spentInputs, if_pos hcn] at hsp
  cases hsp
  have hf1 : st1.nFees = 0 := nFees_of_isCoinBase hcn hs
  -- the other transactions
  have hoh : ∀ tx ∈ txs, ¬ tx.isCoinBase = true := by
    intro tx hm hc
    rw [← List.zipIdx_map_fst 1 txs] at hm
    obtain ⟨e, he, rfl⟩ := List.mem_map.1 hm
    have hz := (hcs e he).1 hc
    have hi := List.le_snd_of_mem_zipIdx he
    omega
  obtain ⟨undos, u', hal, hl, hs', hu, hp, hf⟩ := connectTxs_pay
    (Nat.succ_ne_zero 0) hs1 (fun tx hm => checkTransaction_nodup (hx tx hm))
    (fun tx hm e he => (ho tx hm e he).1) hoh ht
  rw [hf1, zero_add] at hf
  rw [hu1, if_pos rfl, List.nil_append] at hu
  obtain ⟨hn, hsm, hd⟩ := checkValue_ok (by rw [hv]; rfl) hheight hvl
  obtain ⟨hg, hr⟩ := block_values hcn hap hal hn hp
    view.finitelyMany view.nonNegative
  have hfe : ∀ a ∈ (txs.zip undos).map fee, 0 ≤ a := by
    intro a ha
    obtain ⟨e, he, rfl⟩ := List.mem_map.1 ha
    exact (hp e he).fee_nonneg
  have hco : st.view.coins = u' := hs'.visible
  rw [hco, hu, hf, hv, List.tail_cons]
  rw [hf] at hd
  have hlim := hr.trans view.range.2
  refine ⟨by linarith, rfl, sumsInRange_of_nonneg hfe hlim,
    List.forall_mem_cons.2 ⟨hsm, fun tx hm => ?_⟩, fun undo hm => ?_,
    env.params.reward_range env.nPrevBits env.nHeight (List.sum_nonneg hfe) hlim⟩
  · rw [← List.map_fst_zip hl.ge] at hm
    obtain ⟨e, he, rfl⟩ := List.mem_map.1 hm
    exact (hp e he).sumsOut
  · rw [← List.map_snd_zip hl.le] at hm
    obtain ⟨e, he, rfl⟩ := List.mem_map.1 hm
    exact (hp e he).sumsIn

end Bound

namespace Sample

def lateEnv : BlockEnv := { env with nHeight := 1010, nHeight_pos := by decide }

lemma view_coins : view.tip.coins =
    update (fun _ => none) ⟨9, 0⟩ (some ⟨⟨100, .pubKeyHash 1⟩, false, 2⟩) := by
  funext o
  show coins.coins[o]? = _
  rw [coins, Maps.getElem?_insert, update_apply]
  by_cases he : o = ⟨9, 0⟩
  · rw [if_pos he, if_pos he]
  · rw [if_neg he, if_neg he]
    simp

lemma view_total : total view.tip.coins = 100 := by
  rw [view_coins, total, totalBy_update (by simp [FinitelyMany])]
  simp [totalBy]

def moneyView : MoneyView where
  tip := view.tip
  wellFlagged := view.wellFlagged
  nonNegative o coin h := by
    rw [coins_eq h]
    decide
  range := by
    rw [view_total]
    decide

local instance supplyHash : ChainHash := tableHash [coinbase, tx1, tx2] []

theorem supply_bound_sample : ∃ st, connectBlock lateEnv block moneyView.tip = .ok st ∧
    st.nFees = 2 ∧ total st.view.coins ≤ 100 + 50 + 500 := by
  obtain ⟨st, hs, hf⟩ := Run.exists_of_map_toOption (b := 2)
    (f := fun st : ConnectState => st.nFees)
    (show (connectBlock lateEnv block moneyView.tip).toOption.map _ = _ by decide +kernel)
  have hb := (supply_bound lateEnv block moneyView (by decide) hs).1
  rw [show total moneyView.tip.coins = 100 from view_total] at hb
  exact ⟨st, hs, hf, hb⟩

end Sample
end Trivechain.Validation
