import Trivechain.Evo.TableHash
import Trivechain.Validation.Blocks

/-!
# A disconnected block leaves no trace in the coins

`Applies` says what a transaction does to the map of unspent coins: its inputs are there and are
spent, its outputs are new. A block that connects applies its transactions one after the other, and
disconnecting undoes each of them exactly.
-/

namespace Trivechain.Validation
open Evo Coins Run
open Std (ExtTreeMap)
open Function
open List CoinsTip

def spendAll (u : Utxo) (vin : List OutPoint) : Utxo :=
  vin.foldl (fun u o => Function.update u o none) u

def addAll (u : Utxo) (coins : List (OutPoint × Coin)) : Utxo :=
  coins.foldl (fun u e => addTo u e.1 e.2) u

section Maps
variable {u : Utxo} {o : OutPoint} {vin : List OutPoint} {coins : List (OutPoint × Coin)}

lemma spendAll_of_notMem (h : o ∉ vin) : spendAll u vin o = u o := by
  induction vin generalizing u with
  | nil => rfl
  | cons o' vin ih =>
    rw [mem_cons, not_or] at h
    exact (ih h.2).trans (update_of_ne h.1 _ _)

lemma spendAll_of_mem (h : o ∈ vin) : spendAll u vin o = none := by
  induction vin generalizing u with
  | nil => exact absurd h not_mem_nil
  | cons o' vin ih =>
    by_cases hm : o ∈ vin
    · exact ih hm
    · obtain rfl : o = o' := (mem_cons.1 h).resolve_right hm
      exact (spendAll_of_notMem hm).trans (update_self _ _ _)

lemma spendAll_some {coin : Coin} (h : spendAll u vin o = some coin) : u o = some coin := by
  by_cases hm : o ∈ vin
  · rw [spendAll_of_mem hm] at h
    cases h
  · exact (spendAll_of_notMem hm).symm.trans h

lemma isSome_of_spendAll (h : (spendAll u vin o).isSome) : (u o).isSome := by
  obtain ⟨coin, hc⟩ := Option.isSome_iff_exists.1 h
  exact Option.isSome_iff_exists.2 ⟨coin, spendAll_some hc⟩

lemma addTo_of_ne {coin : Coin} {o' : OutPoint} (h : o ≠ o') : addTo u o' coin o = u o := by
  unfold addTo
  split_ifs
  · rfl
  · exact update_of_ne h _ _

lemma addAll_of_notMem (h : o ∉ coins.map Prod.fst) : addAll u coins o = u o := by
  induction coins generalizing u with
  | nil => rfl
  | cons e coins ih =>
    rw [map_cons, mem_cons, not_or] at h
    exact (ih h.2).trans (addTo_of_ne h.1)

lemma addAll_update {x : Option Coin} (h : o ∉ coins.map Prod.fst) :
    addAll (Function.update u o x) coins = Function.update (addAll u coins) o x := by
  induction coins generalizing u with
  | nil => rfl
  | cons e coins ih =>
    rw [map_cons, mem_cons, not_or] at h
    have hs : addTo (Function.update u o x) e.1 e.2 = Function.update (addTo u e.1 e.2) o x := by
      unfold addTo
      split_ifs
      · rfl
      · exact update_comm h.1 _ _ _
    show addAll (addTo (Function.update u o x) e.1 e.2) coins = _
    rw [hs]
    exact ih h.2

def CoinsAt (u : Utxo) (vin : List OutPoint) (coins : List Coin) : Prop :=
  List.Forall₂ (fun o coin => u o = some coin) vin coins

variable {undo : List Coin}

lemma CoinsAt.update (h : CoinsAt u vin undo) (hn : o ∉ vin) (x : Option Coin) :
    CoinsAt (Function.update u o x) vin undo := by
  induction h with
  | nil => exact .nil
  | cons hc _ ih =>
    rw [mem_cons, not_or] at hn
    exact .cons ((update_of_ne (Ne.symm hn.1) _ _).trans hc) (ih hn.2)

lemma CoinsAt.isSome (h : CoinsAt u vin undo) (ho : o ∈ vin) : (u o).isSome := by
  induction h with
  | nil => exact absurd ho not_mem_nil
  | cons hc _ ih =>
    rcases mem_cons.1 ho with rfl | ho
    · rw [hc]
      rfl
    · exact ih ho

lemma CoinsAt.unspent (h : CoinsAt u vin undo)
    (hu : ∀ o coin, u o = some coin → coin.isSpent = false) :
    ∀ coin ∈ undo, coin.isSpent = false := by
  induction h with
  | nil => exact fun coin hc => absurd hc not_mem_nil
  | cons hc _ ih => exact forall_mem_cons.2 ⟨hu _ _ hc, ih⟩

end Maps

section Apply
variable [ChainHash]

def spentInputs (tx : Transaction) : List OutPoint := if tx.isCoinBase then [] else tx.vin

/-- The transaction spends existing coins, which become its undo data, and its outputs replace none.
-/
structure Applies (nHeight : Nat) (tx : Transaction) (undo : List Coin) (u u' : Utxo) : Prop where
  nodup : (spentInputs tx).Nodup
  spent : CoinsAt u (spentInputs tx) undo
  unspent : ∀ coin ∈ undo, coin.isSpent = false
  fresh : ∀ e ∈ outputCoins nHeight tx, e.2.out.scriptPubKey.isUnspendable = false →
    spendAll u (spentInputs tx) e.1 = none
  result : u' = addAll (spendAll u (spentInputs tx)) (outputCoins nHeight tx)

def AppliesAll (nHeight : Nat) : List (Transaction × List Coin) → Utxo → Utxo → Prop
  | [], u, u' => u' = u
  | (tx, undo) :: txs, u, u' => ∃ u1, Applies nHeight tx undo u u1 ∧ AppliesAll nHeight txs u1 u'

def GoodCoins (u : Utxo) : Prop :=
  ∀ o coin, u o = some coin → coin.out.scriptPubKey.isUnspendable = false ∧ 0 < coin.nHeight

variable {nHeight : Nat} {tx : Transaction} {undo : List Coin} {u u' : Utxo}

lemma nodup_outputs (nHeight : Nat) (tx : Transaction) :
    ((outputCoins nHeight tx).map Prod.fst).Nodup := by
  have hi : (tx.vout.zipIdx.map Prod.snd).Nodup := by
    rw [zipIdx_map_snd]
    exact nodup_range'
  rw [outputCoins, map_map]
  refine List.Nodup.of_map OutPoint.n ?_
  rwa [map_map]

omit [ChainHash] in
lemma addAll_some {coins : List (OutPoint × Coin)} {o : OutPoint} {coin : Coin}
    (h : addAll u coins o = some coin) :
    u o = some coin ∨ ((o, coin) ∈ coins ∧ coin.out.scriptPubKey.isUnspendable = false) := by
  induction coins generalizing u with
  | nil => exact .inl h
  | cons e coins ih =>
    rcases ih h with hs | ⟨hm, hc⟩
    · dsimp only [addTo] at hs
      split_ifs at hs with hc
      · exact .inl hs
      · rw [update_apply] at hs
        split_ifs at hs with he
        · cases hs
          exact .inr ⟨by simp [he], by simpa using hc⟩
        · exact .inl hs
    · exact .inr ⟨mem_cons_of_mem e hm, hc⟩

lemma Applies.forall_coins {P : Coin → Prop} (h : Applies nHeight tx undo u u')
    (hu : ∀ o coin, u o = some coin → P coin)
    (ho : ∀ e ∈ outputCoins nHeight tx, e.2.out.scriptPubKey.isUnspendable = false → P e.2) :
    ∀ o coin, u' o = some coin → P coin := by
  intro o coin hc
  rw [h.result] at hc
  rcases addAll_some hc with hp | ⟨hm, hs⟩
  · exact hu o coin (spendAll_some hp)
  · exact ho _ hm hs

lemma Applies.goodCoins (h : Applies nHeight tx undo u u') (hu : GoodCoins u)
    (hp : 0 < nHeight) : GoodCoins u' := by
  refine h.forall_coins hu fun e he hs => ⟨hs, ?_⟩
  obtain ⟨x, -, rfl⟩ := mem_map.1 he
  exact hp

end Apply

section Inputs
variable {known : Set OutPoint} {u : Utxo} {view view' : CoinsTip} {vin : List OutPoint}

lemma haveInputs_true (h : view.Sees u known) (hh : haveInputs vin view = (true, view')) :
    view'.Sees u known ∧ ∀ o ∈ vin, (u o).isSome := by
  induction vin generalizing view with
  | nil =>
    cases hh
    exact ⟨h, fun o ho => absurd ho not_mem_nil⟩
  | cons o vin ih =>
    obtain ⟨v, hv, hss⟩ := h.haveCoin o
    rw [haveInputs, hv] at hh
    cases hs : (u o).isSome with
    | false => simp [hs] at hh
    | true =>
      rw [hs] at hh
      obtain ⟨hw, ha⟩ := ih (hss.mono (Set.subset_insert _ _)) hh
      exact ⟨hw, forall_mem_cons.2 ⟨hs, ha⟩⟩

lemma accessCoins_spec (h : view.Sees u known) (ha : ∀ o ∈ vin, (u o).isSome) :
    ∃ coins v, accessCoins vin view = (coins, v) ∧ v.Sees u known ∧ CoinsAt u vin coins := by
  induction vin generalizing view with
  | nil => exact ⟨[], view, rfl, h, .nil⟩
  | cons o vin ih =>
    obtain ⟨hm, ha⟩ := forall_mem_cons.1 ha
    obtain ⟨coin, hc⟩ := Option.isSome_iff_exists.1 hm
    obtain ⟨v, hv, hs⟩ := h.accessCoin hc
    obtain ⟨coins, v', hv', hs', hn⟩ := ih (hs.mono (Set.subset_insert _ _)) ha
    refine ⟨coin :: coins, v', ?_, hs', .cons hc hn⟩
    rw [accessCoins, hv]
    dsimp only
    rw [hv']

lemma spendInputs_spec {coins : List Coin} (h : view.Sees u known) (hn : vin.Nodup)
    (hc : CoinsAt u vin coins) :
    ∃ v, spendInputs vin view = .ok (coins, v) ∧ v.Sees (spendAll u vin) known := by
  induction vin generalizing view u coins with
  | nil =>
    cases hc
    exact ⟨view, rfl, h⟩
  | cons o vin ih =>
    cases hc with
    | @cons _ coin _ coins hcn hc =>
      obtain ⟨hw, hn⟩ := nodup_cons.1 hn
      obtain ⟨r, v, hv, hs, hr⟩ := h.spendCoin o
      obtain ⟨v', hv', hs'⟩ := ih hs hn (CoinsAt.update hc hw none)
      have hc' : r = some coin := by
        rw [hcn] at hr
        cases r with
        | none => cases hr
        | some c =>
          have hu : c.unspent? = some coin := hr
          unfold Coin.unspent? at hu
          split_ifs at hu
          exact hu
      refine ⟨v', ?_, hs'⟩
      rw [spendInputs, hv, hc']
      dsimp only
      rw [hv', ok_bind]

end Inputs

section Connect
variable [ChainHash] {known : Set OutPoint} {u : Utxo} {view view' : CoinsTip} {nHeight : Nat}
  {tx : Transaction}

omit [ChainHash] in
lemma addCoins_fresh {coins : List (OutPoint × Coin)} {overwrite : Bool}
    (h : view.Sees u known) (hn : (coins.map Prod.fst).Nodup)
    (hk : ∀ e ∈ coins, e.1 ∈ known) (hw : overwrite = true → ∀ e ∈ coins, u e.1 = none)
    (hok : coins.foldlM (fun view e => view.addCoin e.1 e.2 overwrite) view = .ok view') :
    view'.Sees (addAll u coins) known ∧
      ∀ e ∈ coins, e.2.out.scriptPubKey.isUnspendable = false → u e.1 = none := by
  induction coins generalizing view u with
  | nil =>
    cases hok
    exact ⟨h, fun e he => absurd he not_mem_nil⟩
  | cons e coins ih =>
    obtain ⟨v, hv, hok⟩ := bind_ok.1 hok
    obtain ⟨hf, hn⟩ := nodup_cons.1 (map_cons ▸ hn)
    obtain ⟨hp, ht⟩ := h.of_addCoin (fun _ => hk e (by simp)) hv
    have hr : e.2.out.scriptPubKey.isUnspendable = false → u e.1 = none := by
      intro hs
      cases ho : overwrite with
      | true => exact hw ho e (by simp)
      | false => exact ht hs ho
    have hh : ∀ e' ∈ coins, addTo u e.1 e.2 e'.1 = u e'.1 := fun e' he' =>
      addTo_of_ne fun hq => hf (mem_map.2 ⟨e', he', hq⟩)
    obtain ⟨hss, ha⟩ := ih hp hn (fun e' he' => hk e' (by simp [he']))
      (fun ho e' he' => (hh e' he').trans (hw ho e' (by simp [he']))) hok
    refine ⟨hss, forall_mem_cons.2 ⟨hr, fun e' he' hs => ?_⟩⟩
    rw [← hh e' he']
    exact ha e' he' hs

lemma mem_outputCoins {e : OutPoint × Coin} (he : e ∈ outputCoins nHeight tx) :
    ∃ k < tx.vout.length, e.1 = ⟨tx.getHash, k⟩ := by
  obtain ⟨⟨out, k⟩, hm, rfl⟩ := mem_map.1 he
  exact ⟨k, (mem_zipIdx' hm).1, rfl⟩

variable {env : BlockEnv} {st st' : ConnectState}

lemma connectInputs_ok {i : Nat} (h : st.view.Sees u known) (hb : ¬ tx.isCoinBase = true)
    (ho : connectInputs env i tx st = .ok st') : ∃ view coins nValueOut, view.Sees u known ∧
      CoinsAt u tx.vin coins ∧ getValueOut tx = .ok nValueOut ∧
      checkTxInputs env.nHeight coins nValueOut = .ok () ∧ st' = { st with
        view
        nFees := st.nFees + ((coins.map fun coin => coin.out.nValue).sum - nValueOut)
        batches := (tx.vin.zip coins).zipIdx.foldl
          (fun b e => b.addSpend env.nHeight i tx.getHash e.2 e.1.1 e.1.2) st.batches } := by
  rw [connectInputs, if_neg hb] at ho
  split at ho
  · cases ho
  · rename_i view hh
    obtain ⟨hs, ha⟩ := haveInputs_true h hh
    obtain ⟨coins, v, hv, hs', hc⟩ := accessCoins_spec hs ha
    rw [hv] at ho
    obtain ⟨nValueOut, hn, ho⟩ := bind_ok.1 ho
    obtain ⟨⟨⟩, hi, ho⟩ := bind_ok.1 ho
    obtain ⟨-, -, ho⟩ := bind_ok.1 ho
    cases ho
    exact ⟨v, coins, nValueOut, hs', hc, hn, hi, rfl⟩

lemma connectInputs_spec {i : Nat} (h : st.view.Sees u known)
    (ho : connectInputs env i tx st = .ok st') : st'.view.Sees u known ∧ st'.vtxundo = st.vtxundo ∧
      ∃ coins, CoinsAt u (spentInputs tx) coins := by
  unfold spentInputs
  split_ifs with hb
  · rw [connectInputs, if_pos hb] at ho
    cases ho
    exact ⟨h, rfl, [], .nil⟩
  · obtain ⟨view, coins, -, hs, hc, -, -, rfl⟩ := connectInputs_ok h hb ho
    exact ⟨hs, rfl, coins, hc⟩

lemma connectTx_applies {i : Nat} (h : st.view.Sees u known) (hn : tx.vin.Nodup)
    (hk : ∀ e ∈ outputCoins env.nHeight tx, e.1 ∈ known)
    (hw : tx.isCoinBase = true → ∀ e ∈ outputCoins env.nHeight tx, u e.1 = none)
    (ho : connectTx env st (tx, i) = .ok st') :
    ∃ undo u', Applies env.nHeight tx undo u u' ∧ st'.view.Sees u' known ∧
      st'.vtxundo = if i = 0 then st.vtxundo else st.vtxundo ++ [undo] := by
  obtain ⟨st1, hi, ho⟩ := bind_ok.1 ho
  obtain ⟨⟨undo, view⟩, hu, ho⟩ := bind_ok.1 ho
  cases ho
  obtain ⟨hs, hun, coins, hc⟩ := connectInputs_spec h hi
  have hn' : (spentInputs tx).Nodup := by
    unfold spentInputs
    split_ifs
    · exact nodup_nil
    · exact hn
  obtain ⟨v, hv, hsn⟩ := spendInputs_spec hs hn' hc
  obtain ⟨⟨coins', v'⟩, hp, hu⟩ := bind_ok.1 hu
  obtain ⟨view', ha, hu⟩ := bind_ok.1 hu
  cases hu
  cases hp.symm.trans hv
  have hw' : tx.isCoinBase = true → ∀ e ∈ outputCoins env.nHeight tx,
      spendAll u (spentInputs tx) e.1 = none := by
    intro hb e he
    rw [spentInputs, if_pos hb]
    exact hw hb e he
  obtain ⟨hf, hr⟩ := addCoins_fresh hsn (nodup_outputs _ tx) hk hw' ha
  exact ⟨undo, _, ⟨hn', hc, hc.unspent fun _ _ => hs.unspent, hr, rfl⟩, hf, by simp only [hun]⟩

/-- The transactions of a block from an index on are applied, with their undo data; the coinbase has
the index zero and none. -/
lemma connectTxs_applies {txs : List Transaction} {n : Nat} (h : st.view.Sees u known)
    (hn : ∀ tx ∈ txs, tx.vin.Nodup) (hk : ∀ tx ∈ txs, ∀ e ∈ outputCoins env.nHeight tx, e.1 ∈ known)
    (hb : ∀ e ∈ txs.zipIdx n, e.1.isCoinBase = true ↔ e.2 = 0)
    (hw : n = 0 → ∀ tx ∈ txs, ∀ e ∈ outputCoins env.nHeight tx, u e.1 = none)
    (ho : (txs.zipIdx n).foldlM (connectTx env) st = .ok st') :
    ∃ us u', AppliesAll env.nHeight (txs.zip us) u u' ∧ us.length = txs.length ∧
      st'.view.Sees u' known ∧ st'.vtxundo = st.vtxundo ++ (if n = 0 then us.drop 1 else us) ∧
      (n = 0 → us.head? = some [] ∨ us = []) := by
  induction txs generalizing n u st with
  | nil =>
    cases ho
    exact ⟨[], u, rfl, rfl, h, by simp, fun _ => .inr rfl⟩
  | cons tx txs ih =>
    obtain ⟨st1, ht, ho⟩ := bind_ok.1 ho
    have hc0 := hb (tx, n) (by simp)
    obtain ⟨undo, u1, ha, hss, hu⟩ := connectTx_applies h (hn tx (by simp))
      (hk tx (by simp)) (fun hc => hw (hc0.1 hc) tx (by simp)) ht
    obtain ⟨us, u', hal, hl, hs', hu', -⟩ := ih hss
      (fun tx' h' => hn tx' (by simp [h'])) (fun tx' h' => hk tx' (by simp [h']))
      (fun e he => hb e (by simp [he])) (fun h0 => absurd h0 (Nat.succ_ne_zero n)) ho
    refine ⟨undo :: us, u', ⟨u1, ha, hal⟩, by simp [hl], hs', ?_, fun h0 => ?_⟩
    · rw [hu', hu, if_neg (Nat.succ_ne_zero n)]
      split_ifs <;> simp
    · have hs := ha.spent
      rw [spentInputs, if_pos (hc0.2 h0)] at hs
      cases hs
      exact .inl rfl

omit [ChainHash] in
lemma checkBip30_spec {os : List OutPoint} (h : view.Sees u known)
    (hk : checkBip30 os view = .ok view') :
    view'.Sees u (known ∪ {o | o ∈ os}) ∧ ∀ o ∈ os, u o = none := by
  induction os generalizing view known with
  | nil =>
    cases hk
    exact ⟨h.mono (by simp), fun o ho => absurd ho not_mem_nil⟩
  | cons o os ih =>
    obtain ⟨v, hv, hs⟩ := h.haveCoin o
    rw [checkBip30, hv] at hk
    cases hu : u o with
    | some coin => simp [hu, dos] at hk
    | none =>
      rw [hu] at hk
      obtain ⟨hw, ha⟩ := ih hs hk
      refine ⟨hw.mono ?_, forall_mem_cons.2 ⟨hu, ha⟩⟩
      intro o' ho'
      simp only [Set.mem_union, Set.mem_insert_iff, Set.mem_ofPred_eq, mem_cons] at ho' ⊢
      tauto

lemma mem_blockOutputs {vtx : List Transaction} (ht : tx ∈ vtx) {e : OutPoint × Coin}
    (he : e ∈ outputCoins nHeight tx) : e.1 ∈ blockOutputs vtx := by
  obtain ⟨k, hk, hq⟩ := mem_outputCoins he
  rw [blockOutputs, mem_flatten]
  refine ⟨_, mem_map.2 ⟨tx, ht, rfl⟩, ?_⟩
  rw [hq]
  exact mem_map.2 ⟨k, mem_range.2 hk, rfl⟩

omit [ChainHash] in
lemma checkBlock_spec {block : Block} (h : checkBlock env block = .ok ()) :
    block.vtx ≠ [] ∧ (∀ e ∈ block.vtx.zipIdx, e.1.isCoinBase = true ↔ e.2 = 0) ∧
      ∀ tx ∈ block.vtx, checkTransaction env tx = .ok () := by
  obtain ⟨_, -, h⟩ := bind_ok.1 h
  obtain ⟨_, hf, h⟩ := bind_ok.1 h
  obtain ⟨_, hr, ha⟩ := bind_ok.1 h
  rw [denyIf_ok] at hf hr
  cases hv : block.vtx with
  | nil => simp [hv] at hf
  | cons cb txs =>
    rw [hv] at hf hr ha
    refine ⟨by simp, ?_, forM_ok ha⟩
    rw [zipIdx_cons, forall_mem_cons]
    refine ⟨by simpa using hf, fun e he => ?_⟩
    obtain ⟨hi, -, -⟩ := mem_zipIdx he
    have hn : e.1.isCoinBase = false := by
      simp only [tail_cons, any_eq_true, not_exists, not_and, Bool.not_eq_true] at hr
      exact hr e.1 (fst_mem_of_mem_zipIdx he)
    rw [hn]
    simp
    omega

end Connect

section Disconnect
variable {known : Set OutPoint} {u : Utxo} {st : DisconnectState}

lemma disconnectOutputs_spec (st : DisconnectState) {coins : List (OutPoint × Coin)}
    (hn : (coins.map Prod.fst).Nodup)
    (hf : ∀ e ∈ coins, e.2.out.scriptPubKey.isUnspendable = false → u e.1 = none)
    (h : st.view.Sees (addAll u coins) known) :
    (coins.foldl disconnectOutput st).view.Sees u known ∧
      (coins.foldl disconnectOutput st).fClean = st.fClean := by
  induction coins generalizing st with
  | nil => exact ⟨h, rfl⟩
  | cons e coins ih =>
    obtain ⟨hw, hn⟩ := nodup_cons.1 (map_cons ▸ hn)
    have hf' := fun e' he' => hf e' (mem_cons_of_mem e he')
    have hss : st.view.Sees (addAll (addTo u e.1 e.2) coins) known := h
    rw [foldl_cons]
    cases hs : e.2.out.scriptPubKey.isUnspendable with
    | true =>
      rw [addTo, if_pos hs] at hss
      rw [disconnectOutput, if_pos hs]
      exact ih st hn hf' hss
    | false =>
      rw [addTo, if_neg (by simp [hs]), addAll_update hw] at hss
      obtain ⟨r, v, hv, hp, hr⟩ := hss.spendCoin e.1
      -- what is moved out is the coin of the block
      have hc : r = some e.2 := by
        rw [update_self] at hr
        cases r with
        | none => cases hr
        | some c =>
          have hu : c.unspent? = some e.2 := hr
          unfold Coin.unspent? at hu
          split_ifs at hu
          exact hu
      rw [update_idem, update_eq_self_iff.2
        ((addAll_of_notMem hw).trans (hf e (by simp) hs)).symm] at hp
      have ht : disconnectOutput st e = { st with view := v } := by
        rw [disconnectOutput, if_neg (by simp [hs]), hv]
        simp [hc]
      rw [ht]
      exact ih { st with view := v } hn hf' hp

lemma disconnectInput_spec (nHeight i j : Nat) (txhash : Uint256) {o : OutPoint} {coin : Coin}
    (hs : coin.out.scriptPubKey.isUnspendable = false) (hp : 0 < coin.nHeight)
    (hu : coin.isSpent = false) (hn : u o = none) (h : st.view.Sees u known) :
    ∃ st', disconnectInput nHeight i txhash st ((o, coin), j) = .ok st' ∧
      st'.view.Sees (Function.update u o (some coin)) known ∧ st'.fClean = st.fClean := by
  obtain ⟨v, hv, hss⟩ := h.haveCoin o
  obtain ⟨v', hv', hs'⟩ := hss.addCoin (o := o) coin.fCoinBase hu fun _ => hn
  rw [addTo, if_neg (by simp [hs])] at hs'
  obtain ⟨v'', hv'', hs''⟩ := hs'.accessCoin
    (show Function.update u o (some coin) o = some coin from update_self ..)
  have ha : applyTxInUndo coin st.view o = .ok (true, v') := by
    rw [applyTxInUndo, hv]
    dsimp only
    rw [completeUndo, if_pos (by omega), ok_bind]
    dsimp only
    rw [hv', ok_bind, hn]
    rfl
  obtain ⟨b, hb⟩ : ∃ b, b = st.batches.undoSpend nHeight i txhash j o coin.nHeight coin.out :=
    ⟨_, rfl⟩
  refine ⟨{ st with view := v'', batches := b }, ?_, hs''.mono fun x hx => by simp [hx], rfl⟩
  rw [disconnectInput]
  dsimp only
  rw [ha, ok_bind]
  dsimp only
  rw [hv'', hb]
  simp

lemma disconnectInputs_restores {nHeight i n : Nat} {txhash : Uint256} {vin : List OutPoint}
    {undo : List Coin} (hg : GoodCoins u) (hu : ∀ coin ∈ undo, coin.isSpent = false)
    (hn : vin.Nodup) (hc : CoinsAt u vin undo) (h : st.view.Sees (spendAll u vin) known) :
    ∃ st', (((vin.zip undo).zipIdx n).reverse).foldlM (disconnectInput nHeight i txhash) st =
        .ok st' ∧ st'.view.Sees u known ∧ st'.fClean = st.fClean := by
  induction vin generalizing u undo n with
  | nil =>
    cases hc
    exact ⟨st, rfl, h, rfl⟩
  | cons o vin ih =>
    cases hc with
    | @cons _ coin _ undo hcn hc =>
      obtain ⟨hw, hn⟩ := nodup_cons.1 hn
      obtain ⟨st1, ht1, hs1, hc1⟩ := ih (u := Function.update u o none) (n := n + 1)
        (fun o' coin' h' => hg o' coin' (spendAll_some (show spendAll u [o] o' = _ from h')))
        (fun coin' h' => hu coin' (by simp [h'])) hn (CoinsAt.update hc hw none) h
      obtain ⟨hs, hp⟩ := hg o coin hcn
      obtain ⟨st2, ht2, hs2, hc2⟩ := disconnectInput_spec nHeight i n txhash hs
        hp (hu coin (by simp)) (update_self ..) hs1
      rw [update_idem, ← hcn, update_eq_self] at hs2
      refine ⟨st2, ?_, hs2, hc2.trans hc1⟩
      rw [zip_cons_cons, zipIdx_cons, reverse_cons, foldlM_append, ht1,
        ok_bind, foldlM_cons, ht2, ok_bind]
      rfl

section Undo
variable [ChainHash] {nHeight : Nat} {tx : Transaction} {undo : List Coin} {u' : Utxo}

lemma disconnectTx_undoes {i : Nat} (ha : Applies nHeight tx undo u u')
    (hg : GoodCoins u) (hcb : tx.isCoinBase = true ↔ i = 0) (h : st.view.Sees u' known) :
    ∃ st', disconnectTx nHeight st ((tx, undo), i) = .ok st' ∧ st'.view.Sees u known ∧
      st'.fClean = st.fClean := by
  obtain ⟨b, hb⟩ : ∃ b, b = tx.vout.zipIdx.reverse.foldl
    (fun b o => b.undoOutput nHeight i tx.getHash o.2 o.1) st.batches := ⟨_, rfl⟩
  rw [ha.result] at h
  obtain ⟨hs, hl⟩ := disconnectOutputs_spec { st with batches := b }
    (nodup_outputs nHeight tx) ha.fresh h
  have hst : disconnectTx nHeight st ((tx, undo), i) = disconnectInputs nHeight tx undo i
      ((outputCoins nHeight tx).foldl disconnectOutput { st with batches := b }) := by
    rw [hb]
    rfl
  have hp := ha.spent
  have hn := ha.nodup
  rw [hst, disconnectInputs]
  by_cases hi : i = 0
  · -- the coinbase spends nothing
    rw [if_pos hi]
    rw [spentInputs, if_pos (hcb.2 hi)] at hs
    exact ⟨_, rfl, hs, hl⟩
  · have ht : ¬ tx.isCoinBase = true := fun hc => hi (hcb.1 hc)
    rw [spentInputs, if_neg ht] at hs hp hn
    rw [if_neg hi, if_neg (not_not.2 hp.length_eq.symm)]
    obtain ⟨st', ht', hs', hc'⟩ := disconnectInputs_restores hg ha.unspent hn hp hs
    exact ⟨st', ht', hs', hc'.trans hl⟩

lemma disconnectTxs_undoes (st : DisconnectState) {txs : List (Transaction × List Coin)}
    {n : Nat} (hp : 0 < nHeight) (hl : AppliesAll nHeight txs u u') (hg : GoodCoins u)
    (hc : ∀ e ∈ txs.zipIdx n, e.1.1.isCoinBase = true ↔ e.2 = 0) (h : st.view.Sees u' known) :
    ∃ st', (txs.zipIdx n).reverse.foldlM (disconnectTx nHeight) st = .ok st' ∧
      st'.view.Sees u known ∧ st'.fClean = st.fClean := by
  induction txs generalizing u n with
  | nil =>
    obtain rfl : u' = u := hl
    exact ⟨st, rfl, h, rfl⟩
  | cons e txs ih =>
    obtain ⟨tx, undo⟩ := e
    obtain ⟨u1, ha, hl⟩ := hl
    obtain ⟨st1, ht1, hs1, hc1⟩ := ih hl (ha.goodCoins hg hp)
      (n := n + 1) (fun e he => hc e (by simp [he]))
    obtain ⟨st2, ht2, hs2, hc2⟩ := disconnectTx_undoes ha hg (hc ((tx, undo), n) (by simp)) hs1
    refine ⟨st2, ?_, hs2, hc2.trans hc1⟩
    rw [zipIdx_cons, reverse_cons, foldlM_append, ht1, ok_bind, foldlM_cons, ht2, ok_bind]
    rfl

end Undo
end Disconnect

/-- A view whose marks are right. Scripts that cannot be spent are never stored. -/
structure UtxoView where
  tip : CoinsTip
  wellFlagged : (CoinsView.cache tip.cache tip.base).WellFlagged
  spendable : ∀ o coin, tip.coins o = some coin →
    coin.out.scriptPubKey.isUnspendable = false

lemma UtxoView.sees (view : UtxoView) : view.tip.Sees view.tip.coins ∅ :=
  ⟨view.wellFlagged, rfl, fun o ho => absurd ho (Set.notMem_empty o)⟩

lemma checkTransaction_nodup {env : BlockEnv} {tx : Transaction}
    (h : checkTransaction env tx = .ok ()) : tx.vin.Nodup := by
  iterate 4 obtain ⟨_, -, h⟩ := bind_ok.1 h
  obtain ⟨_, hn, -⟩ := bind_ok.1 h
  rw [denyIf_ok] at hn
  exact not_not.1 hn

section RoundTrip
variable [ChainHash]
variable {env : BlockEnv} {block : Block} {view : CoinsTip} {st : ConnectState}

/-- A block that connects has gone through its checks and its transactions. None of its outputs
existed, which the cache knows from the check. -/
lemma connectBlock_loop {u : Utxo} (h : view.Sees u ∅)
    (ho : connectBlock env block view = .ok st) : ∃ view1 known, view1.Sees u known ∧
      block.vtx.zipIdx.foldlM (connectTx env) { view := view1 } = .ok st ∧
      checkBlock env block = .ok () ∧ checkValue env block st.nFees = .ok () ∧
      ∀ tx ∈ block.vtx, ∀ e ∈ outputCoins env.nHeight tx, e.1 ∈ known ∧ u e.1 = none := by
  obtain ⟨_, hc, ho⟩ := bind_ok.1 ho
  obtain ⟨view1, hb, ho⟩ := bind_ok.1 ho
  obtain ⟨st1, ht, ho⟩ := bind_ok.1 ho
  obtain ⟨_, hv, ho⟩ := bind_ok.1 ho
  cases ho
  obtain ⟨hs, hn⟩ := checkBip30_spec h hb
  refine ⟨view1, _, hs, ht, hc, hv, fun tx hx e he => ?_⟩
  have hm := mem_blockOutputs hx he
  exact ⟨.inr hm, hn e.1 hm⟩

lemma connectBlock_applies {u : Utxo} (h : view.Sees u ∅)
    (hk : connectBlock env block view = .ok st) :
    ∃ us u', AppliesAll env.nHeight (block.vtx.zip ([] :: us)) u u' ∧
      us.length + 1 = block.vtx.length ∧ st.vtxundo = us ∧ st.view.Sees u' ∅ := by
  obtain ⟨view1, known, hs, ht, hc, -, ho⟩ := connectBlock_loop h hk
  obtain ⟨hn, hb, hx⟩ := checkBlock_spec hc
  obtain ⟨us, u', ha, hl, hs', hu, hh⟩ := connectTxs_applies (n := 0) hs
    (fun tx hm => checkTransaction_nodup (hx tx hm))
    (fun tx hm e he => (ho tx hm e he).1) hb
    (fun _ tx hm e he => (ho tx hm e he).2) ht
  cases us with
  | nil => exact absurd (length_eq_zero_iff.1 hl.symm) hn
  | cons undo us =>
    obtain rfl : undo = [] := by simpa using hh rfl
    exact ⟨us, u', ha, by simpa using hl, by simpa using hu,
      hs'.mono (Set.empty_subset _)⟩

lemma connectBlock_checked (ho : connectBlock env block view = .ok st) :
    checkBlock env block = .ok () := by
  obtain ⟨_, hc, -⟩ := bind_ok.1 ho
  exact hc

/-- A block that was connected is disconnected cleanly, and all coins are as before. -/
lemma disconnectBlock_of_connectBlock (env : BlockEnv) (block : Block) (view : UtxoView)
    (hheights : ∀ o coin, view.tip.coins o = some coin → 0 < coin.nHeight)
    (hok : connectBlock env block view.tip = .ok st) :
    ∃ st', disconnectBlock env.nHeight block st.vtxundo st.view = .ok st' ∧ st'.fClean = true ∧
      st'.view.coins = view.tip.coins := by
  obtain ⟨undos, u', ha, hl, hu, hs'⟩ := connectBlock_applies view.sees hok
  obtain ⟨-, hcb, -⟩ := checkBlock_spec (connectBlock_checked hok)
  have hg : GoodCoins view.tip.coins := fun o coin hc =>
    ⟨view.spendable o coin hc, hheights o coin hc⟩
  obtain ⟨st', ht', hb, hcl⟩ := disconnectTxs_undoes { view := st.view } (n := 0)
    env.nHeight_pos ha hg
    (fun e he => by
      obtain ⟨ht, -⟩ := List.getElem?_zip_eq_some.1 (List.mem_zipIdx_iff_getElem?.1 he)
      exact hcb (e.1.1, e.2) (List.mem_zipIdx_iff_getElem?.2 ht)) hs'
  refine ⟨st', ?_, hcl, hb.visible⟩
  rw [disconnectBlock, hu, if_neg (not_not.2 hl)]
  exact ht'

end RoundTrip

namespace Sample

def params : ValueParams where
  nBudgetPaymentsStartBlock := 100
  nBudgetPaymentsCycleBlocks := 10
  nBudgetPaymentsWindowBlocks := 1
  nSuperblockStartBlock := 1000
  nSuperblockCycle := 10
  nBitsLimit := 1
  getBlockSubsidy _ _ _ := 50
  subsidy_range _ _ _ := by
    refine ⟨by decide, ?_⟩
    split_ifs <;> decide
  cycle_le := by decide

def env : BlockEnv where
  nHeight := 7
  nHeight_pos := by decide
  nPrevBits := 1
  params := params
  value := ⟨true, false, false, []⟩

def coinbase : Transaction := ⟨1, .normal, [.null], [⟨52, .pubKeyHash 3⟩], 0⟩

def tx1 : Transaction :=
  ⟨1, .normal, [⟨9, 0⟩], [⟨60, .pubKey 1⟩, ⟨0, .unspendable 0⟩, ⟨39, .scriptHash 2⟩], 0⟩

def tx2 : Transaction := ⟨1, .normal, [⟨2, 0⟩], [⟨59, .nonStandard 4⟩], 0⟩

def block : Block := ⟨[coinbase, tx1, tx2], 0⟩

def coins : CoinsViewDB where
  coins := (∅ : ExtTreeMap OutPoint Coin).insert ⟨9, 0⟩ ⟨⟨100, .pubKeyHash 1⟩, false, 2⟩
  unspent o coin h := by
    rw [Maps.getElem?_insert] at h
    split_ifs at h
    · cases h
      rfl
    · simp at h

lemma coins_eq {o : OutPoint} {coin : Coin} (h : (mk {} (.db coins)).coins o = some coin) :
    coin = ⟨⟨100, .pubKeyHash 1⟩, false, 2⟩ := by
  have h : coins.coins[o]? = some coin := h
  rw [coins, Maps.getElem?_insert] at h
  split_ifs at h
  · exact (Option.some.inj h).symm
  · simp at h

def view : UtxoView where
  tip := { base := .db coins }
  wellFlagged := CoinsView.wellFlagged_stack coins 1
  spendable o coin h := by
    rw [coins_eq h]
    rfl

end Sample
end Trivechain.Validation
