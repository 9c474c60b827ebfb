import Trivechain.Coins.Stack

/-!
# The cache that blocks are applied to

Blocks are connected and disconnected through one cache on top of other views. `Sees` relates the
cache to the map of unspent coins seen through it, and the operations are specified on that map.

`AddCoin` looks for a coin that it must not replace in the cache only. For outpoints asked for
before, the *known* ones, the cache knows whether the views below have a coin.
-/

namespace Trivechain.Coins
open Std (ExtTreeMap)
open CoinsView CoinsViewCache

/-- `CCoinsViewCache` with its base. -/
structure CoinsTip where
  cache : CoinsViewCache := {}
  base : CoinsView

namespace CoinsTip
variable (t : CoinsTip)

def fetchCoin (o : OutPoint) : Option CoinsCacheEntry × CoinsTip :=
  let (e, c, base) := t.cache.fetchCoin t.base (fun _ => t.base.getCoin o) o
  (e, { cache := c, base })

def haveCoin (o : OutPoint) : Bool × CoinsTip :=
  let (e, t) := t.fetchCoin o
  (e.any fun e => !e.coin.isSpent, t)

def accessCoin (o : OutPoint) : Coin × CoinsTip :=
  let (e, t) := t.fetchCoin o
  (e.elim .empty CoinsCacheEntry.coin, t)

def spendCoin (o : OutPoint) : Option Coin × CoinsTip :=
  match t.fetchCoin o with
  | (none, t) => (none, t)
  | (some e, t) => (some e.coin, { t with cache := t.cache.spendEntry o e })

def addCoin (o : OutPoint) (coin : Coin) (possible_overwrite : Bool) : Run CoinsTip :=
  match t.cache.addCoin o coin possible_overwrite with
  | .ok cache => .ok { t with cache }
  | .error _ => .error (.fault .assertion)

def coins : Utxo := t.cache.look t.base.visible

def Known (o : OutPoint) : Prop :=
  t.cache.cacheCoins[o]? = none → t.base.visible o = none

/-- The map is seen through the cache, all marks are right, and the outpoints are known. -/
structure Sees (t : CoinsTip) (u : Utxo) (known : Set OutPoint) : Prop where
  wellFlagged : (CoinsView.cache t.cache t.base).WellFlagged
  visible : t.cache.look t.base.visible = u
  known : ∀ o ∈ known, t.Known o

variable {t} {t' : CoinsTip} {u : Utxo} {known : Set OutPoint} {o : OutPoint}

lemma Sees.mono {known' : Set OutPoint} (h : t.Sees u known) (hs : known' ⊆ known) :
    t.Sees u known' :=
  ⟨h.wellFlagged, h.visible, fun o ho => h.known o (hs ho)⟩

variable {coin : Coin} {overwrite : Bool}

section
variable (h : t.Sees u known)
include h

lemma Sees.unspent (hc : u o = some coin) : coin.isSpent = false := by
  rw [← h.visible] at hc
  exact visible_unspent (v := .cache t.cache t.base) hc

lemma Sees.fetchCoin (o : OutPoint) : ∃ e t', t.fetchCoin o = (e, t') ∧ t'.Sees u (insert o known) ∧
      t'.cache.cacheCoins[o]? = e ∧ e.bind (fun e => e.coin.unspent?) = u o := by
  obtain ⟨e, c', base', hf, ha, hb, hfl, hl, he, hsn⟩ :=
    fetchCoin_spec h.wellFlagged (getCoin_spec h.wellFlagged.2 o)
  refine ⟨e, ⟨c', base'⟩, by rw [CoinsTip.fetchCoin, hf], ⟨ha.wellFlagged, ?_, ?_⟩,
    he, by rw [hsn, h.visible]⟩
  · rw [← h.visible, ← hl, ← hb.visible]
  · -- an outpoint without an entry is seen as it is below
    intro o' ho' hn
    have hs : base'.visible o' = u o' := by
      rw [← h.visible, ← hl, ← hb.visible, look_of_none hn]
    rcases ho' with rfl | ho'
    · rw [hs, ← h.visible, ← hsn, ← he, hn]
      rfl
    · rw [hs, ← h.visible]
      cases hc : t.cache.cacheCoins[o']? with
      | none => rw [look_of_none hc, h.known o' ho' hc]
      | some e' =>
        -- the entry has not gone
        rw [CoinsViewCache.fetchCoin] at hf
        split at hf
        · cases hf
          rw [hc] at hn
          cases hn
        · split at hf
          · cases hf
            rw [hc] at hn
            cases hn
          · cases hf
            rw [put, Maps.getElem?_insert] at hn
            split_ifs at hn
            rw [hc] at hn
            cases hn

lemma Sees.haveCoin (o : OutPoint) :
    ∃ t', t.haveCoin o = ((u o).isSome, t') ∧ t'.Sees u (insert o known) := by
  obtain ⟨e, t', hf, ht', -, hs⟩ := h.fetchCoin o
  refine ⟨t', ?_, ht'⟩
  rw [CoinsTip.haveCoin, hf, ← hs]
  cases e with
  | none => rfl
  | some e => cases he : e.coin.isSpent <;> simp [Coin.unspent?, he]

lemma Sees.accessCoin (hc : u o = some coin) :
    ∃ t', t.accessCoin o = (coin, t') ∧ t'.Sees u (insert o known) := by
  obtain ⟨e, t', hf, ht', -, hs⟩ := h.fetchCoin o
  refine ⟨t', ?_, ht'⟩
  rw [CoinsTip.accessCoin, hf]
  rw [hc] at hs
  cases e with
  | none => cases hs
  | some e =>
    have hu : e.coin.unspent? = some coin := hs
    unfold Coin.unspent? at hu
    split_ifs at hu
    rw [← Option.some.inj hu]
    rfl

lemma Sees.spendCoin (o : OutPoint) :
    ∃ r t', t.spendCoin o = (r, t') ∧ t'.Sees (Function.update u o none) known ∧
      r.bind Coin.unspent? = u o := by
  obtain ⟨e, t', ht, ht', he, hs⟩ := h.fetchCoin o
  rw [CoinsTip.spendCoin, ht]
  cases e with
  | none =>
    refine ⟨none, t', rfl, ?_, hs⟩
    have hn : u o = none := hs.symm
    rw [← hn, Function.update_eq_self]
    exact ht'.mono (Set.subset_insert o known)
  | some e =>
    obtain ⟨hf, hl⟩ := ht'.wellFlagged.1.spendEntry he
    refine ⟨some e.coin, _, rfl, ⟨⟨hf, ht'.wellFlagged.2⟩, ?_, ?_⟩, hs⟩
    · rw [hl, ht'.visible]
    · intro o' ho' hn
      have hold := ht'.known o' (Set.mem_insert_of_mem o ho')
      dsimp only at hn ⊢
      unfold spendEntry at hn
      split_ifs at hn with hr
      · -- only a fresh entry is dropped
        rw [drop, Maps.getElem?_erase] at hn
        split_ifs at hn with hq
        · rw [hq]
          exact ht'.wellFlagged.1.fresh o e he hr
        · exact hold hn
      · rw [put, Maps.getElem?_insert] at hn
        split_ifs at hn
        exact hold hn

end

def addTo (u : Utxo) (o : OutPoint) (coin : Coin) : Utxo :=
  if coin.out.scriptPubKey.isUnspendable then u else Function.update u o (some coin)

lemma Sees.addCoin (h : t.Sees u known) (overwrite : Bool)
    (hu : coin.isSpent = false) (hr : overwrite = false → u o = none) :
    ∃ t', t.addCoin o coin overwrite = .ok t' ∧ t'.Sees (addTo u o coin) known := by
  obtain ⟨c', hc', hf, hl⟩ := h.wellFlagged.1.addCoin (o := o) hu
    (fun hs => by rw [h.visible]; exact hr hs)
  refine ⟨{ t with cache := c' }, by rw [CoinsTip.addCoin, hc'],
    ⟨hf, h.wellFlagged.2⟩, ?_, ?_⟩
  · rw [hl, h.visible]
    rfl
  · intro o' ho' hn
    refine h.known o' ho' ?_
    unfold CoinsViewCache.addCoin at hc'
    dsimp only at hc'
    split_ifs at hc'
    · cases hc'
      exact hn
    · cases hc'
      dsimp only at hn
      rw [put, Maps.getElem?_insert] at hn
      split_ifs at hn
      exact hn

lemma Sees.addCoin_ok (h : t.Sees u known) (ho : overwrite = false → o ∈ known)
    (hsn : ¬ coin.out.scriptPubKey.isUnspendable) (hk : t.addCoin o coin overwrite = .ok t') :
    coin.isSpent = false ∧ (overwrite = false → u o = none) := by
  unfold CoinsTip.addCoin CoinsViewCache.addCoin at hk
  split at hk
  · rename_i c' hc'
    dsimp only at hc'
    split_ifs at hc' with hp hn
    refine ⟨by simpa using hp, fun hs => ?_⟩
    rw [← h.visible]
    cases hc : t.cache.cacheCoins[o]? with
    | none => rw [look_of_none hc, h.known o (ho hs) hc]
    | some e =>
      rw [look_of_some hc, Coin.unspent?_eq_none]
      simpa [hs, hc] using hn
  · cases hk

lemma Sees.of_addCoin (h : t.Sees u known) (ho : overwrite = false → o ∈ known)
    (hk : t.addCoin o coin overwrite = .ok t') :
    t'.Sees (addTo u o coin) known ∧ (coin.out.scriptPubKey.isUnspendable = false →
      overwrite = false → u o = none) := by
  cases hs : coin.out.scriptPubKey.isUnspendable with
  | true =>
    refine ⟨?_, nofun⟩
    rw [addTo, if_pos hs]
    unfold CoinsTip.addCoin CoinsViewCache.addCoin at hk
    rw [if_pos hs] at hk
    split_ifs at hk
    cases hk
    exact h
  | false =>
    obtain ⟨hu, hf⟩ := h.addCoin_ok ho (by simp [hs]) hk
    obtain ⟨t'', ht'', hss⟩ := h.addCoin overwrite hu hf
    obtain rfl := Except.ok.inj (hk.symm.trans ht'')
    exact ⟨hss, fun _ => hf⟩

end CoinsTip
end Trivechain.Coins
