import Trivechain.Lib.Maps
import Trivechain.Primitives.Transaction

/-!
# Coins views

`CCoinsViewCache` keeps coins in memory in front of another view, the coins database or a cache
again. An entry is marked `DIRTY` if it may differ from the view below, and `FRESH` if the view
below has no unspent coin there; a fresh entry that is spent can be dropped.

`look` is the map from outpoints to unspent coins seen through a cache over a given map, and
`Flagged` says that the marks are right. The specifications say what an operation on one cache does
to what is seen, and that the marks stay right.
-/

namespace Trivechain.Coins
open Std (ExtTreeMap)
open List
open Function Maps

structure Coin where
  out : TxOut
  fCoinBase : Bool
  nHeight : Nat
deriving DecidableEq

namespace Coin

/-- `Coin()`, and what `Clear` leaves. -/
def empty : Coin := ⟨⟨-1, .empty⟩, false, 0⟩

def isSpent (coin : Coin) : Bool := coin.out.nValue = -1

def unspent? (coin : Coin) : Option Coin := if coin.isSpent then none else some coin

@[simp] lemma isSpent_empty : empty.isSpent = true := rfl

@[simp] lemma unspent?_empty : empty.unspent? = none := rfl

lemma unspent?_of_isSpent {coin : Coin} (h : coin.isSpent = true) : coin.unspent? = none := if_pos h

lemma unspent?_of_unspent {coin : Coin} (h : coin.isSpent = false) : coin.unspent? = some coin := by
  rw [unspent?, h, if_neg Bool.false_ne_true]

lemma unspent?_eq_none {coin : Coin} : coin.unspent? = none ↔ coin.isSpent = true := by
  unfold unspent?
  split_ifs <;> simp_all

end Coin

structure CoinsCacheEntry where
  coin : Coin := .empty
  dirty : Bool := false
  fresh : Bool := false
deriving DecidableEq

abbrev CoinsMap := ExtTreeMap OutPoint CoinsCacheEntry

/-- A failed assertion, or one of the two `std::logic_error`s. -/
inductive CoinsError where
  | assertion
  /-- "Adding new coin that replaces non-pruned entry" -/
  | nonPruned
  /-- "FRESH flag misapplied to cache entry for base transaction with spendable outputs" -/
  | freshMisapplied
deriving DecidableEq

/-- `CCoinsViewDB`. A spent coin cannot be serialized. -/
structure CoinsViewDB where
  coins : ExtTreeMap OutPoint Coin := ∅
  bestBlock : Uint256 := 0
  unspent : ∀ (o : OutPoint) (coin : Coin), coins[o]? = some coin → coin.isSpent = false := by simp

namespace CoinsViewDB

def writeEntry (d : CoinsViewDB) (p : OutPoint × CoinsCacheEntry) : CoinsViewDB :=
  if p.2.dirty then
    if hspent : p.2.coin.isSpent then
      { d with
        coins := d.coins.erase p.1
        unspent := fun o coin h => by
          rw [getElem?_erase] at h
          split_ifs at h
          exact d.unspent o coin h }
    else
      { d with
        coins := d.coins.insert p.1 p.2.coin
        unspent := fun o coin h => by
          rw [Maps.getElem?_insert] at h
          split_ifs at h
          · rw [← Option.some.inj h, Bool.eq_false_iff]
            exact hspent
          · exact d.unspent o coin h }
  else d

def batchWrite (d : CoinsViewDB) (mapCoins : CoinsMap) (hashBlock : Uint256) : CoinsViewDB :=
  let d := mapCoins.toList.foldl writeEntry d
  if hashBlock = 0 then d else { d with bestBlock := hashBlock }

end CoinsViewDB

structure CoinsViewCache where
  cacheCoins : CoinsMap := ∅
  hashBlock : Uint256 := 0

namespace CoinsViewCache
variable (c : CoinsViewCache)

def put (o : OutPoint) (e : CoinsCacheEntry) : CoinsViewCache :=
  { c with cacheCoins := c.cacheCoins.insert o e }

def drop (o : OutPoint) : CoinsViewCache := { c with cacheCoins := c.cacheCoins.erase o }

/-- The base is asked only if the cache has no entry, and may change when it is asked. -/
def fetchCoin {B : Type} (base : B) (getCoin : Unit → Option Coin × B) (o : OutPoint) :
    Option CoinsCacheEntry × CoinsViewCache × B :=
  match c.cacheCoins[o]? with
  | some e => (some e, c, base)
  | none =>
    match getCoin () with
    | (none, base) => (none, c, base)
    | (some tmp, base) =>
      let e : CoinsCacheEntry := { coin := tmp, fresh := tmp.isSpent }
      (some e, c.put o e, base)

def addCoin (o : OutPoint) (coin : Coin) (possible_overwrite : Bool) :
    Except CoinsError CoinsViewCache :=
  if coin.isSpent then .error .assertion
  else if coin.out.scriptPubKey.isUnspendable then .ok c
  else
    let e := c.cacheCoins[o]?.getD {}
    if !possible_overwrite && !e.coin.isSpent then .error .nonPruned
    else
      let fresh := !possible_overwrite && !e.dirty
      .ok (c.put o { coin, dirty := true, fresh := e.fresh || fresh })

def spendEntry (o : OutPoint) (e : CoinsCacheEntry) : CoinsViewCache :=
  if e.fresh then c.drop o else c.put o { e with coin := .empty, dirty := true }

def uncache (o : OutPoint) : CoinsViewCache :=
  match c.cacheCoins[o]? with
  | some e => if !e.dirty && !e.fresh then c.drop o else c
  | none => c

def writeEntry (p : OutPoint × CoinsCacheEntry) : Except CoinsError CoinsViewCache :=
  if !p.2.dirty then .ok c
  else
    match c.cacheCoins[p.1]? with
    | none =>
      if p.2.fresh && p.2.coin.isSpent then .ok c
      else .ok (c.put p.1 { coin := p.2.coin, dirty := true, fresh := p.2.fresh })
    | some us =>
      if p.2.fresh && !us.coin.isSpent then .error .freshMisapplied
      else if us.fresh && p.2.coin.isSpent then .ok (c.drop p.1)
      else .ok (c.put p.1 { us with coin := p.2.coin, dirty := true })

def batchWrite (mapCoins : CoinsMap) (hashBlock : Uint256) : Except CoinsError CoinsViewCache := do
  let c ← mapCoins.toList.foldlM writeEntry c
  return { c with hashBlock }

end CoinsViewCache

abbrev Utxo := OutPoint → Option Coin

def overlay (mapCoins : CoinsMap) (f : Utxo) : Utxo := fun o =>
  match mapCoins[o]? with
  | some e => if e.dirty then e.coin.unspent? else f o
  | none => f o

def writeOver (g : Utxo) (p : OutPoint × CoinsCacheEntry) : Utxo :=
  if p.2.dirty then Function.update g p.1 p.2.coin.unspent? else g

def FreshOver (mapCoins : CoinsMap) (f : Utxo) : Prop :=
  ∀ (o : OutPoint) (e : CoinsCacheEntry), mapCoins[o]? = some e → e.fresh = true → f o = none

namespace CoinsViewCache

def look (c : CoinsViewCache) (f : Utxo) : Utxo := fun o =>
  match c.cacheCoins[o]? with
  | some e => e.coin.unspent?
  | none => f o

/-- The marks are right for what is below. -/
structure Flagged (c : CoinsViewCache) (f : Utxo) : Prop where
  fresh : FreshOver c.cacheCoins f
  clean : ∀ (o : OutPoint) (e : CoinsCacheEntry), c.cacheCoins[o]? = some e → e.dirty = false →
    e.coin.unspent? = f o

variable {c c' : CoinsViewCache} {f : Utxo} {o : OutPoint} {e : CoinsCacheEntry}

lemma look_of_some (h : c.cacheCoins[o]? = some e) : c.look f o = e.coin.unspent? := by
  rw [look, h]

lemma look_of_none (h : c.cacheCoins[o]? = none) : c.look f o = f o := by
  rw [look, h]

@[simp] lemma look_put : (c.put o e).look f = Function.update (c.look f) o e.coin.unspent? := by
  funext o'
  unfold look put
  rw [Maps.getElem?_insert, update_apply]
  split_ifs <;> rfl

@[simp] lemma look_drop : (c.drop o).look f = Function.update (c.look f) o (f o) := by
  funext o'
  unfold look drop
  rw [getElem?_erase, update_apply]
  split_ifs with h
  · rw [h]
  · rfl

variable (h : c.Flagged f)
include h

lemma Flagged.put (hf : e.fresh = true → f o = none)
    (hc : e.dirty = false → e.coin.unspent? = f o) : (c.put o e).Flagged f := by
  constructor
  · intro o' e' he'
    rw [CoinsViewCache.put, Maps.getElem?_insert] at he'
    split_ifs at he' with he
    · rw [he, ← Option.some.inj he']
      exact hf
    · exact h.fresh o' e' he'
  · intro o' e' he'
    rw [CoinsViewCache.put, Maps.getElem?_insert] at he'
    split_ifs at he' with he
    · rw [he, ← Option.some.inj he']
      exact hc
    · exact h.clean o' e' he'

lemma Flagged.drop : (c.drop o).Flagged f := by
  constructor
  · intro o' e' he'
    rw [CoinsViewCache.drop, getElem?_erase] at he'
    split_ifs at he'
    exact h.fresh o' e' he'
  · intro o' e' he'
    rw [CoinsViewCache.drop, getElem?_erase] at he'
    split_ifs at he'
    exact h.clean o' e' he'

lemma Flagged.fetchCoin {B : Type} (base : B) (getCoin : Unit → Option Coin × B)
    (hg : (getCoin ()).1 = f o) (hu : ∀ coin, f o = some coin → coin.isSpent = false) :
    ∃ e c' base', c.fetchCoin base getCoin o = (e, c', base') ∧ c'.Flagged f ∧
      c'.look f = c.look f ∧ c'.cacheCoins[o]? = e ∧
      e.bind (fun e => e.coin.unspent?) = c.look f o ∧ (base' = base ∨ base' = (getCoin ()).2) := by
  unfold CoinsViewCache.fetchCoin
  cases hc : c.cacheCoins[o]? with
  | some e => exact ⟨some e, c, base, rfl, h, rfl, hc, (look_of_some hc).symm, .inl rfl⟩
  | none =>
    rcases ht : getCoin () with ⟨tmp, base'⟩
    rw [ht] at hg
    obtain rfl : tmp = f o := hg
    cases hf : f o with
    | none => exact ⟨none, c, base', rfl, h, rfl, hc, ((look_of_none hc).trans hf).symm, .inr rfl⟩
    | some tmp =>
      have hs : tmp.unspent? = f o := (Coin.unspent?_of_unspent (hu tmp hf)).trans hf.symm
      refine ⟨_, _, base', rfl, h.put (fun hr => ?_) fun _ => hs, ?_, ?_, ?_, .inr rfl⟩
      · exact absurd hr (by simp [hu tmp hf])
      · rw [look_put, hs, ← look_of_none (f := f) hc, update_eq_self]
      · rw [CoinsViewCache.put, Maps.getElem?_insert, if_pos rfl]
      · exact hs.trans (look_of_none hc).symm

lemma Flagged.uncache (o : OutPoint) :
    (c.uncache o).Flagged f ∧ (c.uncache o).look f = c.look f := by
  unfold CoinsViewCache.uncache
  cases hc : c.cacheCoins[o]? with
  | none => exact ⟨h, rfl⟩
  | some e =>
    dsimp only
    split_ifs with hf
    · have hs : f o = c.look f o := by
        rw [look_of_some hc, h.clean o e hc (by simp_all)]
      exact ⟨h.drop, by rw [look_drop, hs, update_eq_self]⟩
    · exact ⟨h, rfl⟩

lemma Flagged.addCoin {coin : Coin} {possible_overwrite : Bool} (hu : coin.isSpent = false)
    (hr : possible_overwrite = false → c.look f o = none) :
    ∃ c', c.addCoin o coin possible_overwrite = .ok c' ∧ c'.Flagged f ∧
      c'.look f = if coin.out.scriptPubKey.isUnspendable then c.look f
        else Function.update (c.look f) o (some coin) := by
  unfold CoinsViewCache.addCoin
  rw [hu, if_neg Bool.false_ne_true]
  by_cases hs : coin.out.scriptPubKey.isUnspendable = true
  · rw [if_pos hs, if_pos hs]
    exact ⟨c, rfl, h, rfl⟩
  rw [if_neg hs, if_neg hs]
  have hn : (c.put o ⟨coin, true, (c.cacheCoins[o]?.getD {}).fresh ||
      (!possible_overwrite && !(c.cacheCoins[o]?.getD {}).dirty)⟩).look f =
        Function.update (c.look f) o (some coin) := by
    rw [look_put, Coin.unspent?_of_unspent hu]
  refine ⟨_, if_neg ?_, h.put ?_ (fun hd => by cases hd), hn⟩
  -- without the licence to overwrite, nothing is seen, and then the entry is spent
  · cases hc : c.cacheCoins[o]? with
    | none => simp
    | some e =>
      rw [look_of_some hc, Coin.unspent?_eq_none] at hr
      cases possible_overwrite <;> simp_all
  · intro hf
    cases hc : c.cacheCoins[o]? with
    | none =>
      rw [look_of_none hc] at hr
      cases possible_overwrite <;> simp_all
    | some e =>
      rw [look_of_some hc] at hr
      simp only [hc, Option.getD_some, Bool.or_eq_true, Bool.and_eq_true, Bool.not_eq_true'] at hf
      rcases hf with hf | ⟨ht, hl⟩
      · exact h.fresh o e hc hf
      · exact (h.clean o e hc hl).symm.trans (hr ht)

lemma Flagged.spendEntry (hc : c.cacheCoins[o]? = some e) : (c.spendEntry o e).Flagged f ∧
      (c.spendEntry o e).look f = Function.update (c.look f) o none := by
  unfold CoinsViewCache.spendEntry
  split_ifs with hf
  · exact ⟨h.drop, by rw [look_drop, h.fresh o e hc hf]⟩
  · refine ⟨h.put (fun hf' => absurd hf' hf) fun hd => ?_, by rw [look_put]; rfl⟩
    cases hd

lemma Flagged.writeEntry {p : OutPoint × CoinsCacheEntry}
    (hf : p.2.fresh = true → c.look f p.1 = none) :
    ∃ c', c.writeEntry p = .ok c' ∧ c'.Flagged f ∧ c'.look f = writeOver (c.look f) p := by
  obtain ⟨o, e⟩ := p
  unfold CoinsViewCache.writeEntry writeOver
  dsimp only at hf ⊢
  cases hr : e.dirty with
  | false => exact ⟨c, rfl, h, rfl⟩
  | true =>
    simp only [Bool.not_true, Bool.false_eq_true, if_false, if_true]
    cases hc : c.cacheCoins[o]? with
    | none =>
      rw [look_of_none hc] at hf
      dsimp only
      split_ifs with hs
      · simp only [Bool.and_eq_true] at hs
        refine ⟨c, rfl, h, ?_⟩
        rw [Coin.unspent?_of_isSpent hs.2, ← hf hs.1, ← look_of_none (f := f) hc, update_eq_self]
      · exact ⟨_, rfl, h.put hf fun hd => by (cases hd), look_put⟩
    | some us =>
      rw [look_of_some hc, Coin.unspent?_eq_none] at hf
      have hn : ¬ (e.fresh && !us.coin.isSpent) = true := by
        cases he : e.fresh <;> simp_all
      dsimp only
      rw [if_neg hn]
      split_ifs with hg
      · simp only [Bool.and_eq_true] at hg
        refine ⟨_, rfl, h.drop, ?_⟩
        rw [look_drop, h.fresh o us hc hg.1, Coin.unspent?_of_isSpent hg.2]
      · exact ⟨_, rfl, h.put (h.fresh o us hc) fun hd => by (cases hd), look_put⟩

end CoinsViewCache

lemma writeOver_of_ne {g : Utxo} {p : OutPoint × CoinsCacheEntry} {o : OutPoint} (h : o ≠ p.1) :
    writeOver g p o = g o := by
  unfold writeOver
  split_ifs
  · exact update_of_ne h ..
  · rfl

lemma foldl_writeOver {l : List (OutPoint × CoinsCacheEntry)} (hn : (l.map Prod.fst).Nodup)
    (g : Utxo) (o : OutPoint) :
    (∀ e, (o, e) ∈ l → l.foldl writeOver g o = if e.dirty then e.coin.unspent? else g o) ∧
    (o ∉ l.map Prod.fst → l.foldl writeOver g o = g o) := by
  induction l generalizing g with
  | nil => simp
  | cons p l ih =>
    obtain ⟨hp, hl⟩ := nodup_cons.1 (map_cons ▸ hn)
    obtain ⟨hi, hu⟩ := ih hl (writeOver g p)
    rw [foldl_cons]
    refine ⟨fun e he => ?_, fun ho => ?_⟩
    · rcases mem_cons.1 he with rfl | he
      · rw [hu hp, writeOver]
        dsimp only
        split_ifs
        · exact update_self ..
        · rfl
      · have hne : o ≠ p.1 := by
          rintro rfl
          exact hp (mem_map.2 ⟨(p.1, e), he, rfl⟩)
        rw [hi e he, writeOver_of_ne hne]
    · rw [map_cons, mem_cons, not_or] at ho
      rw [hu ho.2, writeOver_of_ne ho.1]

lemma foldl_writeOver_toList (coins : CoinsMap) (g : Utxo) :
    coins.toList.foldl writeOver g = overlay coins g := by
  funext o
  obtain ⟨hi, ho⟩ := foldl_writeOver (nodup_keys_toList coins) g o
  unfold overlay
  cases he : coins[o]? with
  | none =>
    refine ho fun hm => ?_
    obtain ⟨⟨o', e⟩, hn, rfl⟩ := mem_map.1 hm
    rw [ExtTreeMap.mem_toList_iff_getElem?_eq_some.1 hn] at he
    cases he
  | some e => exact hi e (ExtTreeMap.mem_toList_iff_getElem?_eq_some.2 he)

lemma CoinsViewDB.getElem?_writeEntry (d : CoinsViewDB) (p : OutPoint × CoinsCacheEntry) :
    (fun o : OutPoint => (d.writeEntry p).coins[o]?) = writeOver (fun o :
      OutPoint => d.coins[o]?) p := by
  funext o
  unfold CoinsViewDB.writeEntry writeOver
  split_ifs with hd hs
  · rw [Coin.unspent?_of_isSpent hs, update_apply]
    exact getElem?_erase ..
  · rw [Coin.unspent?_of_unspent (Bool.eq_false_iff.2 hs), update_apply]
    exact getElem?_insert ..
  · rfl

lemma CoinsViewDB.getElem?_batchWrite (d : CoinsViewDB) (coins : CoinsMap)
    (hashBlock : Uint256) : (fun o : OutPoint => (d.batchWrite coins hashBlock).coins[o]?) =
      overlay coins fun o => d.coins[o]? := by
  have hl : ∀ (l : List (OutPoint × CoinsCacheEntry)) (d : CoinsViewDB),
      (fun o : OutPoint => (l.foldl writeEntry d).coins[o]?) =
        l.foldl writeOver fun o => d.coins[o]? := by
    intro l
    induction l with
    | nil => exact fun d => rfl
    | cons p l ih =>
      intro d
      rw [foldl_cons, foldl_cons, ih, getElem?_writeEntry]
  rw [← foldl_writeOver_toList, ← hl]
  unfold batchWrite
  dsimp only
  split_ifs <;> rfl

namespace CoinsViewCache
variable {c : CoinsViewCache} {f : Utxo}

lemma Flagged.foldlM_writeEntry (h : c.Flagged f) {l : List (OutPoint × CoinsCacheEntry)}
    (hn : (l.map Prod.fst).Nodup) (hf : ∀ p ∈ l, p.2.fresh = true → c.look f p.1 = none) :
    ∃ c', l.foldlM CoinsViewCache.writeEntry c = .ok c' ∧ c'.Flagged f ∧
      c'.look f = l.foldl writeOver (c.look f) := by
  induction l generalizing c with
  | nil => exact ⟨c, rfl, h, rfl⟩
  | cons p l ih =>
    obtain ⟨hp, hl⟩ := nodup_cons.1 (map_cons ▸ hn)
    obtain ⟨c1, hc1, h1, hl1⟩ := h.writeEntry (hf p (mem_cons_self ..))
    obtain ⟨c', hc', h', hl'⟩ := ih h1 hl fun q hq hqf => by
      have hne : q.1 ≠ p.1 := fun he => hp (he ▸ mem_map_of_mem hq)
      rw [hl1, writeOver_of_ne hne]
      exact hf q (mem_cons_of_mem _ hq) hqf
    refine ⟨c', ?_, h', by rw [hl', hl1, foldl_cons]⟩
    rw [foldlM_cons, hc1]
    exact hc'

lemma Flagged.batchWrite (h : c.Flagged f) {coins : CoinsMap}
    (hf : FreshOver coins (c.look f)) (hashBlock : Uint256) :
    ∃ c', c.batchWrite coins hashBlock = .ok c' ∧ c'.Flagged f ∧
      c'.look f = overlay coins (c.look f) := by
  obtain ⟨c', hc', h', hl'⟩ := h.foldlM_writeEntry (nodup_keys_toList coins)
    fun p hp => hf p.1 p.2 (ExtTreeMap.mem_toList_iff_getElem?_eq_some.1 hp)
  refine ⟨{ c' with hashBlock }, ?_, ⟨h'.fresh, h'.clean⟩, ?_⟩
  · rw [CoinsViewCache.batchWrite, hc']
    rfl
  · rw [← foldl_writeOver_toList, ← hl']
    rfl

lemma Flagged.look_eq_overlay (h : c.Flagged f) : c.look f = overlay c.cacheCoins f := by
  funext o
  unfold look overlay
  cases hc : c.cacheCoins[o]? with
  | none => rfl
  | some e =>
    dsimp only
    split_ifs with hd
    · rfl
    · exact h.clean o e hc (Bool.eq_false_iff.2 hd)

end CoinsViewCache
end Trivechain.Coins
