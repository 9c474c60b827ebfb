import Trivechain.Coins.View

/-!
# Stacks of coins caches

Reads go down a stack of caches over the coins database until a cache has an entry, and leave copies
on the way; `Flush` writes the entries of a cache into the view below. The abstract machine has one
map for each view, changes the map of the cache that is called, and copies it down when the cache is
flushed.

The two agree as long as only the top cache is changed: a cache does not notice when a view below
gets a coin that it believes not to exist.
-/

namespace Trivechain.Coins
open Std (ExtTreeMap)
open CoinsViewCache

inductive CoinsView where
  | db (d : CoinsViewDB)
  | cache (c : CoinsViewCache) (base : CoinsView)

namespace CoinsView

def getCoin : CoinsView → OutPoint → Option Coin × CoinsView
  | .db d, o => (d.coins[o]?, .db d)
  | .cache c base, o =>
    let (e, c, base) := c.fetchCoin base (fun _ => base.getCoin o) o
    (e.bind fun e => e.coin.unspent?, .cache c base)

def batchWrite : CoinsView → CoinsMap → Uint256 → Except CoinsError CoinsView
  | .db d, mapCoins, hashBlock => .ok (.db (d.batchWrite mapCoins hashBlock))
  | .cache c base, mapCoins, hashBlock => do
    let c ← c.batchWrite mapCoins hashBlock
    return .cache c base

def haveCoin (c : CoinsViewCache) (base : CoinsView) (o : OutPoint) : Bool × CoinsView :=
  let (e, c, base) := c.fetchCoin base (fun _ => base.getCoin o) o
  (e.any fun e => !e.coin.isSpent, .cache c base)

def accessCoin (c : CoinsViewCache) (base : CoinsView) (o : OutPoint) : Coin × CoinsView :=
  let (e, c, base) := c.fetchCoin base (fun _ => base.getCoin o) o
  (e.elim .empty CoinsCacheEntry.coin, .cache c base)

def spendCoin (c : CoinsViewCache) (base : CoinsView) (o : OutPoint) : Option Coin × CoinsView :=
  match c.fetchCoin base (fun _ => base.getCoin o) o with
  | (none, c, base) => (none, .cache c base)
  | (some e, c, base) => (some e.coin, .cache (c.spendEntry o e) base)

def flush (c : CoinsViewCache) (base : CoinsView) : Except CoinsError CoinsView := do
  let base ← base.batchWrite c.cacheCoins c.hashBlock
  return .cache { c with cacheCoins := ∅ } base

/-- An operation of the cache at a level, counted from the top. The database has none. -/
def atLevel (f : CoinsViewCache → CoinsView → Except CoinsError CoinsView) :
    Nat → CoinsView → Except CoinsError CoinsView
  | _, .db d => .ok (.db d)
  | 0, .cache c base => f c base
  | level + 1, .cache c base => do
    let base ← atLevel f level base
    return .cache c base

end CoinsView

open CoinsView

inductive CoinsEvent where
  | getCoin (level : Nat) (o : OutPoint)
  | haveCoin (level : Nat) (o : OutPoint)
  | accessCoin (level : Nat) (o : OutPoint)
  | addCoin (level : Nat) (o : OutPoint) (coin : Coin) (possible_overwrite : Bool)
  | spendCoin (level : Nat) (o : OutPoint)
  | uncache (level : Nat) (o : OutPoint)
  | batchWrite (level : Nat) (mapCoins : CoinsMap) (hashBlock : Uint256)
  | flush (level : Nat)
  /-- A cache is created on top. -/
  | push
  /-- The cache on top is destroyed. -/
  | pop

namespace CoinsView

def step (v : CoinsView) : CoinsEvent → Except CoinsError CoinsView
  | .getCoin level o => atLevel (fun c base => .ok ((cache c base).getCoin o).2) level v
  | .haveCoin level o => atLevel (fun c base => .ok (haveCoin c base o).2) level v
  | .accessCoin level o => atLevel (fun c base => .ok (accessCoin c base o).2) level v
  | .addCoin level o coin possible_overwrite => atLevel (fun c base => do
      let c ← c.addCoin o coin possible_overwrite
      return .cache c base) level v
  | .spendCoin level o => atLevel (fun c base => .ok (spendCoin c base o).2) level v
  | .uncache level o => atLevel (fun c base => .ok (.cache (c.uncache o) base)) level v
  | .batchWrite level mapCoins hashBlock =>
    atLevel (fun c base => (cache c base).batchWrite mapCoins hashBlock) level v
  | .flush level => atLevel flush level v
  | .push => .ok (.cache {} v)
  | .pop =>
    match v with
    | .db d => .ok (.db d)
    | .cache _ base => .ok base

def run (v : CoinsView) (events : List CoinsEvent) : Except CoinsError CoinsView :=
  events.foldlM step v

end CoinsView

structure UtxoStack where
  caches : List Utxo
  base : Utxo

namespace UtxoStack

def top (u : UtxoStack) : Utxo := u.caches.headD u.base

def modify (u : UtxoStack) (level : Nat) (g : Utxo → Utxo) : UtxoStack :=
  { u with caches := u.caches.modify level g }

def flush : Nat → UtxoStack → UtxoStack
  | _, ⟨[], base⟩ => ⟨[], base⟩
  | 0, ⟨[f], _⟩ => ⟨[f], f⟩
  | 0, ⟨f :: _ :: fs, base⟩ => ⟨f :: f :: fs, base⟩
  | level + 1, ⟨f :: fs, base⟩ =>
    let u := flush level ⟨fs, base⟩
    ⟨f :: u.caches, u.base⟩

def step (u : UtxoStack) : CoinsEvent → UtxoStack
  | .getCoin _ _ | .haveCoin _ _ | .accessCoin _ _ | .uncache _ _ => u
  | .addCoin level o coin _ => u.modify level fun f =>
    if coin.out.scriptPubKey.isUnspendable then f else Function.update f o (some coin)
  | .spendCoin level o => u.modify level fun f => Function.update f o none
  | .batchWrite level mapCoins _ => u.modify level (overlay mapCoins)
  | .flush level => u.flush level
  | .push => { u with caches := u.top :: u.caches }
  | .pop => { u with caches := u.caches.tail }

def run (u : UtxoStack) (events : List CoinsEvent) : UtxoStack := events.foldl step u

@[simp] lemma top_flush (level : Nat) (u : UtxoStack) : (u.flush level).top = u.top := by
  fun_induction flush level u <;> rfl

/-- What callers see to: added coins are not spent and replace another one only where that is
allowed, and batches have right marks. -/
def Licensed (u : UtxoStack) : CoinsEvent → Prop
  | .addCoin level o coin possible_overwrite => coin.isSpent = false ∧
    (possible_overwrite = false → ∀ f, u.caches[level]? = some f → f o = none)
  | .batchWrite level mapCoins _ => ∀ f, u.caches[level]? = some f → FreshOver mapCoins f
  | _ => True

end UtxoStack

def CoinsEvent.ChangesTop : CoinsEvent → Prop
  | .addCoin level _ _ _ => level = 0
  | .spendCoin level _ => level = 0
  | .batchWrite level _ _ => level = 0
  | _ => True

namespace CoinsView

def maps : CoinsView → UtxoStack
  | .db d => ⟨[], fun o => d.coins[o]?⟩
  | .cache c base =>
    ⟨(fun o => ((cache c base).getCoin o).1) :: base.maps.caches, base.maps.base⟩

def visible : CoinsView → Utxo
  | .db d => fun o => d.coins[o]?
  | .cache c base => c.look base.visible

def WellFlagged : CoinsView → Prop
  | .db _ => True
  | .cache c base => c.Flagged base.visible ∧ base.WellFlagged

def seen : CoinsView → UtxoStack
  | .db d => ⟨[], fun o => d.coins[o]?⟩
  | .cache c base => ⟨c.look base.visible :: base.seen.caches, base.seen.base⟩

variable {v v' base base' : CoinsView} {c c' : CoinsViewCache} {o : OutPoint}

@[simp] lemma top_seen : v.seen.top = v.visible := by cases v <;> rfl

lemma visible_unspent {coin : Coin} (h : v.visible o = some coin) : coin.isSpent = false := by
  induction v with
  | db d => exact d.unspent o coin h
  | cache c base ih =>
    cases hc : c.cacheCoins[o]? with
    | none => exact ih ((look_of_none hc).symm.trans h)
    | some e =>
      have hl : e.coin.unspent? = some coin := (look_of_some hc).symm.trans h
      unfold Coin.unspent? at hl
      split_ifs at hl with hs
      rw [← Option.some.inj hl]
      exact Bool.eq_false_iff.2 hs

/-- The views look the same, at each level, and both have right marks. -/
structure Alike (v v' : CoinsView) : Prop where
  seen : v'.seen = v.seen
  wellFlagged : v'.WellFlagged

lemma Alike.visible (h : Alike v v') : v'.visible = v.visible := by
  rw [← top_seen, h.seen, top_seen]

lemma Alike.cache (h : Alike base base') (hf : c'.Flagged base.visible)
    (hl : c'.look base.visible = c.look base.visible) :
    Alike (.cache c base) (.cache c' base') := by
  refine ⟨?_, h.visible ▸ hf, h.wellFlagged⟩
  rw [CoinsView.seen, CoinsView.seen, h.seen, h.visible, hl]

lemma fetchCoin_spec (h : (cache c base).WellFlagged)
    (hb : (base.getCoin o).1 = base.visible o ∧ Alike base (base.getCoin o).2) :
    ∃ e c' base', c.fetchCoin base (fun _ => base.getCoin o) o = (e, c', base') ∧
      Alike (.cache c base) (.cache c' base') ∧ Alike base base' ∧
      c'.Flagged base.visible ∧ c'.look base.visible = c.look base.visible ∧
      c'.cacheCoins[o]? = e ∧ e.bind (fun e => e.coin.unspent?) = c.look base.visible o := by
  obtain ⟨e, c', base', ht, hf, hl, he, hs, hb'⟩ :=
    h.1.fetchCoin base (fun _ => base.getCoin o) hb.1 fun coin hc => visible_unspent hc
  have ha : Alike base base' := by
    rcases hb' with rfl | rfl
    · exact ⟨rfl, h.2⟩
    · exact hb.2
  exact ⟨e, c', base', ht, ha.cache hf hl, ha, hf, hl, he, hs⟩

lemma getCoin_spec (h : v.WellFlagged) (o : OutPoint) :
    (v.getCoin o).1 = v.visible o ∧ Alike v (v.getCoin o).2 := by
  induction v with
  | db d => exact ⟨rfl, rfl, h⟩
  | cache c base ih =>
    obtain ⟨e, c', base', hf, ha, -, -, -, -, hs⟩ := fetchCoin_spec h (ih h.2)
    rw [getCoin, hf]
    exact ⟨hs, ha⟩

lemma haveCoin_spec (h : (cache c base).WellFlagged) (o : OutPoint) :
    (haveCoin c base o).1 = ((cache c base).visible o).isSome ∧
      Alike (.cache c base) (haveCoin c base o).2 := by
  obtain ⟨e, c', base', hf, ha, -, -, -, -, hs⟩ := fetchCoin_spec h (getCoin_spec h.2 o)
  rw [haveCoin, hf]
  refine ⟨?_, ha⟩
  rw [visible, ← hs]
  cases e with
  | none => rfl
  | some e => cases he : e.coin.isSpent <;> simp [Coin.unspent?, he]

lemma accessCoin_spec (h : (cache c base).WellFlagged) (o : OutPoint) :
    (accessCoin c base o).1.unspent? = (cache c base).visible o ∧
      Alike (.cache c base) (accessCoin c base o).2 := by
  obtain ⟨e, c', base', hf, ha, -, -, -, -, hs⟩ := fetchCoin_spec h (getCoin_spec h.2 o)
  rw [accessCoin, hf]
  refine ⟨?_, ha⟩
  rw [visible, ← hs]
  cases e <;> rfl

lemma maps_eq_seen (h : v.WellFlagged) : v.maps = v.seen := by
  induction v with
  | db d => rfl
  | cache c base ih =>
    rw [maps, seen, ih h.2]
    congr
    funext o
    exact (getCoin_spec h o).1

lemma atLevel_alike {f : CoinsViewCache → CoinsView → Except CoinsError CoinsView}
    (hf : ∀ c base, (cache c base).WellFlagged →
      ∃ v', f c base = .ok v' ∧ Alike (.cache c base) v') (h : v.WellFlagged) (level : Nat) :
    ∃ v', atLevel f level v = .ok v' ∧ Alike v v' := by
  induction v generalizing level with
  | db d => exact ⟨.db d, by cases level <;> rfl, rfl, h⟩
  | cache c base ih =>
    cases level with
    | zero => exact hf c base h
    | succ level =>
      obtain ⟨base', hb', ha⟩ := ih h.2 level
      refine ⟨.cache c base', ?_, ha.cache h.1 rfl⟩
      rw [atLevel, hb']
      rfl

lemma seen_modify {g : Utxo → Utxo} (hb : Alike base base') (hf : c'.Flagged base.visible)
    (hl : c'.look base.visible = g (c.look base.visible)) : (cache c' base').WellFlagged ∧
      (cache c' base').seen = (cache c base).seen.modify 0 g := by
  refine ⟨⟨hb.visible ▸ hf, hb.wellFlagged⟩, ?_⟩
  rw [seen, seen, hb.seen, hb.visible, hl]
  rfl

section
variable (h : (cache c base).WellFlagged)
include h

lemma spendCoin_spec (o : OutPoint) :
    (spendCoin c base o).2.WellFlagged ∧ (spendCoin c base o).2.seen =
      (cache c base).seen.modify 0 fun f => Function.update f o none := by
  obtain ⟨e, c', base', ht, ha, hb, hf, hl, he, hs⟩ := fetchCoin_spec h (getCoin_spec h.2 o)
  rw [spendCoin, ht]
  cases e with
  | none =>
    refine seen_modify hb hf (hl.trans ?_)
    rw [← show c.look base.visible o = none from hs.symm, Function.update_eq_self]
  | some e =>
    obtain ⟨hf', hl'⟩ := hf.spendEntry he
    exact seen_modify hb hf' (by rw [hl', hl])

lemma addCoin_spec {coin : Coin} {overwrite : Bool} (hu : coin.isSpent = false)
    (hr : overwrite = false → c.look base.visible o = none) :
    ∃ c', c.addCoin o coin overwrite = .ok c' ∧ (cache c' base).WellFlagged ∧
      (cache c' base).seen = (cache c base).seen.modify 0 fun f =>
        if coin.out.scriptPubKey.isUnspendable then f else Function.update f o (some coin) := by
  obtain ⟨c', hc', hf, hl⟩ := h.1.addCoin hu hr
  exact ⟨c', hc', seen_modify ⟨rfl, h.2⟩ hf hl⟩

lemma batchWrite_cache {mc : CoinsMap}
    (hr : FreshOver mc (c.look base.visible)) (hashBlock : Uint256) :
    ∃ v', (cache c base).batchWrite mc hashBlock = .ok v' ∧ v'.WellFlagged ∧
      v'.visible = overlay mc (c.look base.visible) ∧
      v'.seen = (cache c base).seen.modify 0 (overlay mc) := by
  obtain ⟨c', hc', hf, hl⟩ := h.1.batchWrite hr hashBlock
  refine ⟨.cache c' base, ?_, ⟨hf, h.2⟩, hl, (seen_modify ⟨rfl, h.2⟩ hf hl).2⟩
  rw [batchWrite, hc']
  rfl

lemma flush_spec : ∃ v', flush c base = .ok v' ∧ v'.WellFlagged ∧
      v'.seen = (cache c base).seen.flush 0 := by
  have hm : ∀ f : Utxo, CoinsViewCache.Flagged { c with cacheCoins := ∅ } f := by
    intro f
    constructor
    · intro o e he
      simp at he
    · intro o e he
      simp at he
  have hl : ∀ f : Utxo, CoinsViewCache.look { c with cacheCoins := ∅ } f = f := by
    intro f
    funext o
    exact look_of_none ExtTreeMap.getElem?_empty
  have ho := h.1.look_eq_overlay
  cases base with
  | db d =>
    refine ⟨.cache { c with cacheCoins := ∅ } (.db (d.batchWrite c.cacheCoins c.hashBlock)), rfl,
      ⟨hm _, trivial⟩, ?_⟩
    have hd := d.getElem?_batchWrite c.cacheCoins c.hashBlock
    simp only [seen, visible, hl, UtxoStack.flush]
    rw [show c.look (fun o => d.coins[o]?) = _ from ho, hd]
    rfl
  | cache c1 base =>
    obtain ⟨v', hv', hf, hv, hs⟩ := batchWrite_cache h.2 h.1.fresh c.hashBlock
    refine ⟨.cache { c with cacheCoins := ∅ } v', ?_, ⟨hm _, hf⟩, ?_⟩
    · rw [flush, hv']
      rfl
    · rw [seen, hs, hl, hv]
      simp only [seen, UtxoStack.flush, UtxoStack.modify, List.modify_zero_cons]
      rw [show c.look (cache c1 base).visible = _ from ho]
      rfl

end

lemma atLevel_flush (h : v.WellFlagged) (level : Nat) :
    ∃ v', atLevel flush level v = .ok v' ∧ v'.WellFlagged ∧ v'.seen = v.seen.flush level := by
  induction v generalizing level with
  | db d => exact ⟨.db d, by cases level <;> rfl, h, by cases level <;> rfl⟩
  | cache c base ih =>
    cases level with
    | zero => exact flush_spec h
    | succ level =>
      obtain ⟨base', hb', hf, hs⟩ := ih h.2 level
      have hv : base'.visible = base.visible := by
        rw [← top_seen, hs, UtxoStack.top_flush, top_seen]
      refine ⟨.cache c base', ?_, ⟨hv ▸ h.1, hf⟩, ?_⟩
      · rw [atLevel, hb']
        rfl
      · simp only [seen, UtxoStack.flush, hs, hv]

lemma step_refines (h : v.WellFlagged) {e : CoinsEvent} (hl : v.seen.Licensed e)
    (ht : e.ChangesTop) : ∃ v', v.step e = .ok v' ∧ v'.WellFlagged ∧ v'.seen = v.seen.step e := by
  have hr : ∀ {f : CoinsViewCache → CoinsView → Except CoinsError CoinsView} (level : Nat),
      (∀ c base, (cache c base).WellFlagged → ∃ v', f c base = .ok v' ∧ Alike (.cache c base) v') →
      ∃ v', atLevel f level v = .ok v' ∧ v'.WellFlagged ∧ v'.seen = v.seen := by
    intro f level hf
    obtain ⟨v', hv', ha⟩ := atLevel_alike hf h level
    exact ⟨v', hv', ha.wellFlagged, ha.seen⟩
  cases e with
  | getCoin level o => exact hr level fun c base hc => ⟨_, rfl, (getCoin_spec hc o).2⟩
  | haveCoin level o => exact hr level fun c base hc => ⟨_, rfl, (haveCoin_spec hc o).2⟩
  | accessCoin level o => exact hr level fun c base hc => ⟨_, rfl, (accessCoin_spec hc o).2⟩
  | uncache level o =>
    refine hr level fun c base hc => ⟨_, rfl, ?_⟩
    obtain ⟨hfl, hk⟩ := hc.1.uncache o
    exact Alike.cache ⟨rfl, hc.2⟩ hfl hk
  | flush level => exact atLevel_flush h level
  | push =>
    refine ⟨.cache {} v, rfl, ⟨⟨fun o e he => by simp at he, fun o e he => by simp at he⟩, h⟩, ?_⟩
    rw [seen, UtxoStack.step, top_seen]
    rfl
  | pop =>
    cases v with
    | db d => exact ⟨.db d, rfl, h, rfl⟩
    | cache c base => exact ⟨base, rfl, h.2, rfl⟩
  | addCoin level o coin overwrite =>
    obtain rfl : level = 0 := ht
    cases v with
    | db d => exact ⟨.db d, rfl, h, rfl⟩
    | cache c base =>
      obtain ⟨c', hc', hfl, hs⟩ := addCoin_spec h hl.1 fun hst => hl.2 hst _ rfl
      refine ⟨.cache c' base, ?_, hfl, hs⟩
      rw [step, atLevel, hc']
      rfl
  | spendCoin level o =>
    obtain rfl : level = 0 := ht
    cases v with
    | db d => exact ⟨.db d, rfl, h, rfl⟩
    | cache c base => exact ⟨_, rfl, spendCoin_spec h o⟩
  | batchWrite level mc hashBlock =>
    obtain rfl : level = 0 := ht
    cases v with
    | db d => exact ⟨.db d, rfl, h, rfl⟩
    | cache c base =>
      obtain ⟨v', hv', hfl, -, hs⟩ := batchWrite_cache h (hl _ rfl) hashBlock
      exact ⟨v', hv', hfl, hs⟩

def stack (d : CoinsViewDB) : Nat → CoinsView
  | 0 => .db d
  | n + 1 => .cache {} (stack d n)

lemma wellFlagged_stack (d : CoinsViewDB) (n : Nat) : (stack d n).WellFlagged := by
  induction n with
  | zero => trivial
  | succ n ih =>
    exact ⟨⟨fun o e he => by simp at he, fun o e he => by simp at he⟩, ih⟩

end CoinsView

def UtxoStack.LicensedRun : UtxoStack → List CoinsEvent → Prop
  | _, [] => True
  | u, e :: events => u.Licensed e ∧ (u.step e).LicensedRun events

/-- For every stack of caches and every sequence of operations that change the top cache only:
nothing is thrown, at each level `GetCoin` returns what the abstract machine has, and all marks are
right, so that an entry is fresh only where the view below has no coin. -/
theorem coins_refine (d : CoinsViewDB) (n : Nat) (events : List CoinsEvent)
    (hlicensed : (stack d n).maps.LicensedRun events) (htop : ∀ e ∈ events, e.ChangesTop) :
    ∃ v, (stack d n).run events = .ok v ∧ v.maps = (stack d n).maps.run events ∧ v.WellFlagged := by
  have hs := wellFlagged_stack d n
  rw [maps_eq_seen hs] at hlicensed ⊢
  generalize stack d n = v at hs hlicensed ⊢
  induction events generalizing v with
  | nil => exact ⟨v, rfl, maps_eq_seen hs, hs⟩
  | cons e events ih =>
    obtain ⟨v1, hv1, hf, hn⟩ := step_refines hs hlicensed.1 (htop e (List.mem_cons_self ..))
    obtain ⟨v', hv', hm, hf'⟩ := ih (fun e he => htop e (List.mem_cons_of_mem _ he)) v1
      hf (hn ▸ hlicensed.2)
    refine ⟨v', ?_, ?_, hf'⟩
    · rw [run, List.foldlM_cons, hv1]
      exact hv'
    · rw [hm, hn]
      rfl

namespace Shared

def o : OutPoint := ⟨1, 0⟩

def coin (nValue : Amount) : Coin := ⟨⟨nValue, .pubKeyHash 1⟩, false, 1⟩

/-- Both caches get the coin, the one on top first. -/
def events : List CoinsEvent :=
  [.addCoin 0 o (coin 5) false, .addCoin 1 o (coin 6) false, .flush 0]

/-- Each of the two had no coin there, and yet the flush fails. -/
theorem fresh_misapplied : (stack {} 2).maps.LicensedRun events ∧
    (stack {} 2).run events = .error .freshMisapplied := by
  refine ⟨⟨⟨rfl, fun _ f hf => ?_⟩, ⟨rfl, fun _ f hf => ?_⟩, trivial, trivial⟩, rfl⟩
  · cases hf
    rfl
  · cases hf
    rfl

def topEvents : List CoinsEvent :=
  [.addCoin 0 o (coin 5) false, .flush 0, .getCoin 1 o, .spendCoin 0 o, .flush 0, .flush 1]

theorem coin_flushed_and_spent : ∃ v, (stack {} 2).run topEvents = .ok v ∧
    v.maps = (stack {} 2).maps.run topEvents ∧ v.WellFlagged := by
  refine coins_refine {} 2 topEvents ⟨⟨rfl, fun _ f hf => ?_⟩, ?_⟩ ?_
  · cases hf
    rfl
  · simp [UtxoStack.LicensedRun, UtxoStack.Licensed]
  · simp [topEvents, CoinsEvent.ChangesTop]

end Shared
end Trivechain.Coins
