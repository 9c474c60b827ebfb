import Trivechain.Mempool.Consistency

/-!
# Adding to the memory pool

A transaction that conflicts with nothing in the pool and has no children there is added with its
ancestors: it is inserted and linked to its parents, its ancestors count it, and the indexes of
provider transactions learn of it.
-/

namespace Trivechain.Mempool
open Evo Run
open Relation (TransGen ReflTransGen)
open Std (ExtTreeMap ExtTreeSet)
open Maps TxMemPoolEntry OutPoint

namespace TxMemPool
variable [ChainHash] {pool pool' : TxMemPool} {h : Uint256} {tx : Transaction} {e : TxMemPoolEntry}

/-- The transaction is not in the pool, spends nothing that is spent there, and nothing there spends
its outputs. -/
structure Fresh (pool : TxMemPool) (tx : Transaction) : Prop where
  new : pool.mapTx[tx.getHash]? = none
  unspent : ∀ o ∈ tx.vin, pool.mapNextTx[o]? = none
  childless : ∀ (h : Uint256) (e : TxMemPoolEntry), pool.mapTx[h]? = some e →
    tx.getHash ∉ e.tx.vin.map hash
  irreflexive : tx.getHash ∉ tx.vin.map hash

lemma Fresh.absent (h : Fresh pool tx) : pool.exists_ tx.getHash = false := by
  rw [exists_, h.new]
  rfl

lemma Fresh.ne (hf : Fresh pool tx) (hx : pool.exists_ h) : h ≠ tx.getHash := by
  rintro rfl
  cases hf.absent.symm.trans hx

def AncestorsOf (pool : TxMemPool) (tx : Transaction) (s : SetEntries) : Prop :=
  ∀ a, a ∈ s ↔ ∃ p, (pool.exists_ p ∧ p ∈ tx.vin.map hash) ∧ ReflTransGen pool.Spends p a

omit [ChainHash] in
lemma AncestorsOf.exists_of_mem {s : SetEntries} (hs : pool.AncestorsOf tx s)
    (hh : h ∈ s) : pool.exists_ h := by
  obtain ⟨p, hp, ht⟩ := (hs h).1 hh
  rcases ht.cases_tail with rfl | ⟨c, -, hc⟩
  · exact hp.1
  · exact hc.right

structure Inserted (pool pool' : TxMemPool) (e : TxMemPoolEntry) : Prop where
  mapTx : ∀ h : Uint256, pool'.mapTx[h]? = if h = e.tx.getHash then some e else pool.mapTx[h]?
  linked : Linked pool' pool'.Spends (fun h c => pool.Spends c h)
  mapNextTx : ∀ (o : OutPoint) (tx : Transaction), pool'.mapNextTx[o]? = some tx ↔
    pool.mapNextTx[o]? = some tx ∨ (o ∈ e.tx.vin ∧ tx = e.tx)
  mapDeltas : pool'.mapDeltas = pool.mapDeltas

omit [ChainHash] in
lemma Linked.foldl_addParents {P C : Uint256 → Uint256 → Prop} (hl : Linked pool P C)
    (entry : Uint256) (he : pool.exists_ entry) (ps : List Uint256) :
    Linked (ps.foldl (fun pool p => if pool.exists_ p then pool.updateParent entry p true else pool)
      pool) (fun h p => (h = entry ∧ p ∈ ps ∧ pool.exists_ p) ∨ P h p) C := by
  induction ps generalizing pool P with
  | nil => simpa using hl
  | cons p ps ih =>
    rw [List.foldl_cons]
    split_ifs with hp
    · refine (ih (hl.updateParent he) he).congr (fun h q _ => ?_) fun _ _ _ => .rfl
      have hq : (pool.updateParent entry p true).exists_ q = pool.exists_ q := rfl
      rw [hq]
      grind
    · refine (ih hl he).congr (fun h q _ => ?_) fun _ _ _ => .rfl
      grind

omit [ChainHash] in
lemma mapNextTx_foldl_insertIfNew {vin : List OutPoint} {m : ExtTreeMap OutPoint Transaction}
    (hf : ∀ o ∈ vin, m[o]? = none) (o : OutPoint) (t : Transaction) :
    (vin.foldl (fun m prevout => m.insertIfNew prevout tx) m)[o]? = some t ↔
      m[o]? = some t ∨ (o ∈ vin ∧ t = tx) := by
  suffices h : ∀ (vin : List OutPoint) (m : ExtTreeMap OutPoint Transaction),
      (∀ o ∈ vin, m[o]? = none ∨ m[o]? = some tx) →
      ((vin.foldl (fun m prevout => m.insertIfNew prevout tx) m)[o]? = some t ↔
        m[o]? = some t ∨ (o ∈ vin ∧ t = tx)) from h vin m fun o ho => .inl (hf o ho)
  intro vin
  induction vin with
  | nil => simp
  | cons a vin ih =>
    intro m hm
    have hm' : ∀ o : OutPoint, (m.insertIfNew a tx)[o]? = if o = a then some tx else m[o]? := by
      intro o
      rw [getElem?_insertIfNew]
      rcases hm a (by simp) with ha | ha <;> by_cases hoa : o = a <;> simp [hoa, ha]
    rw [List.foldl_cons, ih (m.insertIfNew a tx) fun o ho => by
      rw [hm']
      split_ifs
      · exact .inr rfl
      · exact hm o (by simp [ho]), hm', List.mem_cons]
    by_cases hoa : o = a
    · subst hoa
      rcases hm o (by simp) with ha | ha <;> simp [ha, eq_comm]
    · simp [hoa]

structure Alone (e : TxMemPoolEntry) (delta : Amount64) : Prop where
  ancestors : e.ancestorState = e.weight
  descendants : e.descendantState = e.load
  feeDelta : e.feeDelta = delta

section

omit [ChainHash]

lemma alone_new (tx : Transaction) (nFee : Amount) (nTime : Int) (ops : Nat)
    (size : { n : Nat // 0 < n }) (delta : Amount64) :
    Alone ((new tx nFee nTime ops size).updateFeeDelta delta) delta := by
  constructor <;> simp [new, updateFeeDelta, ancestorState, descendantState, weight,
    load, getModifiedFee]

lemma updateFeeDelta_zero (h : e.feeDelta = 0) : e.updateFeeDelta 0 = e := by
  cases e
  simp_all [updateFeeDelta]

lemma applyDelta_ok (he : pool.mapTx[h]? = some e) (hz : e.feeDelta = 0) :
    ∃ m : ExtTreeMap Uint256 TxMemPoolEntry, pool.applyDelta h = .ok { pool with mapTx := m } ∧
      ∀ k : Uint256, m[k]? =
        if k = h then some (e.updateFeeDelta ((pool.mapDeltas[h]?).getD 0)) else pool.mapTx[k]? := by
  have hm : ∀ k : Uint256, pool.mapTx[k]? = if k = h then some (e.updateFeeDelta 0)
      else pool.mapTx[k]? := fun k => by
    rw [updateFeeDelta_zero hz]
    split_ifs with hk
    · rw [hk, he]
    · rfl
  rw [applyDelta]
  cases hd : pool.mapDeltas[h]? with
  | none => exact ⟨pool.mapTx, rfl, hm⟩
  | some delta =>
    dsimp only
    split_ifs with hn
    · refine ⟨pool.mapTx.insert h (e.updateFeeDelta delta), ?_, fun k => getElem?_insert ..⟩
      rw [modify, he]
      rfl
    · rw [not_not] at hn
      subst hn
      exact ⟨pool.mapTx, rfl, hm⟩

end

lemma spends_insert_iff (hfresh : Fresh pool e.tx)
    (hm : ∀ h : Uint256, pool'.mapTx[h]? = if h = e.tx.getHash then some e else pool.mapTx[h]?)
    (c p : Uint256) : pool'.Spends c p ↔ pool.Spends c p ∨
      (c = e.tx.getHash ∧ pool.exists_ p ∧ p ∈ e.tx.vin.map hash) := by
  have hx : ∀ p, p ≠ e.tx.getHash → pool'.exists_ p = pool.exists_ p := fun p hp => by
    rw [exists_, exists_, hm, if_neg hp]
  have hn := hfresh.absent
  by_cases hc : c = e.tx.getHash
  · subst hc
    constructor
    · rintro ⟨e', he', hp, hv⟩
      rw [hm, if_pos rfl] at he'
      cases he'
      have he : p ≠ e.tx.getHash := fun h => hfresh.irreflexive (h ▸ hv)
      exact .inr ⟨rfl, hx p he ▸ hp, hv⟩
    · rintro (hs | ⟨-, hp, hv⟩)
      · cases hn.symm.trans hs.left
      · have he : p ≠ e.tx.getHash := fun h => hfresh.irreflexive (h ▸ hv)
        exact ⟨e, by rw [hm, if_pos rfl], (hx p he).symm ▸ hp, hv⟩
  · simp only [hc, false_and, or_false, Spends]
    refine exists_congr fun e' => ?_
    rw [hm, if_neg hc]
    refine and_congr_right fun he' => and_congr_left fun hv => ?_
    have he : p ≠ e.tx.getHash := fun h => hfresh.childless c e' he' (h ▸ hv)
    rw [hx p he]

lemma Consistent.insertEntry (hcons : Consistent pool) (hfresh : Fresh pool tx)
    (nFee : Amount) (nTime : Int) (ops : Nat) (size : { n : Nat // 0 < n }) :
    ∃ pool' e, pool.insertEntry (.new tx nFee nTime ops size) = .ok pool' ∧ e.tx = tx ∧
      Alone e ((pool.mapDeltas[tx.getHash]?).getD 0) ∧ Inserted pool pool' e := by
  have hen := alone_new tx nFee nTime ops size ((pool.mapDeltas[tx.getHash]?).getD 0)
  have hd := @applyDelta_ok { pool with
      mapTx := pool.mapTx.insertIfNew tx.getHash (.new tx nFee nTime ops size)
      mapLinks := pool.mapLinks.insertIfNew tx.getHash {} } tx.getHash
    (.new tx nFee nTime ops size)
    (by dsimp only; rw [getElem?_insertIfNew]; simp [hfresh.new]) rfl
  obtain ⟨m, hr, hm⟩ := hd
  dsimp only at hm
  generalize he : (new tx nFee nTime ops size).updateFeeDelta
    ((pool.mapDeltas[tx.getHash]?).getD 0) = e at hm hen
  have ht : e.tx = tx := he ▸ rfl
  have hmp : ∀ k : Uint256, m[k]? = if k = e.tx.getHash then some e else pool.mapTx[k]? :=
    fun k => by
      rw [hm, ht, getElem?_insertIfNew]
      grind
  have hn := hfresh.absent
  have hx : ∀ k, (m[k]?).isSome = true ↔ k = tx.getHash ∨ pool.exists_ k := fun k => by
    rw [hmp, ht, exists_]
    split_ifs with hk <;> simp [hk]
  obtain ⟨pool1, hp1⟩ : ∃ pool1 : TxMemPool, pool1 = { pool with
      mapTx := m
      mapLinks := pool.mapLinks.insertIfNew tx.getHash {}
      mapNextTx := tx.vin.foldl (fun m prevout => m.insertIfNew prevout tx) pool.mapNextTx } :=
    ⟨_, rfl⟩
  have hln : Linked pool1 pool.Spends (fun h c => pool.Spends c h) := by
    subst hp1
    refine ⟨fun k hk => ?_, fun k hk => ?_⟩
    · by_cases hh : k = tx.getHash
      · refine ⟨{}, ?_, fun p => ?_, fun c => ?_⟩
        · rw [getElem?_insertIfNew, if_pos ⟨hh, hcons.linked.none _ hn⟩]
        · refine iff_of_false ExtTreeSet.not_mem_empty fun hs => ?_
          cases hn.symm.trans (hh ▸ hs.left)
        · refine iff_of_false ExtTreeSet.not_mem_empty fun hs => ?_
          cases hn.symm.trans (hh ▸ hs.right)
      · obtain ⟨l, hlk, hp, hc⟩ := hcons.linked.some k (((hx k).1 hk).resolve_left hh)
        exact ⟨l, by rw [getElem?_insertIfNew, if_neg fun h => hh h.1, hlk], hp, hc⟩
    · have hk' : ¬ (k = tx.getHash ∨ pool.exists_ k) := fun h => by
        cases hk.symm.trans ((hx k).2 h)
      rw [not_or, Bool.not_eq_true] at hk'
      rw [getElem?_insertIfNew, if_neg fun h => hk'.1 h.1]
      exact hcons.linked.none k hk'.2
  have he1 : ∀ k, pool1.exists_ k ↔ k = tx.getHash ∨ pool.exists_ k := fun k => by
    rw [exists_, hp1]
    exact hx k
  have hl := hln.foldl_addParents tx.getHash ((he1 _).2 (.inl rfl))
    (ExtTreeSet.ofList (tx.vin.map hash)).toList
  have hf : (ExtTreeSet.ofList (tx.vin.map hash)).toList.foldl
      (fun pool p => if pool.exists_ p then pool.updateParent tx.getHash p true else pool) pool1 =
      _ := foldl_links fun pool k => by
    split_ifs
    · rfl
    · rfl
  generalize ((ExtTreeSet.ofList (tx.vin.map hash)).toList.foldl
      (fun pool p => if pool.exists_ p then pool.updateParent tx.getHash p true else pool)
      pool1).mapLinks = links at hf
  rw [hf] at hl
  have hm' : ∀ k : Uint256, ({ pool1 with mapLinks := links } : TxMemPool).mapTx[k]? =
      if k = e.tx.getHash then some e else pool.mapTx[k]? := fun k => by
    rw [hp1]
    exact hmp k
  refine ⟨{ pool1 with mapLinks := links }, e, ?_, ht, hen, hm',
    hl.congr (fun k p _ => ?_) fun _ _ _ => .rfl, fun o t => ?_, by rw [hp1]⟩
  · rw [TxMemPool.insertEntry]
    dsimp only
    rw [show (new tx nFee nTime ops size).tx = tx from rfl, hr, ok_bind, ← hp1, pure_eq, hf]
  · rw [ExtTreeSet.mem_toList, mem_ofList, he1, spends_insert_iff (ht.symm ▸ hfresh) hm', ht]
    have hsl : p = tx.getHash → p ∉ tx.vin.map hash := fun h => h ▸ hfresh.irreflexive
    tauto
  · rw [hp1, ht]
    exact mapNextTx_foldl_insertIfNew hfresh.unspent o t

namespace Inserted
variable (hi : Inserted pool pool' e)
include hi

lemma transGen_iff (hfresh : Fresh pool e.tx) (x y : Uint256) :
    TransGen pool'.Spends x y ↔ TransGen pool.Spends x y ∨ (x = e.tx.getHash ∧
      ∃ p, (pool.exists_ p ∧ p ∈ e.tx.vin.map hash) ∧ ReflTransGen pool.Spends p y) := by
  have hn := hfresh.absent
  refine Dag.transGen_insert (fun x hx => ?_) (fun h => ?_) (spends_insert_iff hfresh hi.mapTx)
  · cases hn.symm.trans hx.right
  · cases hn.symm.trans h.1

lemma counts (hcons : Consistent pool) (hfresh : Fresh pool e.tx)
    {delta : Amount64} (hl : Alone e delta) :
    Counts pool' (fun h => ∑ a ∈ pool.ancestors h, pool.weightAt a)
      (fun h => ∑ d ∈ pool.descendants h, pool.loadAt d) := by
  have hn := hfresh.absent
  have hd : pool.descendants e.tx.getHash = ∅ := by
    refine Finset.eq_empty_of_forall_notMem fun a ha => ?_
    cases hn.symm.trans (exists_of_path (mem_descendants.1 ha)).2
  refine ⟨fun h e' he' => ?_, fun h e' he' => ?_⟩
  · rw [hi.mapTx] at he'
    split_ifs at he' with hh
    · cases he'
      rw [hh, ancestors_eq_empty hn, Finset.sum_empty, add_zero, hl.ancestors]
    · exact hcons.counts.ancestors h e' he'
  · rw [hi.mapTx] at he'
    split_ifs at he' with hh
    · cases he'
      rw [hh, hd, Finset.sum_empty, add_zero, hl.descendants]
    · exact hcons.counts.descendants h e' he'

lemma weightAt_eq (hn : h ≠ e.tx.getHash) :
    pool'.weightAt h = pool.weightAt h := by rw [weightAt, hi.mapTx, if_neg hn]; rfl

lemma loadAt_eq (hn : h ≠ e.tx.getHash) :
    pool'.loadAt h = pool.loadAt h := by rw [loadAt, hi.mapTx, if_neg hn]; rfl

variable (hfresh : Fresh pool e.tx)
include hfresh

lemma exists_of_exists (hx : pool.exists_ h) : pool'.exists_ h := by
  rwa [exists_, hi.mapTx, if_neg (hfresh.ne hx)]

variable {s : SetEntries} (hs : pool.AncestorsOf e.tx s)
include hs

/-- The paths from the new entry lead to its ancestors. -/
lemma path_iff (y : Uint256) : TransGen pool'.Spends e.tx.getHash y ↔ y ∈ s := by
  rw [hi.transGen_iff hfresh, hs]
  refine or_iff_right_of_imp (fun ht => ?_) |>.trans (and_iff_right rfl)
  cases hfresh.absent.symm.trans (exists_of_path ht).1

lemma sum_ancestors (k : Uint256) : ∑ a ∈ pool'.ancestors k, pool'.weightAt a =
    if k = e.tx.getHash then ∑ a ∈ s.toList.toFinset, pool'.weightAt a
    else ∑ a ∈ pool.ancestors k, pool.weightAt a := by
  split_ifs with hk
  · have hst : pool'.ancestors k = s.toList.toFinset := by
      ext a
      rw [mem_ancestors, hk, hi.path_iff hfresh hs, List.mem_toFinset, ExtTreeSet.mem_toList]
    rw [hst]
  · have hst : pool'.ancestors k = pool.ancestors k := by
      ext a
      rw [mem_ancestors, mem_ancestors, hi.transGen_iff hfresh]
      simp [hk]
    rw [hst]
    refine Finset.sum_congr rfl fun a ha => ?_
    exact hi.weightAt_eq (hfresh.ne (exists_of_path (mem_ancestors.1 ha)).2)

/-- The new entry is a descendant of its ancestors and adds its load. -/
lemma sum_descendants (k : Uint256) : ∑ d ∈ pool'.descendants k, pool'.loadAt d =
    if k ∈ s then ∑ d ∈ pool.descendants k, pool.loadAt d + e.load
    else ∑ d ∈ pool.descendants k, pool.loadAt d := by
  have hn : e.tx.getHash ∉ pool.descendants k := fun hd => by
    cases hfresh.absent.symm.trans (exists_of_path (mem_descendants.1 hd)).1
  have hst : pool'.descendants k =
      if k ∈ s then insert e.tx.getHash (pool.descendants k) else pool.descendants k := by
    ext d
    rw [mem_descendants]
    by_cases hd : d = e.tx.getHash
    · subst hd
      rw [hi.path_iff hfresh hs]
      split_ifs with hk <;> simp [hk, hn]
    · rw [hi.transGen_iff hfresh]
      split_ifs with hk <;> simp [hd, mem_descendants]
  have hl : ∀ d ∈ pool.descendants k, pool'.loadAt d = pool.loadAt d := fun d hd =>
    hi.loadAt_eq (hfresh.ne (exists_of_path (mem_descendants.1 hd)).1)
  have he : pool'.mapTx[e.tx.getHash]? = some e := by rw [hi.mapTx, if_pos rfl]
  rw [hst]
  split_ifs with hk
  · rw [Finset.sum_insert hn, Finset.sum_congr rfl hl, TxMemPool.loadAt_eq he, add_comm]
  · exact Finset.sum_congr rfl hl

end Inserted

omit [ChainHash] in
lemma sum_weights {l : List Uint256} {g : Uint256 → TxMemPoolEntry}
    (hg : ∀ a ∈ l, pool.mapTx[a]? = some (g a)) :
    (((l.length : Int), ((l.map g).map fun e => (e.nTxSize : Int)).sum,
      ((l.map g).map (·.getModifiedFee)).sum, ((l.map g).map fun e => (e.sigOpCount : Int)).sum) :
      Int × Int × Amount64 × Int) = (l.map pool.weightAt).sum := by
  induction l with
  | nil => rfl
  | cons a l ih =>
    have ha := weightAt_eq (hg a (by simp))
    have hr := ih fun b hb => hg b (by simp [hb])
    simp only [List.map_cons, List.sum_cons, List.length_cons, ← hr, ha, weight,
      Prod.mk_add_mk, Nat.cast_add, Nat.cast_one, add_comm (1 : Int)]

omit [ChainHash] in
lemma Counts.updateEntryForAncestors {anc : Uint256 → Int × Int × Amount64 × Int}
    {desc : Uint256 → Int × Int × Amount64} (hc : Counts pool anc desc) (hh : pool.exists_ h)
    {s : SetEntries} (hs : ∀ a, a ∈ s → pool.exists_ a)
    (hok : TxMemPoolEntry.WeightOk (anc h + ∑ a ∈ s.toList.toFinset, pool.weightAt a)) :
    ∃ pool', pool.updateEntryForAncestors h s = .ok pool' ∧ Recounted pool pool' ∧
      pool'.mapLinks = pool.mapLinks ∧
      Counts pool' (fun k => if k = h then anc h + ∑ a ∈ s.toList.toFinset, pool.weightAt a
        else anc k) desc := by
  obtain ⟨e, he⟩ := exists_iff.1 hh
  have hg : ∀ a ∈ s.toList, pool.mapTx[a]? = some ((pool.mapTx[a]?).getD e) := fun a ha => by
    obtain ⟨e', he'⟩ := exists_iff.1 (hs a (ExtTreeSet.mem_toList.1 ha))
    rw [he']
    rfl
  have hm : s.toList.mapM (fun a => demand .undefined pool.mapTx[a]?) =
      .ok (s.toList.map fun a => (pool.mapTx[a]?).getD e) := by
    refine mapM_eq_ok fun a ha => ?_
    rw [hg a ha]
    rfl
  have hsm := sum_weights hg
  rw [ExtTreeSet.length_toList, ← List.sum_toFinset _ nodup_toList] at hsm
  rw [← hsm] at hok ⊢
  have ho : (ExtTreeSet.empty.insert h : SetEntries).toList = [h] :=
    toList_set_eq (List.pairwise_singleton ..) fun k => by
      rw [mem_singleton, List.mem_singleton]
  obtain ⟨pool', hr, hrc, hl, hc'⟩ := hc.addAncestors (ExtTreeSet.empty.insert h) _ _ _ _
    (fun k hk => mem_singleton.1 hk ▸ hh) fun k hk => mem_singleton.1 hk ▸ hok
  refine ⟨pool', ?_, hrc, hl, hc'.congr (fun k => ?_) fun _ => rfl⟩
  · rw [TxMemPool.updateEntryForAncestors, hm, ok_bind]
    rw [ho, List.foldlM_cons] at hr
    obtain ⟨pool1, hr1, hq⟩ := bind_ok.1 hr
    cases hq
    exact hr1
  · by_cases hk : k = h
    · rw [if_pos (mem_singleton.2 hk), if_pos hk, hk]
    · rw [if_neg (mt mem_singleton.1 hk), if_neg hk]

/-- The entry is in the pool with its statistics and links; provider transactions are not indexed
yet. -/
structure Added (pool pool' : TxMemPool) (e : TxMemPoolEntry) : Prop where
  bare : ∀ h : Uint256, (pool'.mapTx[h]?).map bare =
    if h = e.tx.getHash then some e.bare else (pool.mapTx[h]?).map bare
  mapNextTx : ∀ (o : OutPoint) (tx : Transaction), pool'.mapNextTx[o]? = some tx ↔
    pool.mapNextTx[o]? = some tx ∨ (o ∈ e.tx.vin ∧ tx = e.tx)
  mapDeltas : pool'.mapDeltas = pool.mapDeltas
  acyclic : ∀ h, ¬ TransGen pool'.Spends h h
  linked : Linked pool' pool'.Spends (fun h c => pool'.Spends c h)
  counts : Counts pool' (fun h => ∑ a ∈ pool'.ancestors h, pool'.weightAt a)
    (fun h => ∑ d ∈ pool'.descendants h, pool'.loadAt d)

lemma Inserted.added (hi : Inserted pool pool' e) (hcons : Consistent pool)
    (hfresh : Fresh pool e.tx) {delta : Amount64} (hal : Alone e delta) {s : SetEntries}
    (hs : pool.AncestorsOf e.tx s) :
    ∃ pool2 pool3, pool'.updateAncestorsOf true e.tx.getHash s = .ok pool2 ∧
      pool2.updateEntryForAncestors e.tx.getHash s = .ok pool3 ∧ Added pool pool3 e := by
  have hn := hfresh.absent
  have he : pool'.mapTx[e.tx.getHash]? = some e := by rw [hi.mapTx, if_pos rfl]
  -- the links to the new entry, and its load on its ancestors
  obtain ⟨pool2, hn2, hr2, hl2, hc2⟩ := updateAncestorsOf_spec hi.linked he
    (fun p hp => hp.right) (hi.counts hcons hfresh hal)
    (fun a ha => hi.exists_of_exists hfresh (hs.exists_of_mem ha)) true (d := e.load) rfl
    fun a _ => by
      have hm := loadOk_sum (s := pool.descendants a) (f := pool.loadAt) fun d _ => loadOk_loadAt
      have hl := loadOk_load (e := e)
      simp only [TxMemPoolEntry.LoadOk, Prod.fst_add, Prod.snd_add] at *
      omega
  have ha0 := ancestors_eq_empty hn
  obtain ⟨pool3, hn3, hr3, hl3, hc3⟩ := hc2.updateEntryForAncestors
    (h := e.tx.getHash) (s := s) (hr2.exists_eq ▸ exists_iff.2 ⟨e, he⟩)
    (fun a ha => hr2.exists_eq ▸ hi.exists_of_exists hfresh (hs.exists_of_mem ha)) (by
      rw [ha0, Finset.sum_empty, zero_add]
      exact weightOk_sum fun _ _ => weightOk_weightAt)
  have hr := hr2.trans hr3
  refine ⟨pool2, pool3, hn2, hn3, fun h => ?_, fun o tx => ?_, ?_, fun h ht => ?_, ?_,
    hc3.congr (fun k => ?_) fun k => ?_⟩
  · rw [hr.bare, hi.mapTx]
    split_ifs <;> rfl
  · rw [hr.eq]
    exact hi.mapNextTx o tx
  · rw [hr.eq]
    exact hi.mapDeltas
  · rw [hr.spends, hi.transGen_iff hfresh] at ht
    rcases ht with ht | ⟨rfl, hx⟩
    · exact hcons.acyclic h ht
    · cases hn.symm.trans (hs.exists_of_mem ((hs _).2 hx))
  · refine (hl2.congr_pool hr3.exists_eq hl3).congr (fun h p _ => by rw [hr.spends]) fun h c _ => ?_
    rw [hr.spends, spends_insert_iff hfresh hi.mapTx, spends_insert_iff hfresh hi.mapTx]
    have ho : ¬ pool.Spends e.tx.getHash h := fun hsp => by cases hn.symm.trans hsp.left
    grind
  · rw [ancestors_congr hr.spends, Finset.sum_congr rfl fun a _ => hr.weightAt_eq,
      hi.sum_ancestors hfresh hs, ha0, Finset.sum_empty, zero_add,
      Finset.sum_congr rfl fun a _ => hr2.weightAt_eq]
  · rw [descendants_congr hr.spends, Finset.sum_congr rfl fun d _ => hr.loadAt_eq,
      hi.sum_descendants hfresh hs]

structure SameTxs (pool pool' : TxMemPool) : Prop where
  txs : ∀ h : Uint256,
    (pool'.mapTx[h]?).map (·.tx) = (pool.mapTx[h]?).map (·.tx)
  mapLinks : pool'.mapLinks = pool.mapLinks
  mapNextTx : pool'.mapNextTx = pool.mapNextTx

namespace SameTxs

omit [ChainHash]

lemma symm (hs : SameTxs pool pool') : SameTxs pool' pool :=
  ⟨fun h => (hs.txs h).symm, hs.mapLinks.symm, hs.mapNextTx.symm⟩

lemma trans {pool'' : TxMemPool} (hs : SameTxs pool pool') (hs' : SameTxs pool' pool'') :
    SameTxs pool pool'' :=
  ⟨fun h => (hs'.txs h).trans (hs.txs h), hs'.mapLinks.trans hs.mapLinks,
    hs'.mapNextTx.trans hs.mapNextTx⟩

lemma of_recounted (hr : Recounted pool pool') (hl : pool'.mapLinks = pool.mapLinks) :
    SameTxs pool pool' := by
  refine ⟨fun h => ?_, hl, by rw [hr.eq]⟩
  have hm := congrArg (Option.map (·.tx)) (hr.bare h)
  rw [Option.map_map, Option.map_map] at hm
  exact hm

variable (hs : SameTxs pool pool')
include hs

lemma old {e' : TxMemPoolEntry} (he : pool'.mapTx[h]? = some e') :
    ∃ e, pool.mapTx[h]? = some e ∧ e'.tx = e.tx :=
  exists_of_map_eq (hs.txs h) he

lemma exists_eq : pool'.exists_ h = pool.exists_ h := exists_eq_of_map_eq (hs.txs h)

lemma spends : pool'.Spends = pool.Spends := spends_of_map_eq hs.txs id

lemma linked (hl : Linked pool pool.Spends (fun h c => pool.Spends c h)) :
    Linked pool' pool'.Spends (fun h c => pool'.Spends c h) := by
  rw [hs.spends]
  exact hl.congr_pool hs.exists_eq hs.mapLinks

end SameTxs

def unmarked (e : TxMemPoolEntry) : TxMemPoolEntry :=
  { e with validForProTxKey := 0, isKeyChangeProTx := false }

structure Alike (pool pool' : TxMemPool) : Prop where
  mapTx : ∀ h : Uint256, (pool'.mapTx[h]?).map unmarked = (pool.mapTx[h]?).map unmarked
  mapLinks : pool'.mapLinks = pool.mapLinks
  mapNextTx : pool'.mapNextTx = pool.mapNextTx
  mapDeltas : pool'.mapDeltas = pool.mapDeltas

omit [ChainHash] in
lemma eq_of_unmarked {α : Type} {e e' : TxMemPoolEntry} (h : unmarked e' = unmarked e)
    (f : TxMemPoolEntry → α) (hf : ∀ e, f (unmarked e) = f e) : f e' = f e := by
  rw [← hf e', h, hf]

namespace Alike

omit [ChainHash]

variable (ha : Alike pool pool')
include ha

lemma old {e' : TxMemPoolEntry} (he : pool'.mapTx[h]? = some e') :
    ∃ e, pool.mapTx[h]? = some e ∧ unmarked e' = unmarked e :=
  exists_of_map_eq (ha.mapTx h) he

lemma symm : Alike pool' pool :=
  ⟨fun h => (ha.mapTx h).symm, ha.mapLinks.symm, ha.mapNextTx.symm, ha.mapDeltas.symm⟩

lemma same : SameTxs pool pool' := by
  refine ⟨fun h => ?_, ha.mapLinks, ha.mapNextTx⟩
  have hm := congrArg (Option.map (·.tx)) (ha.mapTx h)
  rw [Option.map_map, Option.map_map] at hm
  exact hm

lemma weightAt_eq : pool'.weightAt h = pool.weightAt h :=
  weightAt_eq_of_map_eq (ha.mapTx h) fun _ => rfl

lemma loadAt_eq : pool'.loadAt h = pool.loadAt h := loadAt_eq_of_map_eq (ha.mapTx h) fun _ => rfl

lemma counts (hc : Counts pool (fun h => ∑ a ∈ pool.ancestors h, pool.weightAt a)
      (fun h => ∑ d ∈ pool.descendants h, pool.loadAt d)) :
    Counts pool' (fun h => ∑ a ∈ pool'.ancestors h, pool'.weightAt a)
      (fun h => ∑ d ∈ pool'.descendants h, pool'.loadAt d) := by
  have hn : ∀ h, ∑ a ∈ pool'.ancestors h, pool'.weightAt a =
      ∑ a ∈ pool.ancestors h, pool.weightAt a :=
    fun h => Finset.sum_congr (ancestors_congr ha.same.spends) fun a _ => ha.weightAt_eq
  have hd : ∀ h, ∑ d ∈ pool'.descendants h, pool'.loadAt d =
      ∑ d ∈ pool.descendants h, pool.loadAt d :=
    fun h => Finset.sum_congr (descendants_congr ha.same.spends) fun d _ => ha.loadAt_eq
  refine ⟨fun h e' he' => ?_, fun h e' he' => ?_⟩
  · obtain ⟨e, he, hm⟩ := ha.old he'
    rw [hn, eq_of_unmarked hm ancestorState fun _ => rfl, eq_of_unmarked hm weight fun _ => rfl]
    exact hc.ancestors h e he
  · obtain ⟨e, he, hm⟩ := ha.old he'
    rw [hd, eq_of_unmarked hm descendantState fun _ => rfl, eq_of_unmarked hm load fun _ => rfl]
    exact hc.descendants h e he

end Alike

lemma Added.consistent {pool1 : TxMemPool} (had : Added pool pool1 e)
    (hcons : Consistent pool) (hfresh : Fresh pool e.tx) {delta : Amount64}
    (hl : Alone e delta) (hd : (pool.mapDeltas[e.tx.getHash]?).getD 0 = delta)
    (hdc : decodes e.tx.payload) (ha : Alike pool1 pool') : Consistent pool' := by
  -- an entry is the new one, or an old one up to statistics
  have he : ∀ (h : Uint256) (e' : TxMemPoolEntry), pool'.mapTx[h]? = some e' →
      (h = e.tx.getHash ∧ e'.tx = e.tx ∧ e'.feeDelta = e.feeDelta) ∨
      ∃ e0, pool.mapTx[h]? = some e0 ∧ e'.tx = e0.tx ∧ e'.feeDelta = e0.feeDelta := by
    intro h e' he'
    obtain ⟨e1, he1, hm⟩ := ha.old he'
    rw [eq_of_unmarked hm tx fun _ => rfl, eq_of_unmarked hm feeDelta fun _ => rfl]
    have hb := had.bare h
    rw [he1, Option.map_some] at hb
    split_ifs at hb with hh
    · have hb := Option.some.inj hb
      exact .inl ⟨hh, tx_eq_of_bare hb, eq_of_bare hb feeDelta fun _ => rfl⟩
    · obtain ⟨e0, he0, hb⟩ := Option.map_eq_some_iff.1 hb.symm
      exact .inr ⟨e0, he0, (tx_eq_of_bare hb).symm, (eq_of_bare hb feeDelta fun _ => rfl).symm⟩
  have hc : ∀ (h : Uint256) (e0 : TxMemPoolEntry), (h = e.tx.getHash ∧ e0 = e) ∨
      pool.mapTx[h]? = some e0 → ∃ e', pool'.mapTx[h]? = some e' ∧ e'.tx = e0.tx := by
    intro h e0 hr
    have hb : (pool1.mapTx[h]?).map TxMemPoolEntry.bare = some e0.bare := by
      rw [had.bare]
      rcases hr with ⟨rfl, rfl⟩ | he0
      · rw [if_pos rfl]
      · rw [if_neg, he0]
        · rfl
        · rintro rfl
          cases hfresh.new.symm.trans he0
    obtain ⟨e1, he1, hb⟩ := Option.map_eq_some_iff.1 hb
    obtain ⟨e', he', hm⟩ := ha.symm.old he1
    exact ⟨e', he', (eq_of_unmarked hm tx fun _ => rfl).symm.trans (tx_eq_of_bare hb)⟩
  refine ⟨fun h e' he' => ?_, fun h e' he' => ?_, fun o tx => ?_, fun h => ha.same.spends ▸ had.acyclic h,
    fun h e' he' => ?_, ha.same.linked had.linked, ha.counts had.counts⟩
  · rcases he h e' he' with ⟨rfl, ht, -⟩ | ⟨e0, he0, ht, -⟩
    · rw [ht]
    · rw [ht, hcons.keyed h e0 he0]
  · rcases he h e' he' with ⟨rfl, ht, -⟩ | ⟨e0, he0, ht, -⟩
    · rwa [ht]
    · rw [ht]
      exact hcons.decodes h e0 he0
  · rw [ha.mapNextTx, had.mapNextTx, hcons.spent]
    constructor
    · rintro (⟨h, e0, he0, rfl, ho⟩ | ⟨ho, rfl⟩)
      · obtain ⟨e', he', ht⟩ := hc h e0 (.inr he0)
        exact ⟨h, e', he', ht, ho⟩
      · obtain ⟨e', he', ht⟩ := hc _ e (.inl ⟨rfl, rfl⟩)
        exact ⟨_, e', he', ht, ho⟩
    · rintro ⟨h, e', he', rfl, ho⟩
      rcases he h e' he' with ⟨rfl, ht, -⟩ | ⟨e0, he0, ht, -⟩
      · exact .inr ⟨ht ▸ ho, ht⟩
      · exact .inl ⟨h, e0, he0, ht.symm, ho⟩
  · rw [ha.mapDeltas, had.mapDeltas]
    rcases he h e' he' with ⟨rfl, -, hf⟩ | ⟨e0, he0, -, hf⟩
    · rw [hf, hd, hl.feeDelta]
    · rw [hf, hcons.delta h e0 he0]

section Indexing
variable [PropertyHash] {mnList : DeterministicMNList}

/-- The payload decodes, and a registrar update or a revocation is for a masternode in the list. -/
def indexable (mnList : DeterministicMNList) : TxPayload → Bool
  | .providerUpdateRegistrar (some proTx) => (mnList.getMN proTx.proTxHash).isSome
  | .providerUpdateRevoke (some proTx) => (mnList.getMN proTx.proTxHash).isSome
  | payload => decodes payload

section

omit [ChainHash] [PropertyHash]

lemma decodes_of_indexable {payload : TxPayload} (hi : indexable mnList payload) :
    decodes payload := by
  rcases payload with _ | (_ | _) | (_ | _) | (_ | _) | (_ | _) | _ | _ | _ <;>
    first | rfl | exact hi

lemma modify_alike (hh : pool.exists_ h) (f : TxMemPoolEntry → TxMemPoolEntry)
    (hf : ∀ e, unmarked (f e) = unmarked e) :
    ∃ pool', pool.modify h (fun e => .ok (f e)) = .ok pool' ∧ Alike pool pool' := by
  obtain ⟨e, he⟩ := exists_iff.1 hh
  have hr : pool.modify h (fun e => .ok (f e)) =
      .ok { pool with mapTx := pool.mapTx.insert h (f e) } := by
    rw [modify, he]
    rfl
  refine ⟨_, hr, fun k => ?_, rfl, rfl, rfl⟩
  dsimp only
  rw [getElem?_insert]
  split_ifs with hk
  · rw [hk, he, Option.map_some, Option.map_some, hf]
  · rfl

end

omit [ChainHash] in
lemma markKeyChange_ok (hh : pool.exists_ h) {proTxHash : Uint256} {key : Option Bls.PubKey}
    (hm : (mnList.getMN proTxHash).isSome) :
    ∃ pool', pool.markKeyChange mnList h proTxHash key = .ok pool' ∧ Alike pool pool' := by
  obtain ⟨dmn, hd⟩ := Option.isSome_iff_exists.1 hm
  rw [markKeyChange, hd, demand_some, ok_bind]
  exact modify_alike hh _ fun _ => rfl

lemma addProTx_ok (hh : pool.exists_ tx.getHash)
    (hi : indexable mnList tx.payload) :
    ∃ pool', pool.addProTx mnList tx = .ok pool' ∧ Alike pool pool' := by
  rw [addProTx]
  generalize tx.payload = payload at hi ⊢
  cases payload with
  | providerRegister ptx =>
    obtain ⟨proTx, rfl⟩ := Option.isSome_iff_exists.1 hi
    exact ⟨_, rfl, fun _ => rfl, rfl, rfl, rfl⟩
  | providerUpdateService ptx =>
    obtain ⟨proTx, rfl⟩ := Option.isSome_iff_exists.1 hi
    exact ⟨_, rfl, fun _ => rfl, rfl, rfl, rfl⟩
  | providerUpdateRegistrar ptx =>
    cases ptx with
    | none => cases hi
    | some proTx =>
      obtain ⟨pool', hr, ha⟩ := @markKeyChange_ok { pool with
        mapProTxRefs := pool.mapProTxRefs ++ [(proTx.proTxHash, tx.getHash)]
        mapProTxBlsPubKeyHashes := pool.mapProTxBlsPubKeyHashes.insertIfNew
          (keyHash proTx.pubKeyOperator) tx.getHash } _ _ mnList hh _ proTx.pubKeyOperator hi
      exact ⟨pool', hr, ha.mapTx, ha.mapLinks, ha.mapNextTx, ha.mapDeltas⟩
  | providerUpdateRevoke ptx =>
    cases ptx with
    | none => cases hi
    | some proTx =>
      obtain ⟨pool', hr, ha⟩ := @markKeyChange_ok { pool with
        mapProTxRefs := pool.mapProTxRefs ++ [(proTx.proTxHash, tx.getHash)] } _ _ mnList hh _ none
        hi
      exact ⟨pool', hr, ha.mapTx, ha.mapLinks, ha.mapNextTx, ha.mapDeltas⟩
  | normal => exact ⟨_, rfl, fun _ => rfl, rfl, rfl, rfl⟩
  | coinbase _ => exact ⟨_, rfl, fun _ => rfl, rfl, rfl, rfl⟩
  | quorumCommitment _ => exact ⟨_, rfl, fun _ => rfl, rfl, rfl, rfl⟩
  | unknown _ => exact ⟨_, rfl, fun _ => rfl, rfl, rfl, rfl⟩

omit [ChainHash] in
lemma markKeyChange_error {proTxHash : Uint256} {key : Option Bls.PubKey}
    (hm : (mnList.getMN proTxHash).isSome = false) :
    pool.markKeyChange mnList h proTxHash key = .error (.fault .assertion) := by
  cases hg : mnList.getMN proTxHash with
  | none =>
    rw [markKeyChange, hg]
    rfl
  | some dmn =>
    rw [hg] at hm
    cases hm

lemma addProTx_error (hi : indexable mnList tx.payload = false) :
    pool.addProTx mnList tx = .error (.fault .assertion) := by
  rw [addProTx]
  rcases hp : tx.payload with _ | (_ | _) | (_ | _) | (_ | _) | (_ | _) | _ | _ | _ <;>
    rw [hp] at hi
  case providerUpdateRegistrar.some => exact markKeyChange_error hi
  case providerUpdateRevoke.some => exact markKeyChange_error hi
  all_goals first | rfl | cases hi

/-- `addUnchecked` up to the indexes of provider transactions: all statistics are updated here. -/
def addCounted (pool : TxMemPool) (entry : TxMemPoolEntry) (setAncestors : SetEntries) :
    Run TxMemPool := do
  let pool ← pool.insertEntry entry
  let pool ← pool.updateAncestorsOf true entry.tx.getHash setAncestors
  pool.updateEntryForAncestors entry.tx.getHash setAncestors

lemma addUnchecked_eq {entry : TxMemPoolEntry} {s : SetEntries} : pool.addUnchecked mnList entry s =
      pool.addCounted entry s >>= fun pool => pool.addProTx mnList entry.tx := by
  simp only [TxMemPool.addUnchecked, addCounted, bind_assoc]

section Entry
variable {limits : Limits} {s : SetEntries}
  (hcons : Consistent pool) (hfresh : Fresh pool tx) (nFee : Amount) (nTime : Int) (ops : Nat)
  (size : { n : Nat // 0 < n })
  (hs : pool.calculateMemPoolAncestors (.new tx nFee nTime ops size) limits true = .ok (s, none))
include hcons hfresh hs

omit [PropertyHash] in
lemma Consistent.addCounted :
    ∃ pool' e, pool.addCounted (.new tx nFee nTime ops size) s = .ok pool' ∧ e.tx = tx ∧
      Alone e ((pool.mapDeltas[tx.getHash]?).getD 0) ∧ Added pool pool' e := by
  obtain ⟨pool1, e, hr1, rfl, hl, hn⟩ := hcons.insertEntry hfresh nFee nTime ops size
  have hm := calculateMemPoolAncestors_search hcons.parentsLinked hs
  obtain ⟨pool2, pool3, hr2, hr3, hd⟩ := hn.added hcons hfresh hl hm
  refine ⟨pool3, e, ?_, rfl, hl, hd⟩
  rw [TxMemPool.addCounted, hr1, ok_bind]
  rw [show (new e.tx nFee nTime ops size).tx = e.tx from rfl, hr2, ok_bind, hr3]

lemma Consistent.addUnchecked (hi : indexable mnList tx.payload) :
    ∃ pool', pool.addUnchecked mnList (.new tx nFee nTime ops size) s = .ok pool' ∧
      Consistent pool' := by
  obtain ⟨pool1, e, hr1, rfl, hl, hd⟩ := hcons.addCounted hfresh nFee nTime ops size hs
  have he : pool1.exists_ e.tx.getHash := by
    have hb := hd.bare e.tx.getHash
    rw [if_pos rfl] at hb
    obtain ⟨e', he', -⟩ := Option.map_eq_some_iff.1 hb
    exact exists_iff.2 ⟨e', he'⟩
  obtain ⟨pool2, hr2, ha⟩ := addProTx_ok he hi
  refine ⟨pool2, ?_, hd.consistent hcons hfresh hl rfl (decodes_of_indexable hi) ha⟩
  rw [addUnchecked_eq, hr1, ok_bind]
  exact hr2

end Entry
end Indexing
end TxMemPool
end Trivechain.Mempool
