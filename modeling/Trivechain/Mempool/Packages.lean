import Trivechain.Mempool.Search

/-!
# The statistics of packages

Each entry caches the number, size, fees and signature operations of itself with its ancestors, and
with its descendants: what it counts for itself plus what it counts for others. The loops that
adjust the caches change the second part by a constant on a set of entries. Their assertions hold as
long as what is left is a sum over some set of transactions.
-/

namespace Trivechain.Mempool
open Evo
open Relation (TransGen ReflTransGen)
open Std (ExtTreeMap ExtTreeSet)
open Run Maps
open Option

namespace TxMemPoolEntry
variable {e : TxMemPoolEntry}

/-- What a transaction counts for: one transaction, its size, its fee and its signature operations.
-/
def weight (e : TxMemPoolEntry) : Int × Int × Amount64 × Int :=
  (1, e.nTxSize, e.getModifiedFee, e.sigOpCount)

def load (e : TxMemPoolEntry) : Int × Int × Amount64 := (1, e.nTxSize, e.getModifiedFee)

def ancestorState (e : TxMemPoolEntry) : Int × Int × Amount64 × Int :=
  (e.nCountWithAncestors, e.nSizeWithAncestors, e.nModFeesWithAncestors,
    e.nSigOpCountWithAncestors)

def descendantState (e : TxMemPoolEntry) : Int × Int × Amount64 :=
  (e.nCountWithDescendants, e.nSizeWithDescendants, e.nModFeesWithDescendants)

def bare (e : TxMemPoolEntry) : TxMemPoolEntry :=
  { e with
    nCountWithDescendants := 0
    nSizeWithDescendants := 0
    nModFeesWithDescendants := 0
    nCountWithAncestors := 0
    nSizeWithAncestors := 0
    nModFeesWithAncestors := 0
    nSigOpCountWithAncestors := 0 }

variable {e' : TxMemPoolEntry} {ι : Type} {size count : Int} {fee : Amount64} {s : Finset ι}

section
variable (h : e'.bare = e.bare)
include h

lemma eq_of_bare {α : Type} (f : TxMemPoolEntry → α)
    (hf : ∀ e : TxMemPoolEntry, f e.bare = f e) : f e' = f e := by
  rw [← hf e', h, hf]

lemma tx_eq_of_bare : e'.tx = e.tx := eq_of_bare h TxMemPoolEntry.tx fun _ => rfl

lemma weight_eq_of_bare : e'.weight = e.weight := eq_of_bare h weight fun _ => rfl

lemma load_eq_of_bare : e'.load = e.load := eq_of_bare h load fun _ => rfl

end

/-- A count that some set of transactions can have. Fees can be anything. -/
def WeightOk (v : Int × Int × Amount64 × Int) : Prop := 0 ≤ v.1 ∧ 0 ≤ v.2.1 ∧ 0 ≤ v.2.2.2

def LoadOk (v : Int × Int × Amount64) : Prop := 0 ≤ v.1 ∧ 0 ≤ v.2.1

lemma weightOk_sum {f : ι → Int × Int × Amount64 × Int} (h : ∀ i ∈ s, WeightOk (f i)) :
    WeightOk (∑ i ∈ s, f i) := by
  refine Finset.sum_induction f WeightOk (fun a b ha hb => ?_) (by simp [WeightOk]) h
  simp only [WeightOk, Prod.fst_add, Prod.snd_add] at *
  omega

lemma loadOk_sum {f : ι → Int × Int × Amount64} (h : ∀ i ∈ s, LoadOk (f i)) : LoadOk (∑ i ∈ s, f i) := by
  refine Finset.sum_induction f LoadOk (fun a b ha hb => ?_) (by simp [LoadOk]) h
  simp only [LoadOk, Prod.fst_add, Prod.snd_add] at *
  omega

lemma weightOk_weight : WeightOk e.weight := by
  simp [WeightOk, weight]

lemma loadOk_load : LoadOk e.load := by
  simp [LoadOk, load]

lemma updateAncestorState_ok {v : Int × Int × Amount64 × Int} (ht : e.ancestorState = e.weight + v)
    {sigOps : Int} (ho : WeightOk (v + (count, size, fee, sigOps))) :
    ∃ e', e.updateAncestorState size fee count sigOps = .ok e' ∧ e'.bare = e.bare ∧
      e'.ancestorState = e.weight + (v + (count, size, fee, sigOps)) ∧
      e'.descendantState = e.descendantState := by
  have hp := e.size_pos
  simp only [ancestorState, weight, WeightOk, Prod.ext_iff, Prod.fst_add, Prod.snd_add] at ht ho
  have hz : 0 < e.nSizeWithAncestors + size := by omega
  have hc : 0 < e.nCountWithAncestors + count := by omega
  have hs : 0 ≤ e.nSigOpCountWithAncestors + sigOps := by omega
  have he : e.updateAncestorState size fee count sigOps = .ok { e with
      nSizeWithAncestors := e.nSizeWithAncestors + size
      nModFeesWithAncestors := e.nModFeesWithAncestors + fee
      nCountWithAncestors := e.nCountWithAncestors + count
      nSigOpCountWithAncestors := e.nSigOpCountWithAncestors + sigOps } := by
    simp [updateAncestorState, Run.ensure, hz, hc, hs]
  refine ⟨_, he, rfl, ?_, rfl⟩
  · simp only [ancestorState, weight, Prod.ext_iff, Prod.fst_add, Prod.snd_add]
    refine ⟨by omega, by omega, ?_, by omega⟩
    rw [ht.2.2.1, add_assoc]

lemma updateDescendantState_ok {v : Int × Int × Amount64} (hs : e.descendantState = e.load + v)
    (ho : LoadOk (v + (count, size, fee))) :
    ∃ e', e.updateDescendantState size fee count = .ok e' ∧ e'.bare = e.bare ∧
      e'.descendantState = e.load + (v + (count, size, fee)) ∧
      e'.ancestorState = e.ancestorState := by
  have hp := e.size_pos
  simp only [descendantState, load, LoadOk, Prod.ext_iff, Prod.fst_add, Prod.snd_add] at hs ho
  have hz : 0 < e.nSizeWithDescendants + size := by omega
  have hc : 0 < e.nCountWithDescendants + count := by omega
  have he : e.updateDescendantState size fee count = .ok { e with
      nSizeWithDescendants := e.nSizeWithDescendants + size
      nModFeesWithDescendants := e.nModFeesWithDescendants + fee
      nCountWithDescendants := e.nCountWithDescendants + count } := by
    simp [updateDescendantState, Run.ensure, hz, hc]
  refine ⟨_, he, rfl, ?_, rfl⟩
  · simp only [descendantState, load, Prod.ext_iff, Prod.fst_add, Prod.snd_add]
    refine ⟨by omega, by omega, ?_⟩
    rw [hs.2.2, add_assoc]

end TxMemPoolEntry

open TxMemPoolEntry
open TxMemPoolEntry (WeightOk LoadOk)

namespace TxMemPool
variable {pool pool' pool'' : TxMemPool} {h : Uint256}

def weightAt (pool : TxMemPool) (h : Uint256) : Int × Int × Amount64 × Int :=
  ((pool.mapTx[h]?).map (·.weight)).getD 0

def loadAt (pool : TxMemPool) (h : Uint256) : Int × Int × Amount64 :=
  ((pool.mapTx[h]?).map (·.load)).getD 0

variable {e : TxMemPoolEntry}

lemma weightAt_eq (he : pool.mapTx[h]? = some e) : pool.weightAt h = e.weight := by
  rw [weightAt, he]
  rfl

lemma loadAt_eq (he : pool.mapTx[h]? = some e) : pool.loadAt h = e.load := by
  rw [loadAt, he]
  rfl

lemma weightOk_weightAt : WeightOk (pool.weightAt h) := by
  cases he : pool.mapTx[h]? with
  | none => simp [weightAt, he, WeightOk]
  | some e => exact weightAt_eq he ▸ weightOk_weight

lemma loadOk_loadAt : LoadOk (pool.loadAt h) := by
  cases he : pool.mapTx[h]? with
  | none => simp [loadAt, he, LoadOk]
  | some e => exact loadAt_eq he ▸ loadOk_load

open Classical in
noncomputable def ancestors (pool : TxMemPool) (h : Uint256) : Finset Uint256 :=
  {a ∈ pool.nodes | TransGen pool.Spends h a}

open Classical in
noncomputable def descendants (pool : TxMemPool) (h : Uint256) : Finset Uint256 :=
  {d ∈ pool.nodes | TransGen pool.Spends d h}

lemma exists_of_path {a b : Uint256} (hp : TransGen pool.Spends a b) :
    pool.exists_ a ∧ pool.exists_ b := by
  obtain ⟨c, hc, -⟩ := TransGen.head'_iff.1 hp
  obtain ⟨d, -, hd⟩ := TransGen.tail'_iff.1 hp
  exact ⟨hc.left, hd.right⟩

lemma mem_ancestors {a : Uint256} : a ∈ pool.ancestors h ↔ TransGen pool.Spends h a := by
  simp only [ancestors, Finset.mem_filter, and_iff_right_iff_imp]
  intro hp
  exact mem_nodes.2 (exists_of_path hp).2

lemma mem_descendants {d : Uint256} : d ∈ pool.descendants h ↔ TransGen pool.Spends d h := by
  simp only [descendants, Finset.mem_filter, and_iff_right_iff_imp]
  intro hp
  exact mem_nodes.2 (exists_of_path hp).1

lemma ancestors_eq_empty (hn : pool.exists_ h = false) : pool.ancestors h = ∅ := by
  refine Finset.eq_empty_of_forall_notMem fun a ha => ?_
  cases hn.symm.trans (exists_of_path (mem_ancestors.1 ha)).1

lemma ancestors_congr (hs : pool'.Spends = pool.Spends) : pool'.ancestors h = pool.ancestors h :=
  Finset.ext fun _ => by rw [mem_ancestors, mem_ancestors, hs]

lemma descendants_congr (hs : pool'.Spends = pool.Spends) :
    pool'.descendants h = pool.descendants h :=
  Finset.ext fun _ => by rw [mem_descendants, mem_descendants, hs]

section Details
variable {β : Type} {f : TxMemPoolEntry → β} {g : TxMemPoolEntry → TxMemPoolEntry}
  {e' : TxMemPoolEntry}

lemma exists_of_map_eq (hm : (pool'.mapTx[h]?).map f = (pool.mapTx[h]?).map f)
    (he : pool'.mapTx[h]? = some e') : ∃ e, pool.mapTx[h]? = some e ∧ f e' = f e := by
  rw [he, map_some] at hm
  obtain ⟨e, he, hb⟩ := map_eq_some_iff.1 hm.symm
  exact ⟨e, he, hb.symm⟩

lemma exists_eq_of_map_eq (hm : (pool'.mapTx[h]?).map f = (pool.mapTx[h]?).map f) :
    pool'.exists_ h = pool.exists_ h := by
  have hs := congrArg Option.isSome hm
  rwa [isSome_map, isSome_map] at hs

lemma spends_of_map_eq (hm : ∀ h : Uint256, (pool'.mapTx[h]?).map f = (pool.mapTx[h]?).map f)
    (hf : ∀ {e e'}, f e' = f e → e'.tx = e.tx) : pool'.Spends = pool.Spends := by
  have hs : ∀ {pool pool' : TxMemPool} {c p : Uint256}, (∀ h : Uint256,
      (pool'.mapTx[h]?).map f = (pool.mapTx[h]?).map f) → pool'.Spends c p → pool.Spends c p := by
    rintro pool pool' c p hm ⟨e', he', hp, hv⟩
    obtain ⟨e, he, hb⟩ := exists_of_map_eq (hm c) he'
    exact ⟨e, he, exists_eq_of_map_eq (hm p) ▸ hp, hf hb ▸ hv⟩
  exact funext₂ fun _ _ => propext ⟨hs hm, hs fun h => (hm h).symm⟩

lemma weightAt_eq_of_map_eq (hm : (pool'.mapTx[h]?).map g = (pool.mapTx[h]?).map g)
    (hg : ∀ e, (g e).weight = e.weight) : pool'.weightAt h = pool.weightAt h := by
  have hw := congrArg (Option.map weight) hm
  simp only [Option.map_map, Function.comp_def, hg] at hw
  rw [weightAt, hw, weightAt]

lemma loadAt_eq_of_map_eq (hm : (pool'.mapTx[h]?).map g = (pool.mapTx[h]?).map g)
    (hg : ∀ e, (g e).load = e.load) : pool'.loadAt h = pool.loadAt h := by
  have hd := congrArg (Option.map load) hm
  simp only [Option.map_map, Function.comp_def, hg] at hd
  rw [loadAt, hd, loadAt]

end Details

structure Recounted (pool pool' : TxMemPool) : Prop where
  eq : pool' = { pool with mapTx := pool'.mapTx, mapLinks := pool'.mapLinks }
  bare : ∀ h : Uint256,
    (pool'.mapTx[h]?).map bare = (pool.mapTx[h]?).map bare

namespace Recounted

lemma refl (pool : TxMemPool) : Recounted pool pool := ⟨rfl, fun _ => rfl⟩

lemma trans (h : Recounted pool pool') (h' : Recounted pool' pool'') : Recounted pool pool'' :=
  ⟨by rw [h'.eq, h.eq], fun k => (h'.bare k).trans (h.bare k)⟩

variable (hr : Recounted pool pool')
include hr

lemma old {e' : TxMemPoolEntry} (he : pool'.mapTx[h]? = some e') :
    ∃ e, pool.mapTx[h]? = some e ∧ e'.bare = e.bare :=
  exists_of_map_eq (hr.bare h) he

lemma new {e : TxMemPoolEntry} (he : pool.mapTx[h]? = some e) :
    ∃ e', pool'.mapTx[h]? = some e' ∧ e'.bare = e.bare := by
  obtain ⟨e', he', hb⟩ := exists_of_map_eq (hr.bare h).symm he
  exact ⟨e', he', hb.symm⟩

lemma exists_eq : pool'.exists_ h = pool.exists_ h := exists_eq_of_map_eq (hr.bare h)

lemma spends : pool'.Spends = pool.Spends := spends_of_map_eq hr.bare tx_eq_of_bare

lemma weightAt_eq : pool'.weightAt h = pool.weightAt h :=
  weightAt_eq_of_map_eq (hr.bare h) fun _ => rfl

lemma loadAt_eq : pool'.loadAt h = pool.loadAt h := loadAt_eq_of_map_eq (hr.bare h) fun _ => rfl

end Recounted

structure Counts (pool : TxMemPool) (anc : Uint256 → Int × Int × Amount64 × Int)
    (desc : Uint256 → Int × Int × Amount64) : Prop where
  ancestors : ∀ (h : Uint256) (e : TxMemPoolEntry), pool.mapTx[h]? = some e →
    e.ancestorState = e.weight + anc h
  descendants : ∀ (h : Uint256) (e : TxMemPoolEntry), pool.mapTx[h]? = some e →
    e.descendantState = e.load + desc h

lemma foldlM_modify {ks : SetEntries} {f : TxMemPoolEntry → Run TxMemPoolEntry}
    {Q : Uint256 → TxMemPoolEntry → TxMemPoolEntry → Prop} (hs : ∀ k, k ∈ ks → pool.exists_ k)
    (hf : ∀ (k : Uint256) (e : TxMemPoolEntry), k ∈ ks → pool.mapTx[k]? = some e →
      ∃ e', f e = .ok e' ∧ e'.bare = e.bare ∧ Q k e e') :
    ∃ pool', ks.toList.foldlM (fun pool k => pool.modify k f) pool = .ok pool' ∧
      Recounted pool pool' ∧ pool'.mapLinks = pool.mapLinks ∧
      ∀ (h : Uint256) (e' : TxMemPoolEntry), pool'.mapTx[h]? = some e' →
        ∃ e, pool.mapTx[h]? = some e ∧ e'.bare = e.bare ∧ if h ∈ ks then Q h e e' else e' = e := by
  obtain ⟨pool', hn, hq, hi, ho⟩ := foldlM_of_nodup
    (fun done pool' => pool' = { pool with mapTx := pool'.mapTx } ∧
      (∀ k ∈ done, ∃ e e', pool.mapTx[k]? = some e ∧ pool'.mapTx[k]? = some e' ∧
        e'.bare = e.bare ∧ Q k e e') ∧
      ∀ k ∉ done, pool'.mapTx[k]? = pool.mapTx[k]?)
    (f := fun (pool : TxMemPool) k => pool.modify k f) (nodup_toList (t := ks))
    (b := pool) ⟨rfl, by simp, by simp⟩ (by
      rintro done k pool' hk hd ⟨hq, hi, ho⟩
      rw [ExtTreeSet.mem_toList] at hk
      obtain ⟨e, he⟩ := exists_iff.1 (hs k hk)
      obtain ⟨e', hfe, hQ⟩ := hf k e hk he
      refine ⟨{ pool' with mapTx := pool'.mapTx.insert k e' }, ?_, by rw [hq], fun h hh => ?_,
        fun h hh => ?_⟩
      · rw [modify, ho k hd, he, demand_some, ok_bind, hfe]
        rfl
      · rw [getElem?_insert]
        grind
      · rw [getElem?_insert]
        grind)
  simp only [List.mem_toFinset, ExtTreeSet.mem_toList] at hi ho
  refine ⟨pool', hn, ⟨by rw [hq], fun h => ?_⟩, by rw [hq], fun h e' he' => ?_⟩
  · by_cases hh : h ∈ ks
    · obtain ⟨e, e', he, he', hb, -⟩ := hi h hh
      rw [he, he', map_some, hb, map_some]
    · rw [ho h hh]
  · by_cases hh : h ∈ ks
    · grind
    · exact ⟨e', ho h hh ▸ he', rfl, by rw [if_neg hh]⟩

namespace Counts
variable {anc : Uint256 → Int × Int × Amount64 × Int} {desc : Uint256 → Int × Int × Amount64}

lemma addAncestors (hc : Counts pool anc desc) (ks : SetEntries) (size : Int) (fee : Amount64)
    (count sigOps : Int)
    (hs : ∀ k, k ∈ ks → pool.exists_ k)
    (ho : ∀ k, k ∈ ks → WeightOk (anc k + (count, size, fee, sigOps))) : ∃ pool', ks.toList.foldlM
        (fun pool k => pool.modify k (·.updateAncestorState size fee count sigOps)) pool =
        .ok pool' ∧ Recounted pool pool' ∧ pool'.mapLinks = pool.mapLinks ∧
      Counts pool' (fun h => if h ∈ ks then anc h + (count, size, fee, sigOps) else anc h) desc := by
  obtain ⟨pool', hrn, hrc, hln, hn⟩ := foldlM_modify hs fun k e hk he =>
    updateAncestorState_ok (hc.ancestors k e he) (ho k hk)
  refine ⟨pool', hrn, hrc, hln, fun h e' he' => ?_, fun h e' he' => ?_⟩
  · obtain ⟨e, he, hb, hQ⟩ := hn h e' he'
    rw [weight_eq_of_bare hb]
    split_ifs at hQ ⊢
    · exact hQ.1
    · exact hQ ▸ hc.ancestors h e he
  · obtain ⟨e, he, hb, hQ⟩ := hn h e' he'
    rw [load_eq_of_bare hb, ← hc.descendants h e he]
    grind

lemma addDescendants (hc : Counts pool anc desc) (ks : SetEntries) (size : Int) (fee : Amount64)
    (count : Int)
    (hs : ∀ k, k ∈ ks → pool.exists_ k)
    (ho : ∀ k, k ∈ ks → LoadOk (desc k + (count, size, fee))) : ∃ pool', ks.toList.foldlM
        (fun pool k => pool.modify k (·.updateDescendantState size fee count)) pool =
        .ok pool' ∧ Recounted pool pool' ∧ pool'.mapLinks = pool.mapLinks ∧
      Counts pool' anc (fun h => if h ∈ ks then desc h + (count, size, fee) else desc h) := by
  obtain ⟨pool', hrn, hrc, hln, hn⟩ := foldlM_modify hs fun k e hk he =>
    updateDescendantState_ok (hc.descendants k e he) (ho k hk)
  refine ⟨pool', hrn, hrc, hln, fun h e' he' => ?_, fun h e' he' => ?_⟩
  · obtain ⟨e, he, hb, hQ⟩ := hn h e' he'
    rw [weight_eq_of_bare hb, ← hc.ancestors h e he]
    grind
  · obtain ⟨e, he, hb, hQ⟩ := hn h e' he'
    rw [load_eq_of_bare hb]
    split_ifs at hQ ⊢
    · exact hQ.1
    · exact hQ ▸ hc.descendants h e he

end Counts

lemma Counts.congr {anc anc' : Uint256 → Int × Int × Amount64 × Int}
    {desc desc' : Uint256 → Int × Int × Amount64} (hc : Counts pool anc desc)
    (ha : ∀ h, anc h = anc' h) (hd : ∀ h, desc h = desc' h) : Counts pool anc' desc' :=
  ⟨fun h e he => ha h ▸ hc.ancestors h e he, fun h e he => hd h ▸ hc.descendants h e he⟩

/-- Every entry has links, to its parents as `P` and to its children as `C`, and nothing else
has. -/
structure Linked (pool : TxMemPool) (P C : Uint256 → Uint256 → Prop) : Prop where
  some : ∀ h, pool.exists_ h → ∃ l, pool.mapLinks[h]? = some l ∧ (∀ p, p ∈ l.parents ↔ P h p) ∧
    ∀ c, c ∈ l.children ↔ C h c
  none : ∀ h, pool.exists_ h = false → pool.mapLinks[h]? = none

namespace Linked
variable {P P' C C' : Uint256 → Uint256 → Prop} {entry it : Uint256} {add : Bool}
variable (hl : Linked pool P C)
include hl

lemma congr (hP : ∀ h p, pool.exists_ h → (P h p ↔ P' h p))
    (hC : ∀ h c, pool.exists_ h → (C h c ↔ C' h c)) : Linked pool P' C' where
  some h hh := let ⟨l, hk, hp, hc⟩ := hl.some h hh
    ⟨l, hk, fun p => (hp p).trans (hP h p hh), fun c => (hc c).trans (hC h c hh)⟩
  none := hl.none

lemma insert (he : pool.exists_ entry) {l' : TxLinks}
    (hP : ∀ p, p ∈ l'.parents ↔ P' entry p) (hC : ∀ c, c ∈ l'.children ↔ C' entry c)
    (hPo : ∀ h p, h ≠ entry → (P h p ↔ P' h p)) (ho : ∀ h c, h ≠ entry → (C h c ↔ C' h c)) :
    Linked { pool with mapLinks := pool.mapLinks.insert entry l' } P' C' := by
  refine ⟨fun h hh => ?_, fun h hh => ?_⟩
  · dsimp only
    by_cases hq : h = entry
    · subst hq
      exact ⟨l', by rw [getElem?_insert, if_pos rfl], hP, hC⟩
    · obtain ⟨l, hk, hp, hc⟩ := hl.some h hh
      exact ⟨l, by rw [getElem?_insert, if_neg hq, hk], fun p => (hp p).trans (hPo h p hq),
        fun c => (hc c).trans (ho h c hq)⟩
  · have hn : h ≠ entry := by
      rintro rfl
      cases he.symm.trans hh
    dsimp only
    rw [getElem?_insert, if_neg hn]
    exact hl.none h hh

omit hl in
lemma mem_update {s : SetEntries} {c : Uint256} :
    c ∈ (if add then s.insert it else s.erase it) ↔ if c = it then add = true else c ∈ s := by
  cases add
  · simp only [Bool.false_eq_true, if_false, mem_erase]
    grind
  · simp only [if_true, mem_insert]
    grind

lemma updateChild (he : pool.exists_ entry) : Linked (pool.updateChild entry it add) P
      (fun h c => if h = entry ∧ c = it then add = true else C h c) := by
  obtain ⟨l, hk, hp, hc⟩ := hl.some entry he
  have hn : pool.links entry = l := by rw [links, hk]; rfl
  refine hl.insert he (fun p => ?_) (fun c => ?_) (fun _ _ _ => .rfl) fun h c hne => ?_
  · rw [hn, hp]
  · simp [hn, mem_update, hc]
  · simp [hne]

lemma updateParent (he : pool.exists_ entry) : Linked (pool.updateParent entry it add)
      (fun h p => if h = entry ∧ p = it then add = true else P h p) C := by
  obtain ⟨l, hk, hp, hc⟩ := hl.some entry he
  have hn : pool.links entry = l := by rw [links, hk]; rfl
  refine hl.insert he (fun p => ?_) (fun c => ?_) (fun h p hne => ?_) fun _ _ _ => .rfl
  · simp [hn, mem_update, hp]
  · rw [hn, hc]
  · simp [hne]

lemma foldl_updateChild (it : Uint256) (add : Bool) {ps : List Uint256}
    (hs : ∀ p ∈ ps, pool.exists_ p) :
    Linked (ps.foldl (fun pool p => pool.updateChild p it add) pool) P
      (fun h c => if h ∈ ps ∧ c = it then add = true else C h c) := by
  induction ps generalizing pool C with
  | nil => simpa using hl
  | cons p ps ih =>
    have hp := hs p (by simp)
    refine (ih (hl.updateChild hp) fun q hq => hs q (by simp [hq])).congr (fun _ _ _ => .rfl)
      fun h c _ => ?_
    grind

lemma foldl_updateParent (it : Uint256) (add : Bool) {cs : List Uint256}
    (hs : ∀ c ∈ cs, pool.exists_ c) :
    Linked (cs.foldl (fun pool c => pool.updateParent c it add) pool)
      (fun h p => if h ∈ cs ∧ p = it then add = true else P h p) C := by
  induction cs generalizing pool P with
  | nil => simpa using hl
  | cons c cs ih =>
    have hc := hs c (by simp)
    refine (ih (hl.updateParent hc) fun q hq => hs q (by simp [hq])).congr (fun h p _ => ?_)
      fun _ _ _ => .rfl
    grind

end Linked

lemma foldl_links {ks : List Uint256} {f : TxMemPool → Uint256 → TxMemPool}
    (hf : ∀ pool k, f pool k = { pool with mapLinks := (f pool k).mapLinks }) :
    ks.foldl f pool = { pool with mapLinks := (ks.foldl f pool).mapLinks } := by
  induction ks generalizing pool with
  | nil => rfl
  | cons k ks ih => rw [List.foldl_cons, ih, hf]

lemma Recounted.of_links {m : ExtTreeMap Uint256 TxLinks} :
    Recounted pool { pool with mapLinks := m } := ⟨rfl, fun _ => rfl⟩

variable {P C : Uint256 → Uint256 → Prop}

lemma Linked.childrenLinked (hl : Linked pool P (fun h c => pool.Spends c h)) :
    pool.ChildrenLinked :=
  fun h hh => let ⟨l, hk, _, hc⟩ := hl.some h hh; ⟨l, hk, hc⟩

lemma Linked.parentsLinked (hl : Linked pool pool.Spends C) : pool.ParentsLinked :=
  fun h hh => let ⟨l, hk, hp, _⟩ := hl.some h hh; ⟨l, hk, hp⟩

lemma Linked.congr_pool (hl : Linked pool P C) (hx : ∀ {h}, pool'.exists_ h = pool.exists_ h)
    (hn : pool'.mapLinks = pool.mapLinks) : Linked pool' P C :=
  ⟨fun h hh => hn ▸ hl.some h (hx ▸ hh), fun h hh => hn ▸ hl.none h (hx ▸ hh)⟩

section Removal
variable {base : TxMemPool} {P C : Uint256 → Uint256 → Prop} {r : Uint256}
  {anc : Uint256 → Int × Int × Amount64 × Int} {desc : Uint256 → Int × Int × Amount64}
  {done : Finset Uint256}

lemma sum_sdiff_insert {M : Type} [AddCommGroup M] {s : Finset Uint256} {f : Uint256 → M}
    (hr : r ∉ done) : ∑ a ∈ s \ insert r done, f a =
      if r ∈ s then ∑ a ∈ s \ done, f a + -f r else ∑ a ∈ s \ done, f a := by
  rw [Finset.sdiff_insert]
  split_ifs with hm
  · rw [Finset.sum_erase_eq_sub (Finset.mem_sdiff.2 ⟨hm, hr⟩), sub_eq_add_neg]
  · rw [Finset.erase_eq_of_notMem fun h => hm (Finset.mem_sdiff.1 h).1]

lemma updateDescendantsOf_spec (hrc : Recounted base pool) (ha : ∀ h, ¬ TransGen base.Spends h h)
    (hl : pool.ChildrenLinked) (hr : base.exists_ r) (hd : r ∉ done)
    (hc : Counts pool (fun h => ∑ a ∈ base.ancestors h \ done, base.weightAt a) desc) :
    ∃ pool', pool.updateDescendantsOf r = .ok pool' ∧ Recounted pool pool' ∧
      pool'.mapLinks = pool.mapLinks ∧
      Counts pool' (fun h => ∑ a ∈ base.ancestors h \ insert r done, base.weightAt a) desc := by
  have hr' : pool.exists_ r := hrc.exists_eq ▸ hr
  obtain ⟨e, he⟩ := exists_iff.1 hr'
  have hw : base.weightAt r = e.weight := hrc.weightAt_eq ▸ weightAt_eq he
  obtain ⟨s, hs, hm⟩ := calculateDescendants_spec hl hr' (fun x hx =>
    absurd hx ExtTreeSet.not_mem_empty) fun x _ hx => absurd hx ExtTreeSet.not_mem_empty
  have hm' : ∀ h, h ∈ s.erase r ↔ r ∈ base.ancestors h := fun h => by
    rw [mem_erase, hm, or_iff_right ExtTreeSet.not_mem_empty, hrc.spends, mem_ancestors,
      Relation.reflTransGen_iff_eq_or_transGen]
    constructor
    · rintro ⟨hne, hq | hp⟩
      · exact absurd hq.symm hne
      · exact hp
    · intro hp
      refine ⟨?_, .inr hp⟩
      rintro rfl
      exact ha h hp
  have hn : ((-1, -(e.nTxSize : Int), -e.getModifiedFee, -(e.sigOpCount : Int)) :
      Int × Int × Amount64 × Int) = -base.weightAt r := by rw [hw]; rfl
  obtain ⟨pool', hrn, hc', hln, hcn⟩ := hc.addAncestors (s.erase r) (-e.nTxSize)
    (-e.getModifiedFee) (-1) (-e.sigOpCount)
    (fun k hk => hrc.exists_eq ▸ (exists_of_path (mem_ancestors.1 ((hm' k).1 hk))).1)
    fun k hk => by
      have hsm := sum_sdiff_insert (s := base.ancestors k) (f := base.weightAt) hd
      rw [if_pos ((hm' k).1 hk)] at hsm
      rw [hn, ← hsm]
      exact weightOk_sum fun _ _ => weightOk_weightAt
  refine ⟨pool', ?_, hc', hln, hcn.congr (fun h => ?_) fun _ => rfl⟩
  · rw [updateDescendantsOf, hs, ok_bind, he, demand_some, ok_bind]
    exact hrn
  · rw [hn, sum_sdiff_insert hd]
    exact if_congr (hm' h) rfl rfl

lemma updateDescendants_loop (hrc : Recounted base pool) (ha : ∀ h, ¬ TransGen base.Spends h h)
    (hl : pool.ChildrenLinked) {stage : SetEntries} (hs : ∀ x, x ∈ stage → base.exists_ x)
    (hc : Counts pool (fun h => ∑ a ∈ base.ancestors h, base.weightAt a) desc) :
    ∃ pool', stage.toList.foldlM (fun pool r => pool.updateDescendantsOf r) pool = .ok pool' ∧
      Recounted pool pool' ∧ pool'.mapLinks = pool.mapLinks ∧
      Counts pool' (fun h => ∑ a ∈ base.ancestors h \ stage.toList.toFinset, base.weightAt a)
        desc := by
  refine foldlM_of_nodup (fun done pool' => Recounted pool pool' ∧ pool'.mapLinks = pool.mapLinks ∧
    Counts pool' (fun h => ∑ a ∈ base.ancestors h \ done, base.weightAt a) desc)
    nodup_toList ⟨.refl _, rfl, by simpa using hc⟩ ?_
  rintro done r pool1 hr hd ⟨hr1, hn1, hc1⟩
  have hl1 : pool1.ChildrenLinked := fun h hh => by
    rw [hn1, hr1.spends]
    exact hl h (hr1.exists_eq ▸ hh)
  obtain ⟨pool2, hn, hr2, hl2, hc2⟩ := updateDescendantsOf_spec (hrc.trans hr1) ha
    hl1 (hs r (ExtTreeSet.mem_toList.1 hr)) hd hc1
  exact ⟨pool2, hn, hr1.trans hr2, hl2.trans hn1, hc2⟩

lemma updateAncestorsOf_spec (hl : Linked pool P C) {it : Uint256} {e : TxMemPoolEntry}
    (he : pool.mapTx[it]? = some e) (hP : ∀ p, P it p → pool.exists_ p) (hc : Counts pool anc desc)
    {s : SetEntries} (hs : ∀ a, a ∈ s → pool.exists_ a) (add : Bool) {d : Int × Int × Amount64}
    (hd : d = if add then e.load else -e.load) (hok : ∀ a, a ∈ s → LoadOk (desc a + d)) :
    ∃ pool', pool.updateAncestorsOf add it s = .ok pool' ∧ Recounted pool pool' ∧
      Linked pool' P (fun h c => (P it h ∧ c = it ∧ add = true) ∨ (¬ (P it h ∧ c = it) ∧ C h c)) ∧
      Counts pool' anc (fun h => if h ∈ s then desc h + d else desc h) := by
  have hi : pool.exists_ it := exists_iff.2 ⟨e, he⟩
  obtain ⟨l, hk, hp, -⟩ := hl.some it hi
  have hpr : pool.getMemPoolParents it = .ok l.parents := by
    rw [getMemPoolParents, hk]
    rfl
  have hps : ∀ p ∈ l.parents.toList, pool.exists_ p := fun p hm =>
    hP p ((hp p).1 (ExtTreeSet.mem_toList.1 hm))
  have hl1 := hl.foldl_updateChild it add hps
  have hp1 : l.parents.toList.foldl (fun pool p => pool.updateChild p it add) pool = _ :=
    foldl_links fun _ _ => rfl
  generalize (l.parents.toList.foldl (fun pool p => pool.updateChild p it add) pool).mapLinks = m
    at hp1
  have hn : ((if add then 1 else -1, (if add then 1 else -1) * (e.nTxSize : Int),
      .ofInt 64 (if add then 1 else -1) * e.getModifiedFee) : Int × Int × Amount64) = d := by
    rw [hd]
    cases add
    · have hf : BitVec.ofInt 64 (-1) * e.getModifiedFee = -e.getModifiedFee := neg_one_mul _
      simp only [Bool.false_eq_true, if_false, load, hf, Prod.neg_mk, neg_one_mul]
    · simp [load]
  rw [hp1] at hl1
  have hc1 : Counts { pool with mapLinks := m } anc desc := ⟨hc.ancestors, hc.descendants⟩
  obtain ⟨pool', hrn, hrc, hln, hc'⟩ := hc1.addDescendants s
    ((if add then 1 else -1) * e.nTxSize) (.ofInt 64 (if add then 1 else -1) * e.getModifiedFee)
    (if add then 1 else -1) hs fun a ha => hn ▸ hok a ha
  refine ⟨pool', ?_, Recounted.of_links.trans hrc, (hl1.congr_pool hrc.exists_eq hln).congr
    (fun _ _ _ => .rfl) fun h c _ => ?_, hc'.congr (fun _ => rfl) fun h => by rw [hn]⟩
  · rw [updateAncestorsOf, hpr, ok_bind]
    dsimp only
    rw [hp1]
    dsimp only
    rw [he, demand_some, ok_bind]
    exact hrn
  · have hm : h ∈ l.parents.toList ↔ P it h := ExtTreeSet.mem_toList.trans (hp h)
    split_ifs with ho
    · rw [hm] at ho
      tauto
    · rw [hm] at ho
      tauto

variable [ChainHash]

lemma updateAncestorsForRemoval_spec (hrc : Recounted base pool)
    (hk : ∀ (h : Uint256) (e : TxMemPoolEntry), base.mapTx[h]? = some e → e.tx.getHash = h)
    (hl : Linked pool base.Spends (fun h c => base.Spends c h ∧ c ∉ done))
    (hr : base.exists_ r) (hd : r ∉ done)
    (hc : Counts pool anc (fun h => ∑ d ∈ base.descendants h \ done, base.loadAt d)) :
    ∃ pool', pool.updateAncestorsForRemoval r = .ok pool' ∧ Recounted pool pool' ∧
      Linked pool' base.Spends (fun h c => base.Spends c h ∧ c ∉ insert r done) ∧
      Counts pool' anc (fun h => ∑ d ∈ base.descendants h \ insert r done, base.loadAt d) := by
  obtain ⟨e, he⟩ := exists_iff.1 (hrc.exists_eq ▸ hr)
  obtain ⟨e0, he0, hb⟩ := hrc.old he
  have hh : e.tx.getHash = r := tx_eq_of_bare hb ▸ hk r e0 he0
  have hld : base.loadAt r = e.load := hrc.loadAt_eq ▸ loadAt_eq he
  have hpr : pool.ParentsLinked := Linked.parentsLinked (hrc.spends ▸ hl)
  obtain ⟨s, hs, hm⟩ := calculateMemPoolAncestors_spec hpr (e := e) (hh ▸ exists_iff.2 ⟨e, he⟩)
  have hm' : ∀ h, h ∈ s ↔ r ∈ base.descendants h := fun h => by
    rw [hm, hh, hrc.spends, mem_descendants]
  obtain ⟨pool', hn, hr', hl', hc'⟩ := updateAncestorsOf_spec hl he
    (fun p hp => hrc.exists_eq ▸ hp.right) hc
    (fun a ha => hrc.exists_eq ▸ (exists_of_path (mem_descendants.1 ((hm' a).1 ha))).2)
    false (hld ▸ rfl : -base.loadAt r = _) fun a ha => by
      have hsm := sum_sdiff_insert (s := base.descendants a) (f := base.loadAt) hd
      rw [if_pos ((hm' a).1 ha)] at hsm
      rw [← hsm]
      exact loadOk_sum fun _ _ => loadOk_loadAt
  refine ⟨pool', ?_, hr', hl'.congr (fun _ _ _ => .rfl) fun h c _ => ?_,
    hc'.congr (fun _ => rfl) fun h => ?_⟩
  · rw [updateAncestorsForRemoval, he, demand_some, ok_bind, hs, ok_bind]
    exact hn
  · rw [Finset.mem_insert]
    grind
  · rw [sum_sdiff_insert hd]
    exact if_congr (hm' h) rfl rfl

omit [ChainHash] in
lemma updateChildrenForRemoval_spec (hl : Linked pool P C) (hr : pool.exists_ r)
    (hC : ∀ c, C r c → pool.exists_ c) :
    ∃ m, pool.updateChildrenForRemoval r = .ok { pool with mapLinks := m } ∧
      Linked { pool with mapLinks := m } (fun h p => P h p ∧ ¬ (C r h ∧ p = r)) C := by
  obtain ⟨l, hk, -, hc⟩ := hl.some r hr
  have hh : pool.getMemPoolChildren r = .ok l.children := by
    rw [getMemPoolChildren, hk]
    rfl
  have hl1 := hl.foldl_updateParent r false fun c hm =>
    hC c ((hc c).1 (ExtTreeSet.mem_toList.1 hm))
  have hp1 : l.children.toList.foldl (fun pool c => pool.updateParent c r false) pool = _ :=
    foldl_links fun _ _ => rfl
  rw [hp1] at hl1
  refine ⟨_, ?_, hl1.congr (fun h p _ => ?_) fun _ _ _ => .rfl⟩
  · rw [updateChildrenForRemoval, hh, ok_bind, ← hp1]
    rfl
  · have hm : h ∈ l.children.toList ↔ C r h := ExtTreeSet.mem_toList.trans (hc h)
    split_ifs with hn
    · rw [hm] at hn
      simp [hn]
    · rw [hm] at hn
      tauto

variable {stage : SetEntries}

lemma updateAncestors_loop (hrc : Recounted base pool)
    (hk : ∀ (h : Uint256) (e : TxMemPoolEntry), base.mapTx[h]? = some e → e.tx.getHash = h)
    (hl : Linked pool base.Spends (fun h c => base.Spends c h))
    (hs : ∀ x, x ∈ stage → base.exists_ x)
    (hc : Counts pool anc (fun h => ∑ d ∈ base.descendants h, base.loadAt d)) :
    ∃ pool', stage.toList.foldlM (fun pool r => pool.updateAncestorsForRemoval r) pool =
        .ok pool' ∧ Recounted pool pool' ∧
      Linked pool' base.Spends (fun h c => base.Spends c h ∧ c ∉ stage.toList.toFinset) ∧
      Counts pool' anc
        (fun h => ∑ d ∈ base.descendants h \ stage.toList.toFinset, base.loadAt d) := by
  refine foldlM_of_nodup (fun done pool' => Recounted pool pool' ∧
    Linked pool' base.Spends (fun h c => base.Spends c h ∧ c ∉ done) ∧
    Counts pool' anc (fun h => ∑ d ∈ base.descendants h \ done, base.loadAt d))
    nodup_toList ⟨.refl _, by simpa using hl, by simpa using hc⟩ ?_
  rintro done r pool1 hr hd ⟨hr1, hl1, hc1⟩
  obtain ⟨pool2, hn, hr2, hl2, hc2⟩ := updateAncestorsForRemoval_spec (hrc.trans hr1) hk
    hl1 (hs r (ExtTreeSet.mem_toList.1 hr)) hd hc1
  exact ⟨pool2, hn, hr1.trans hr2, hl2, hc2⟩

omit [ChainHash] in
lemma updateChildren_loop (hrc : Recounted base pool) {S : Finset Uint256}
    (hS : ∀ x, x ∈ stage ↔ x ∈ S) (hs : ∀ x, x ∈ stage → base.exists_ x)
    (hl : Linked pool base.Spends (fun h c => base.Spends c h ∧ c ∉ S)) :
    ∃ pool', stage.toList.foldlM (fun pool r => pool.updateChildrenForRemoval r) pool =
        .ok pool' ∧ Recounted pool pool' ∧ pool'.mapTx = pool.mapTx ∧
      Linked pool' (fun h p => base.Spends h p ∧ ¬ (p ∈ S ∧ h ∉ S))
        (fun h c => base.Spends c h ∧ c ∉ S) := by
  obtain ⟨pool', hn, hr', hm, hl'⟩ := foldlM_of_nodup
    (fun done pool' => Recounted pool pool' ∧ pool'.mapTx = pool.mapTx ∧
      Linked pool' (fun h p => base.Spends h p ∧ ¬ (p ∈ done ∧ h ∉ S))
        (fun h c => base.Spends c h ∧ c ∉ S))
    (f := fun pool r => pool.updateChildrenForRemoval r) (l := stage.toList)
    nodup_toList ⟨.refl _, rfl, by simpa using hl⟩ (by
      rintro done r pool1 hr hd ⟨hr1, hm1, hl1⟩
      have hi := hs r (ExtTreeSet.mem_toList.1 hr)
      obtain ⟨m, hn, hl2⟩ := updateChildrenForRemoval_spec hl1 ((hrc.trans hr1).exists_eq ▸ hi)
        fun c hc => (hrc.trans hr1).exists_eq ▸ hc.1.left
      refine ⟨_, hn, hr1.trans .of_links, hm1, hl2.congr (fun h p _ => ?_) fun _ _ _ => .rfl⟩
      rw [Finset.mem_insert]
      grind)
  refine ⟨pool', hn, hr', hm, hl'.congr (fun h p _ => ?_) fun _ _ _ => .rfl⟩
  rw [List.mem_toFinset, ExtTreeSet.mem_toList, hS]

end Removal

structure Reduced (pool pool' : TxMemPool) (S : SetEntries) : Prop where
  bare : ∀ h : Uint256, (pool'.mapTx[h]?).map bare =
    if h ∈ S then none else (pool.mapTx[h]?).map bare
  mapDeltas : pool'.mapDeltas = pool.mapDeltas

namespace Reduced
variable {S : SetEntries} {e e' : TxMemPoolEntry}
variable (hred : Reduced pool pool' S)
include hred

lemma old (he : pool'.mapTx[h]? = some e') :
    h ∉ S ∧ ∃ e, pool.mapTx[h]? = some e ∧ e'.bare = e.bare := by
  have := hred.bare h
  rw [he, map_some] at this
  split_ifs at this with hm
  obtain ⟨e, he, hb⟩ := map_eq_some_iff.1 this.symm
  exact ⟨hm, e, he, hb.symm⟩

lemma new (hm : h ∉ S) (he : pool.mapTx[h]? = some e) :
    ∃ e', pool'.mapTx[h]? = some e' ∧ e'.bare = e.bare := by
  have := hred.bare h
  rw [if_neg hm, he, map_some] at this
  exact map_eq_some_iff.1 this

lemma exists_iff : pool'.exists_ h ↔ pool.exists_ h ∧ h ∉ S := by
  rw [TxMemPool.exists_iff, TxMemPool.exists_iff]
  constructor
  · rintro ⟨e', he'⟩
    obtain ⟨hm, e, he, -⟩ := hred.old he'
    exact ⟨⟨e, he⟩, hm⟩
  · rintro ⟨⟨e, he⟩, hm⟩
    obtain ⟨e', he', -⟩ := hred.new hm he
    exact ⟨e', he'⟩

lemma spends_iff (c p : Uint256) : pool'.Spends c p ↔ pool.Spends c p ∧ c ∉ S ∧ p ∉ S := by
  constructor
  · rintro ⟨e', he', hp, hv⟩
    obtain ⟨hc, e, he, hb⟩ := hred.old he'
    obtain ⟨hp, hs⟩ := hred.exists_iff.1 hp
    exact ⟨⟨e, he, hp, tx_eq_of_bare hb ▸ hv⟩, hc, hs⟩
  · rintro ⟨⟨e, he, hp, hv⟩, hc, hs⟩
    obtain ⟨e', he', hb⟩ := hred.new hc he
    exact ⟨e', he', hred.exists_iff.2 ⟨hp, hs⟩, tx_eq_of_bare hb ▸ hv⟩

lemma bare_eq (hm : h ∉ S) :
    (pool'.mapTx[h]?).map TxMemPoolEntry.bare = (pool.mapTx[h]?).map TxMemPoolEntry.bare := by
  rw [hred.bare, if_neg hm]

lemma sum_ancestors (hS : Dag.OneSided pool.Spends (· ∈ S))
    (hm : h ∉ S) : ∑ a ∈ pool'.ancestors h, pool'.weightAt a =
      ∑ a ∈ pool.ancestors h \ S.toList.toFinset, pool.weightAt a := by
  have hs : pool'.ancestors h = pool.ancestors h \ S.toList.toFinset := by
    ext a
    rw [mem_ancestors, Finset.mem_sdiff, mem_ancestors, List.mem_toFinset, ExtTreeSet.mem_toList,
      Dag.transGen_remove hS hred.spends_iff]
    tauto
  rw [hs]
  refine Finset.sum_congr rfl fun a ha => weightAt_eq_of_map_eq (hred.bare_eq ?_) fun _ => rfl
  rw [Finset.mem_sdiff, List.mem_toFinset, ExtTreeSet.mem_toList] at ha
  exact ha.2

lemma sum_descendants (hS : Dag.OneSided pool.Spends (· ∈ S))
    (hm : h ∉ S) : ∑ d ∈ pool'.descendants h, pool'.loadAt d =
      ∑ d ∈ pool.descendants h \ S.toList.toFinset, pool.loadAt d := by
  have hs : pool'.descendants h = pool.descendants h \ S.toList.toFinset := by
    ext d
    rw [mem_descendants, Finset.mem_sdiff, mem_descendants, List.mem_toFinset,
      ExtTreeSet.mem_toList, Dag.transGen_remove hS hred.spends_iff]
    tauto
  rw [hs]
  refine Finset.sum_congr rfl fun d hd => loadAt_eq_of_map_eq (hred.bare_eq ?_) fun _ => rfl
  rw [Finset.mem_sdiff, List.mem_toFinset, ExtTreeSet.mem_toList] at hd
  exact hd.2

end Reduced
end TxMemPool
end Trivechain.Mempool
