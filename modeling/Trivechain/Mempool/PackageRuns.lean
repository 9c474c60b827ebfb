import Trivechain.Evo.TableHash
import Trivechain.Mempool.Adding

/-!
# Runs of the memory pool

Transactions are added with their ancestors, entries are removed one by one when they are mined, or
with their descendants, and fees are changed. Links and statistics stay exact in every such run, no
assertion of the statistics fails, and no two transactions spend the same outpoint. Only the fees of
a package can be wrong, when their sum needs more than 64 bits.
-/

namespace Trivechain.Mempool
open Evo
open Relation (TransGen ReflTransGen)
open Std (ExtTreeMap ExtTreeSet)
open Run Maps TxMemPoolEntry Option

namespace TxMemPool
variable [ChainHash] {pool pool' : TxMemPool} {h hash : Uint256} {nFeeDelta : Amount64}

lemma SameTxs.consistent (hs : SameTxs pool pool') (hc : Consistent pool)
    (hd : ∀ (h : Uint256) (e : TxMemPoolEntry), pool'.mapTx[h]? = some e →
      e.feeDelta = (pool'.mapDeltas[h]?).getD 0)
    (hn : Counts pool' (fun h => ∑ a ∈ pool.ancestors h, pool'.weightAt a)
      (fun h => ∑ d ∈ pool.descendants h, pool'.loadAt d)) : Consistent pool' := by
  refine ⟨fun h e' he' => ?_, fun h e' he' => ?_, fun o tx => ?_, hs.spends ▸ hc.acyclic, hd,
    hs.linked hc.linked, hn.congr (fun h => by rw [ancestors_congr hs.spends])
      (fun h => by rw [descendants_congr hs.spends])⟩
  · obtain ⟨e, he, ht⟩ := hs.old he'
    rw [ht, hc.keyed h e he]
  · obtain ⟨e, he, ht⟩ := hs.old he'
    rw [ht]
    exact hc.decodes h e he
  · rw [hs.mapNextTx, hc.spent]
    constructor
    · rintro ⟨h, e, he, rfl, ho⟩
      obtain ⟨e', he', ht⟩ := hs.symm.old he
      exact ⟨h, e', he', ht.symm, ho⟩
    · rintro ⟨h, e', he', rfl, ho⟩
      obtain ⟨e, he, ht⟩ := hs.old he'
      exact ⟨h, e, he, ht.symm, ho⟩

structure Repriced (pool pool' : TxMemPool) (hash : Uint256) (nFeeDelta : Amount64) : Prop where
  same : SameTxs pool pool'
  delta : ∀ (h : Uint256) (e : TxMemPoolEntry), pool'.mapTx[h]? = some e →
    e.feeDelta = (pool'.mapDeltas[h]?).getD 0
  weightAt : ∀ h, pool'.weightAt h =
    pool.weightAt h + if h = hash then (0, 0, nFeeDelta, 0) else 0
  loadAt : ∀ h, pool'.loadAt h = pool.loadAt h + if h = hash then (0, 0, nFeeDelta) else 0
  counts : Counts pool' (fun h => ∑ a ∈ pool.ancestors h, pool.weightAt a)
    (fun h => ∑ d ∈ pool.descendants h, pool.loadAt d)

lemma Consistent.repriced (hc : Consistent pool) {e : TxMemPoolEntry}
    (he : pool.mapTx[hash]? = some e) (nFeeDelta : Amount64) {delta : Amount64}
    (hd : delta = (pool.mapDeltas[hash]?).getD 0 + nFeeDelta) :
    Repriced pool { pool with
      mapDeltas := pool.mapDeltas.insert hash delta
      mapTx := pool.mapTx.insert hash (e.updateFeeDelta delta) } hash nFeeDelta := by
  have hf : delta = e.feeDelta + nFeeDelta := by rw [hc.delta hash e he, hd]
  have hw : (e.updateFeeDelta delta).weight = e.weight + (0, 0, nFeeDelta, 0) := by
    simp only [weight, getModifiedFee, updateFeeDelta, hf, Prod.mk_add_mk, add_zero, add_assoc]
  have hl : (e.updateFeeDelta delta).load = e.load + (0, 0, nFeeDelta) := by
    simp only [load, getModifiedFee, updateFeeDelta, hf, Prod.mk_add_mk, add_zero, add_assoc]
  have ha : (e.updateFeeDelta delta).ancestorState = e.ancestorState + (0, 0, nFeeDelta, 0) := by
    simp only [ancestorState, updateFeeDelta, hf, Prod.mk_add_mk, add_zero, add_sub_cancel_left]
  have hds : (e.updateFeeDelta delta).descendantState = e.descendantState + (0, 0, nFeeDelta) := by
    simp only [descendantState, updateFeeDelta, hf, Prod.mk_add_mk, add_zero, add_sub_cancel_left]
  refine ⟨⟨fun h => ?_, rfl, rfl⟩, fun h e' he' => ?_, fun h => ?_, fun h => ?_,
    fun h e' he' => ?_, fun h e' he' => ?_⟩
  · rw [getElem?_insert]
    split_ifs with hh
    · rw [hh, he]
      rfl
    · rfl
  · dsimp only at he' ⊢
    rw [getElem?_insert] at he' ⊢
    split_ifs at he' ⊢ with hh
    · cases he'
      rfl
    · exact hc.delta h e' he'
  · rw [TxMemPool.weightAt, getElem?_insert]
    split_ifs with hh
    · rw [hh, weightAt_eq he, ← hw]
      rfl
    · rw [add_zero]
      rfl
  · rw [TxMemPool.loadAt, getElem?_insert]
    split_ifs with hh
    · rw [hh, loadAt_eq he, ← hl]
      rfl
    · rw [add_zero]
      rfl
  · dsimp only at he'
    rw [getElem?_insert] at he'
    split_ifs at he' with hh
    · cases he'
      rw [ha, hw, hh, hc.counts.ancestors hash e he, add_right_comm]
    · exact hc.counts.ancestors h e' he'
  · dsimp only at he'
    rw [getElem?_insert] at he'
    split_ifs at he' with hh
    · cases he'
      rw [hds, hl, hh, hc.counts.descendants hash e he, add_right_comm]
    · exact hc.counts.descendants h e' he'

section

omit [ChainHash]

lemma sum_changed {M : Type} [AddCommMonoid M] (s : Finset Uint256) {f g : Uint256 → M} {d : M}
    (hf : ∀ h, g h = f h + if h = hash then d else 0) :
    ∑ a ∈ s, g a = (∑ a ∈ s, f a) + if hash ∈ s then d else 0 := by
  simp only [hf, Finset.sum_add_distrib, Finset.sum_ite_eq']

lemma weightOk_addFee {v : Int × Int × Amount64 × Int} (hv : TxMemPoolEntry.WeightOk v)
    (fee : Amount64) : TxMemPoolEntry.WeightOk (v + (0, 0, fee, 0)) := by
  simpa only [TxMemPoolEntry.WeightOk, Prod.fst_add, Prod.snd_add, add_zero] using hv

lemma loadOk_addFee {v : Int × Int × Amount64} (hv : TxMemPoolEntry.LoadOk v) (fee : Amount64) :
    TxMemPoolEntry.LoadOk (v + (0, 0, fee)) := by
  simpa only [TxMemPoolEntry.LoadOk, Prod.fst_add, Prod.snd_add, add_zero] using hv

end

lemma Repriced.consistent (hp : Repriced pool pool' hash nFeeDelta) (hc : Consistent pool)
    {e : TxMemPoolEntry} (he : pool'.mapTx[hash]? = some e) (hy : e.tx.getHash = hash) :
    ∃ pool3, (do
      let (setAncestors, _) ← pool'.calculateMemPoolAncestors e {} false
      let pool ← setAncestors.toList.foldlM
        (fun (pool : TxMemPool) ancestorIt =>
          pool.modify ancestorIt (·.updateDescendantState 0 nFeeDelta 0)) pool'
      let setDescendants ← pool.calculateDescendants hash ∅
      (setDescendants.erase hash).toList.foldlM
        (fun (pool : TxMemPool) descendantIt =>
          pool.modify descendantIt (·.updateAncestorState 0 nFeeDelta 0 0)) pool) = .ok pool3 ∧
            Consistent pool3 := by
  have hl := hp.same.linked hc.linked
  have hex : pool'.exists_ hash := exists_iff.2 ⟨e, he⟩
  obtain ⟨s, hs, hmm⟩ := calculateMemPoolAncestors_spec hl.parentsLinked (hy.symm ▸ hex)
  rw [hy, hp.same.spends] at hmm
  obtain ⟨pool2, hn2, hr2, hl2, hc2⟩ := hp.counts.addDescendants s 0 nFeeDelta 0
    (fun k hk => hp.same.exists_eq ▸ (exists_of_path ((hmm k).1 hk)).2)
    (fun k _ => loadOk_addFee (loadOk_sum fun _ _ => loadOk_loadAt) _)
  have hs2 := SameTxs.of_recounted hr2 hl2
  obtain ⟨r, hr, hm⟩ := calculateDescendants_spec (hs2.linked hl).childrenLinked
    (hs2.exists_eq ▸ hex) (fun x hx => absurd hx ExtTreeSet.not_mem_empty)
    (fun x _ hx => absurd hx ExtTreeSet.not_mem_empty)
  have hm : ∀ y, y ∈ r.erase hash ↔ TransGen pool.Spends y hash := by
    intro y
    rw [mem_erase, hm, hs2.spends, hp.same.spends, Relation.reflTransGen_iff_eq_or_transGen]
    have hir := hc.acyclic hash
    have hem : y ∉ (∅ : SetEntries) := ExtTreeSet.not_mem_empty
    grind
  obtain ⟨pool3, hn3, hr3, hl3, hc3⟩ := hc2.addAncestors (r.erase hash) 0 nFeeDelta 0 0
    (fun k hk => hs2.exists_eq ▸ hp.same.exists_eq ▸ (exists_of_path ((hm k).1 hk)).1)
    (fun k _ => weightOk_addFee (weightOk_sum fun _ _ => weightOk_weightAt) _)
  have hrc := hr2.trans hr3
  have hs3 := hp.same.trans (SameTxs.of_recounted hrc (hl3.trans hl2))
  refine ⟨pool3, ?_, hs3.consistent hc (fun h e3 he3 => ?_)
    (hc3.congr (fun h => ?_) fun h => ?_)⟩
  · rw [hs, ok_bind]
    dsimp only
    rw [hn2, ok_bind, hr, ok_bind, hn3]
  · obtain ⟨e', he', hb⟩ := hrc.old he3
    rw [eq_of_bare hb feeDelta fun _ => rfl, hrc.eq]
    exact hp.delta h e' he'
  · rw [sum_changed _ fun a => hrc.weightAt_eq.trans (hp.weightAt a)]
    have hi := (hm h).trans mem_ancestors.symm
    split_ifs <;> grind
  · rw [sum_changed _ fun a => hrc.loadAt_eq.trans (hp.loadAt a)]
    have hi := (hmm h).trans mem_descendants.symm
    split_ifs <;> grind

lemma Consistent.prioritiseTransaction (hc : Consistent pool) (hash : Uint256)
    (nFeeDelta : Amount64) :
    ∃ pool', pool.prioritiseTransaction hash nFeeDelta = .ok pool' ∧ Consistent pool' := by
  rw [TxMemPool.prioritiseTransaction]
  dsimp only
  obtain ⟨delta, hd⟩ : ∃ d, d = (pool.mapDeltas[hash]?).getD 0 + nFeeDelta := ⟨_, rfl⟩
  rw [← hd]
  cases he : pool.mapTx[hash]? with
  | none =>
    have hx : ({ pool with mapDeltas := pool.mapDeltas.insert hash delta } :
        TxMemPool).exists_ hash = false := congrArg isSome he
    have hm : SameTxs pool { pool with mapDeltas := pool.mapDeltas.insert hash delta } :=
      ⟨fun _ => rfl, rfl, rfl⟩
    rw [if_neg (by rw [hx]; exact Bool.false_ne_true)]
    refine ⟨_, rfl, hm.consistent hc (fun h e' he' => ?_)
      ⟨hc.counts.ancestors, hc.counts.descendants⟩⟩
    dsimp only at he' ⊢
    rw [getElem?_insert, if_neg, hc.delta h e' he']
    rintro rfl
    cases he.symm.trans he'
  | some e =>
    have hx : ({ pool with mapDeltas := pool.mapDeltas.insert hash delta } :
        TxMemPool).exists_ hash = true := congrArg isSome he
    have hr := hc.repriced he nFeeDelta hd
    obtain ⟨pool1, hp1⟩ : ∃ p : TxMemPool, p = { pool with
      mapDeltas := pool.mapDeltas.insert hash delta
      mapTx := pool.mapTx.insert hash (e.updateFeeDelta delta) } := ⟨_, rfl⟩
    have he1 : pool1.mapTx[hash]? = some (e.updateFeeDelta delta) := by
      rw [hp1, getElem?_insert, if_pos rfl]
    rw [if_pos hx, modify, he, demand_some, ok_bind, ok_bind, pure_eq, ok_bind,
      ← hp1, he1, demand_some, ok_bind]
    rw [← hp1] at hr
    exact hr.consistent hc he1 (hc.keyed hash e he)

lemma consistent_empty : Consistent ({} : TxMemPool) := by
  have hn : ∀ (h : Uint256) (e : TxMemPoolEntry), ({} : TxMemPool).mapTx[h]? = some e → False :=
    fun h e he => by simp at he
  have hsp : ∀ c p, ¬ ({} : TxMemPool).Spends c p := fun c p ⟨e, he, _⟩ => hn c e he
  refine ⟨fun h e he => (hn h e he).elim, fun h e he => (hn h e he).elim, fun o tx => ?_,
    fun h hh => ?_, fun h e he => (hn h e he).elim, ⟨fun h hh => ?_, fun h _ => ?_⟩,
    fun h e he => (hn h e he).elim, fun h e he => (hn h e he).elim⟩
  · refine iff_of_false (fun h => by simp at h) ?_
    rintro ⟨h, e, he, -⟩
    exact hn h e he
  · obtain ⟨p, hp, -⟩ := TransGen.head'_iff.1 hh
    exact hsp h p hp
  · obtain ⟨e, he⟩ := exists_iff.1 hh
    exact (hn h e he).elim
  · simp

lemma Consistent.clearPrioritisation (hc : Consistent pool) (hn : pool.exists_ hash = false) :
    Consistent (pool.clearPrioritisation hash) := by
  have hm : SameTxs pool (pool.clearPrioritisation hash) := ⟨fun _ => rfl, rfl, rfl⟩
  refine hm.consistent hc (fun h e he => ?_)
    ⟨hc.counts.ancestors, hc.counts.descendants⟩
  rw [TxMemPool.clearPrioritisation, getElem?_erase, if_neg, hc.delta h e he]
  rintro rfl
  exact absurd (exists_iff.2 ⟨e, he⟩) (hn ▸ Bool.false_ne_true)

end TxMemPool

open TxMemPool

inductive PoolEvent where
  | addUnchecked (mnList : DeterministicMNList) (tx : Transaction) (nFee : Amount) (nTime : Int)
      (sigOps : Nat) (size : { n : Nat // 0 < n }) (limits : Limits) (setAncestors : SetEntries)
  | removeRecursive (origTx : Transaction)
  | removeStaged (stage : SetEntries) (updateDescendants : Bool)
  /-- One transaction of a block, in `removeForBlock`. -/
  | mined (hash : Uint256)
  | prioritiseTransaction (hash : Uint256) (nFeeDelta : Amount64)

namespace TxMemPool

section Runs
variable [ChainHash] {pool pool' : TxMemPool}

/-- A transaction is added if it conflicts with none in the pool and has no children there, with the
ancestors found for it. A mined one has no parents in the pool, since a block is in topological
order. -/
def Allowed (pool : TxMemPool) : PoolEvent → Prop
  | .addUnchecked _ tx nFee nTime sigOps size limits setAncestors => Fresh pool tx ∧
      pool.calculateMemPoolAncestors (.new tx nFee nTime sigOps size) limits true =
        .ok (setAncestors, none)
  | .removeRecursive _ => True
  | .removeStaged stage _ => (∀ x, x ∈ stage → pool.exists_ x) ∧
      ∀ c p, pool.Spends c p → p ∈ stage → c ∈ stage
  | .mined hash => pool.exists_ hash ∧ ∀ p, ¬ pool.Spends hash p
  | .prioritiseTransaction _ _ => True

variable [PropertyHash]

def handle (pool : TxMemPool) : PoolEvent → Run TxMemPool
  | .addUnchecked mnList tx nFee nTime sigOps size _ setAncestors =>
    pool.addUnchecked mnList (.new tx nFee nTime sigOps size) setAncestors
  | .removeRecursive origTx => pool.removeRecursive origTx
  | .removeStaged stage updateDescendants => pool.removeStaged stage updateDescendants
  | .mined hash => do
    let pool ← pool.removeStaged {hash} true
    return pool.clearPrioritisation hash
  | .prioritiseTransaction hash nFeeDelta => pool.prioritiseTransaction hash nFeeDelta

/-- The statistics are updated, but the payload does not decode or its masternode is not listed. -/
def Unindexable (pool : TxMemPool) : PoolEvent → Prop
  | .addUnchecked mnList tx nFee nTime sigOps size _ setAncestors =>
    indexable mnList tx.payload = false ∧
      ∃ pool', pool.addCounted (.new tx nFee nTime sigOps size) setAncestors = .ok pool' ∧
        pool'.addProTx mnList tx = .error (.fault .assertion)
  | _ => False

lemma Consistent.handle (hcn : Consistent pool) {event : PoolEvent} (ha : pool.Allowed event) :
    (∃ pool', pool.handle event = .ok pool' ∧ Consistent pool') ∨ pool.Unindexable event := by
  cases event with
  | addUnchecked mnList tx nFee nTime sigOps size limits setAncestors =>
    obtain ⟨hf, hs⟩ := ha
    cases hi : indexable mnList tx.payload with
    | true => exact .inl (hcn.addUnchecked hf nFee nTime sigOps size hs hi)
    | false =>
      obtain ⟨pool', _, hr, -⟩ := hcn.addCounted hf nFee nTime sigOps size hs
      exact .inr ⟨hi, pool', hr, addProTx_error hi⟩
  | removeRecursive origTx =>
    obtain ⟨pool', _, hr, hc', -⟩ := hcn.removeRecursive origTx
    exact .inl ⟨pool', hr, hc'⟩
  | removeStaged stage update =>
    obtain ⟨pool', hr, hc', -⟩ := hcn.removeStaged ha.1 update (.inl ha.2)
    exact .inl ⟨pool', hr, hc'⟩
  | mined hash =>
    have hin : ∀ x, x ∈ ({hash} : SetEntries) → pool.exists_ x := fun x hx =>
      (mem_singleton.1 hx) ▸ ha.1
    obtain ⟨pool', hr, hc', hd⟩ := hcn.removeStaged hin true
      (.inr ⟨rfl, fun c p hs hc => by
        rw [mem_singleton.1 hc] at hs
        exact (ha.2 p hs).elim⟩)
    have hn : pool'.exists_ hash = false := by
      refine Bool.eq_false_iff.2 fun hh => ?_
      exact (hd.exists_iff.1 hh).2 (mem_singleton.2 rfl)
    exact .inl ⟨_, by rw [TxMemPool.handle, hr, ok_bind, pure_eq],
      hc'.clearPrioritisation hn⟩
  | prioritiseTransaction hash nFeeDelta =>
    exact .inl (hcn.prioritiseTransaction hash nFeeDelta)

/-- The fees of an entry and its ancestors, without a bound on the sum. -/
noncomputable def feesWithAncestors (pool : TxMemPool) (h : Uint256) (e : TxMemPoolEntry) : Int :=
  e.getModifiedFee.toInt + ∑ a ∈ pool.ancestors h, (pool.weightAt a).2.2.1.toInt

noncomputable def feesWithDescendants (pool : TxMemPool) (h : Uint256) (e : TxMemPoolEntry) : Int :=
  e.getModifiedFee.toInt + ∑ d ∈ pool.descendants h, (pool.loadAt d).2.2.toInt

def Int64Range (n : Int) : Prop := -2 ^ 63 ≤ n ∧ n < 2 ^ 63

omit [PropertyHash] [ChainHash] in
lemma toInt_sum {ι : Type} (s : Finset ι) (f : ι → Amount64) :
    (∑ i ∈ s, f i).toInt = (∑ i ∈ s, (f i).toInt).bmod (2 ^ 64) := by
  classical
  induction s using Finset.induction_on with
  | empty => rfl
  | insert i s hi ih =>
    rw [Finset.sum_insert hi, Finset.sum_insert hi, BitVec.toInt_add, ih, Int.add_bmod_bmod]

omit [PropertyHash] [ChainHash] in
/-- A sum in 64 bits is right exactly when it needs no more. -/
lemma toInt_add_sum_iff {ι : Type} (s : Finset ι) (f : ι → Amount64) (x : Amount64) :
    (x + ∑ i ∈ s, f i).toInt = x.toInt + ∑ i ∈ s, (f i).toInt ↔
      Int64Range (x.toInt + ∑ i ∈ s, (f i).toInt) := by
  rw [BitVec.toInt_add, toInt_sum, Int.add_bmod_bmod]
  generalize x.toInt + ∑ i ∈ s, (f i).toInt = n
  constructor
  · intro h
    have hl := Int.le_bmod (x := n) (m := 2 ^ 64) (by decide)
    have hu := Int.bmod_lt (x := n) (m := 2 ^ 64) (by decide)
    rw [h] at hl hu
    exact ⟨hl, hu⟩
  · rintro ⟨hl, hu⟩
    exact Int.bmod_eq_of_le hl hu

/-- Links are those of the transactions, and the statistics of an entry are sums over its ancestors
and descendants. Those of fees are taken in 64 bits, so that they are the fees exactly when these
fit. -/
structure ExactPackages (pool : TxMemPool) : Prop where
  linked : Linked pool pool.Spends (fun h c => pool.Spends c h)
  counts : Counts pool (fun h => ∑ a ∈ pool.ancestors h, pool.weightAt a)
    (fun h => ∑ d ∈ pool.descendants h, pool.loadAt d)
  ancestorFees : ∀ (h : Uint256) (e : TxMemPoolEntry), pool.mapTx[h]? = some e →
    (e.nModFeesWithAncestors.toInt = pool.feesWithAncestors h e ↔
      Int64Range (pool.feesWithAncestors h e))
  descendantFees : ∀ (h : Uint256) (e : TxMemPoolEntry), pool.mapTx[h]? = some e →
    (e.nModFeesWithDescendants.toInt = pool.feesWithDescendants h e ↔
      Int64Range (pool.feesWithDescendants h e))

omit [PropertyHash] in
lemma Consistent.exactPackages (hc : Consistent pool) : pool.ExactPackages := by
  refine ⟨hc.linked, hc.counts, fun h e he => ?_, fun h e he => ?_⟩
  · have hf : e.nModFeesWithAncestors =
        e.getModifiedFee + ∑ a ∈ pool.ancestors h, (pool.weightAt a).2.2.1 := by
      simpa only [ancestorState, weight, Prod.snd_add, Prod.fst_add, Prod.snd_sum, Prod.fst_sum]
        using congrArg (·.2.2.1) (hc.counts.ancestors h e he)
    rw [hf]
    exact toInt_add_sum_iff _ _ _
  · have hf : e.nModFeesWithDescendants =
        e.getModifiedFee + ∑ d ∈ pool.descendants h, (pool.loadAt d).2.2 := by
      simpa only [descendantState, load, Prod.snd_add, Prod.snd_sum]
        using congrArg (·.2.2) (hc.counts.descendants h e he)
    rw [hf]
    exact toInt_add_sum_iff _ _ _

/-- Every run ends with exact packages, unless a provider transaction is added that cannot be
indexed; its statistics are updated even then. -/
theorem packages_of_run {events : List PoolEvent}
    (hallowed : Run.Guarded handle Allowed ({} : TxMemPool) events) :
    (∃ pool, events.foldlM handle ({} : TxMemPool) = .ok pool ∧ pool.ExactPackages) ∨
      ∃ pre event post pool, events = pre ++ event :: post ∧
        pre.foldlM handle ({} : TxMemPool) = .ok pool ∧ pool.ExactPackages ∧
        pool.Unindexable event := by
  rcases hallowed.progress Consistent (fun pool event hc => hc.handle) consistent_empty with
    ⟨pool, hr, hc⟩ | ⟨pre, event, post, pool, he, hr, hc, ht⟩
  · exact .inl ⟨pool, hr, hc.exactPackages⟩
  · exact .inr ⟨pre, event, post, pool, he, hr, hc.exactPackages, ht⟩

/-- After a run, an outpoint is spent by at most one transaction of the pool, `mapNextTx` has
exactly the spent outpoints, and no transaction depends on itself. -/
theorem noConflicts_of_run {events : List PoolEvent}
    (hallowed : Run.Guarded handle Allowed ({} : TxMemPool) events)
    (hr : events.foldlM handle ({} : TxMemPool) = .ok pool) :
    (∀ (h h' : Uint256) (e e' : TxMemPoolEntry) (o : OutPoint), pool.mapTx[h]? = some e →
      pool.mapTx[h']? = some e' → o ∈ e.tx.vin → o ∈ e'.tx.vin → h = h') ∧
    (∀ o : OutPoint, pool.mapNextTx[o]?.isSome ↔
      ∃ (h : Uint256) (e : TxMemPoolEntry), pool.mapTx[h]? = some e ∧ o ∈ e.tx.vin) ∧
    ∀ h, ¬ TransGen pool.Spends h h := by
  have hc : Consistent pool := by
    refine hallowed.invariant Consistent (fun pool event pool' hc ha hs => ?_) consistent_empty hr
    rcases hc.handle ha with ⟨pool1, h1, hc1⟩ | hu
    · exact Except.ok.inj (hs.symm.trans h1) ▸ hc1
    · cases event with
      | addUnchecked mnList tx nFee nTime sigOps size limits setAncestors =>
        obtain ⟨-, pool1, h1, he⟩ := hu
        rw [handle, addUnchecked_eq, h1, ok_bind] at hs
        cases he.symm.trans hs
      | _ => cases hu
  refine ⟨fun h h' e e' o he he' ho ho' => ?_, fun o => ?_, hc.acyclic⟩
  · have h1 := (hc.spent o e.tx).2 ⟨h, e, he, rfl, ho⟩
    have h2 := (hc.spent o e'.tx).2 ⟨h', e', he', rfl, ho'⟩
    rw [← hc.keyed h e he, ← hc.keyed h' e' he', some.inj (h1.symm.trans h2)]
  · rw [isSome_iff_exists]
    constructor
    · rintro ⟨tx, htx⟩
      obtain ⟨h, e, he, rfl, ho⟩ := (hc.spent o tx).1 htx
      exact ⟨h, e, he, ho⟩
    · rintro ⟨h, e, he, ho⟩
      exact ⟨e.tx, (hc.spent o e.tx).2 ⟨h, e, he, rfl, ho⟩⟩

end Runs
end TxMemPool

namespace Family

def parent : Transaction := { nVersion := 1, payload := .normal, vin := [⟨90, 0⟩], vout := [] }
def child : Transaction := { nVersion := 1, payload := .normal, vin := [⟨1, 0⟩], vout := [] }

local instance : ChainHash := tableHash [parent, child] []
local instance : PropertyHash := encodingHash

def addParent : PoolEvent := .addUnchecked {} parent 100 0 1 ⟨200, by decide⟩ {} ∅
def addChild : PoolEvent := .addUnchecked {} child 50 0 1 ⟨100, by decide⟩ {} {1}

def content (pool : TxMemPool) : List (Uint256 × List OutPoint) :=
  pool.mapTx.toList.map fun x => (x.1, x.2.tx.vin)

lemma mem_content {pool : TxMemPool} {h : Uint256} {e : TxMemPoolEntry}
    (he : pool.mapTx[h]? = some e) : (h, e.tx.vin) ∈ content pool :=
  List.mem_map.2 ⟨(h, e), ExtTreeMap.mem_toList_iff_getElem?_eq_some.2 he, rfl⟩

def found (x : Run (SetEntries × Option LimitError)) : Option (List Uint256 × Bool) :=
  x.toOption.map fun r => (r.1.toList, r.2.isNone)

lemma eq_ok_of_found {x : Run (SetEntries × Option LimitError)} {s : SetEntries}
    (h : found x = some (s.toList, true)) : x = .ok (s, none) := by
  obtain ⟨⟨s', err⟩, rfl, hq⟩ := exists_of_map_toOption h
  obtain ⟨hs, he⟩ := Prod.mk.inj hq
  obtain rfl := ExtTreeSet.toList_inj.1 hs
  obtain rfl := isNone_iff_eq_none.1 he
  rfl

lemma allowed_parent : TxMemPool.Allowed {} addParent := by
  refine ⟨⟨by simp, by simp, fun h e he => by simp at he, by decide +kernel⟩, ?_⟩
  exact eq_ok_of_found (by decide +kernel)

lemma allowed_child {pool : TxMemPool}
    (hp : [addParent].foldlM handle {} = .ok pool) : pool.Allowed addChild := by
  have ha : ([addParent].foldlM handle {}).toOption.map (fun pool =>
      (content pool, pool.mapNextTx.keys, found (pool.calculateMemPoolAncestors
        (.new child 50 0 1 ⟨100, by decide⟩) {} true))) =
      some ([(1, [⟨90, 0⟩])], [⟨90, 0⟩], some ([1], true)) := by decide +kernel
  rw [hp] at ha
  obtain ⟨hc, hn, hf⟩ : _ ∧ _ ∧ _ := by
    simpa only [Prod.mk.injEq] using some.inj ha
  have hh : child.getHash = 2 := by decide +kernel
  refine ⟨⟨?_, fun o ho => ?_, fun h e he => ?_, by decide +kernel⟩, eq_ok_of_found hf⟩
  · rw [hh]
    refine eq_none_iff_forall_not_mem.2 fun e he => ?_
    simpa [hc] using mem_content he
  · refine ExtTreeMap.getElem?_eq_none fun hm => ?_
    rw [← ExtTreeMap.mem_keys, hn] at hm
    simp [child] at ho
    simp [ho] at hm
  · have := mem_content he
    rw [hc, List.mem_singleton] at this
    rw [hh, (Prod.mk.inj this).2]
    decide

lemma allowed_mined {pool : TxMemPool} (hl : [addParent, addChild,
      .prioritiseTransaction 1 7].foldlM handle {} = .ok pool) :
    pool.Allowed (.mined 1) := by
  have ha : ([addParent, addChild, .prioritiseTransaction 1 7].foldlM handle
      {}).toOption.map (fun pool => (content pool, pool.exists_ 1, pool.exists_ 90)) =
      some ([(1, [⟨90, 0⟩]), (2, [⟨1, 0⟩])], true, false) := by decide +kernel
  rw [hl] at ha
  obtain ⟨hc, ho, hn⟩ : _ ∧ _ ∧ _ := by
    simpa only [Prod.mk.injEq] using some.inj ha
  refine ⟨ho, fun p => ?_⟩
  rintro ⟨e, he, hp, hm⟩
  have hv : e.tx.vin = [⟨90, 0⟩] := by simpa [hc] using mem_content he
  rw [hv, List.map_singleton, List.mem_singleton] at hm
  rw [hm] at hp
  cases hn.symm.trans hp

lemma guarded_added : Run.Guarded handle TxMemPool.Allowed {} ([addParent] ++ [addChild]) := by
  have hr : Run.Guarded handle TxMemPool.Allowed {} ([] ++ [addParent]) := by
    refine Run.Guarded.concat (.of_forall fun a ha => absurd ha List.not_mem_nil) fun pool hp => ?_
    cases hp
    exact allowed_parent
  exact hr.concat fun pool hp => allowed_child hp

lemma guarded_family : Run.Guarded handle TxMemPool.Allowed {}
    ([addParent, addChild, .prioritiseTransaction 1 7] ++ [.mined 1]) := by
  have hp : Run.Guarded handle TxMemPool.Allowed {}
      (([addParent] ++ [addChild]) ++ [.prioritiseTransaction 1 7]) :=
    guarded_added.concat fun _ _ => trivial
  exact hp.concat fun pool hl => allowed_mined hl

theorem packages_of_family :
    (∃ pool, ([addParent, addChild, .prioritiseTransaction 1 7] ++ [PoolEvent.mined 1]).foldlM
      handle ({} : TxMemPool) = .ok pool ∧ pool.ExactPackages) ∨
    ∃ pre event post pool, [addParent, addChild, .prioritiseTransaction 1 7] ++
    [PoolEvent.mined 1] = pre ++ event :: post ∧
      pre.foldlM handle ({} : TxMemPool) = .ok pool ∧ pool.ExactPackages ∧
      pool.Unindexable event :=
  packages_of_run guarded_family

/-- Makes the fee of the parent the largest amount. -/
def prioritiseParent : PoolEvent := .prioritiseTransaction 1 (.ofInt 64 (2 ^ 63 - 101))

/-- The fees with descendants are negative, although both transactions pay. -/
theorem fees_overflow :
    Run.Guarded handle TxMemPool.Allowed {} ([addParent, addChild] ++ [prioritiseParent]) ∧
    ∃ pool e, ([addParent, addChild] ++ [prioritiseParent]).foldlM handle {} = .ok pool ∧
      pool.mapTx[(1 : Uint256)]? = some e ∧ pool.feesWithDescendants 1 e = 2 ^ 63 + 49 ∧
      e.nModFeesWithDescendants.toInt = -2 ^ 63 + 49 := by
  refine ⟨guarded_added.concat fun _ _ => trivial, ?_⟩
  obtain ⟨pool, hr, hp⟩ := Run.exists_of_map_toOption
    (b := ([(1, [⟨90, 0⟩]), (2, [⟨1, 0⟩])], some (2 ^ 63 - 1, -2 ^ 63 + 49), 50, true, false))
    (f := fun pool => (content pool, (pool.mapTx[(1 : Uint256)]?).map fun e =>
      (e.getModifiedFee.toInt, e.nModFeesWithDescendants.toInt), (pool.loadAt 2).2.2.toInt,
      pool.exists_ 1, pool.exists_ 90))
    (show (([addParent, addChild] ++ [prioritiseParent]).foldlM handle {}).toOption.map _ = _ by
      decide +kernel)
  obtain ⟨hc, he, hl, h1, h90⟩ : _ ∧ _ ∧ _ ∧ _ ∧ _ := by simpa only [Prod.mk.injEq] using hp
  obtain ⟨e, he, hv⟩ := map_eq_some_iff.1 he
  obtain ⟨hm, hn⟩ := Prod.mk.inj hv
  have hsp : ∀ c p, pool.Spends c p → c = 2 ∧ p = 1 := by
    rintro c p ⟨e', he', hx, hi⟩
    have hin := mem_content he'
    simp only [hc, List.mem_cons, List.not_mem_nil, or_false, Prod.mk.injEq] at hin
    rcases hin with ⟨-, hi'⟩ | ⟨rfl, hi'⟩
    · rw [hi', List.map_singleton, List.mem_singleton] at hi
      rw [hi] at hx
      cases h90.symm.trans hx
    · rw [hi', List.map_singleton, List.mem_singleton] at hi
      exact ⟨rfl, hi⟩
  have hd : pool.descendants 1 = {2} := by
    ext d
    rw [mem_descendants, Finset.mem_singleton]
    constructor
    · intro hp
      obtain ⟨b, hs, -⟩ := TransGen.head'_iff.1 hp
      exact (hsp d b hs).1
    · rintro rfl
      obtain ⟨⟨h2, e2⟩, hm2, hq⟩ := List.mem_map.1
        (show ((2 : Uint256), [(⟨1, 0⟩ : OutPoint)]) ∈ content pool by rw [hc]; decide)
      obtain ⟨rfl, hi⟩ := Prod.mk.inj hq
      exact .single ⟨e2, ExtTreeMap.mem_toList_iff_getElem?_eq_some.1 hm2, h1, by rw [hi]; decide⟩
  refine ⟨pool, e, hr, he, ?_, hn⟩
  rw [feesWithDescendants, hd, Finset.sum_singleton, hm, hl]
  decide

theorem family_noConflicts : ∃ pool, ([addParent] ++ [addChild]).foldlM handle {} = .ok pool ∧
    ∀ h, ¬ TransGen pool.Spends h h := by
  obtain ⟨pool, hr, -⟩ := Run.exists_of_map_toOption (b := 2) (f := fun pool => pool.mapTx.size)
    (show (([addParent] ++ [addChild]).foldlM handle {}).toOption.map _ = _ by decide +kernel)
  exact ⟨pool, hr, (noConflicts_of_run guarded_added hr).2.2⟩

end Family
end Trivechain.Mempool
