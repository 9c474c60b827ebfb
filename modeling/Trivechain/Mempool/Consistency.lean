import Trivechain.Mempool.Packages

/-!
# Consistent pools

A pool is consistent when its links and statistics are those of its transactions. Sets of entries
that contain all descendants of their members can be removed from it; if the statistics of
descendants are updated as well, it is enough that they contain all ancestors, as in the removal of
a mined transaction whose parents are gone.
-/

namespace Trivechain.Mempool
open Evo List Finset
open Relation (TransGen ReflTransGen)
open Std (ExtTreeMap ExtTreeSet)
open Run Maps TxMemPoolEntry

def decodes : TxPayload → Bool
  | .providerRegister ptx => ptx.isSome
  | .providerUpdateService ptx => ptx.isSome
  | .providerUpdateRegistrar ptx => ptx.isSome
  | .providerUpdateRevoke ptx => ptx.isSome
  | _ => true

namespace TxMemPool
variable [ChainHash] {pool pool' : TxMemPool} {h : Uint256}

structure Consistent (pool : TxMemPool) : Prop where
  keyed : ∀ (h : Uint256) (e : TxMemPoolEntry), pool.mapTx[h]? = some e → e.tx.getHash = h
  decodes : ∀ (h : Uint256) (e : TxMemPoolEntry), pool.mapTx[h]? = some e →
    decodes e.tx.payload
  spent : ∀ (o : OutPoint) (tx : Transaction), pool.mapNextTx[o]? = some tx ↔
    ∃ (h : Uint256) (e : TxMemPoolEntry), pool.mapTx[h]? = some e ∧ e.tx = tx ∧ o ∈ tx.vin
  acyclic : ∀ h, ¬ TransGen pool.Spends h h
  delta : ∀ (h : Uint256) (e : TxMemPoolEntry), pool.mapTx[h]? = some e →
    e.feeDelta = (pool.mapDeltas[h]?).getD 0
  linked : Linked pool pool.Spends (fun h c => pool.Spends c h)
  counts : Counts pool (fun h => ∑ a ∈ pool.ancestors h, pool.weightAt a)
    (fun h => ∑ d ∈ pool.descendants h, pool.loadAt d)

lemma Consistent.childrenLinked (hcons : Consistent pool) : pool.ChildrenLinked :=
  hcons.linked.childrenLinked

lemma Consistent.parentsLinked (hcons : Consistent pool) : pool.ParentsLinked :=
  hcons.linked.parentsLinked

lemma Consistent.updateForRemoveFromMempool (hcons : Consistent pool) {stage : SetEntries}
    (hs : ∀ x, x ∈ stage → pool.exists_ x) (update : Bool) :
    ∃ pool', pool.updateForRemoveFromMempool stage update = .ok pool' ∧
      Recounted pool pool' ∧ Linked pool' (fun h p => pool.Spends h p ∧ ¬ (p ∈ stage ∧ h ∉ stage))
        (fun h c => pool.Spends c h ∧ c ∉ stage) ∧ Counts pool'
        (fun h => ∑ a ∈ pool.ancestors h \ (if update then stage.toList.toFinset else ∅),
          pool.weightAt a)
        (fun h => ∑ d ∈ pool.descendants h \ stage.toList.toFinset, pool.loadAt d) := by
  have hS : ∀ x, x ∈ stage ↔ x ∈ stage.toList.toFinset := fun x => by
    rw [mem_toFinset, ExtTreeSet.mem_toList]
  -- the statistics of descendants
  obtain ⟨pool1, hn1, hr1, hl1, hc1⟩ : ∃ pool1,
      pool.updateDescendantStates stage update = .ok pool1 ∧ Recounted pool pool1 ∧
        pool1.mapLinks = pool.mapLinks ∧ Counts pool1
        (fun h => ∑ a ∈ pool.ancestors h \ (if update then stage.toList.toFinset else ∅),
          pool.weightAt a)
        (fun h => ∑ d ∈ pool.descendants h, pool.loadAt d) := by
    cases update with
    | true =>
      exact updateDescendants_loop (.refl _) hcons.acyclic hcons.childrenLinked hs hcons.counts
    | false => exact ⟨pool, rfl, .refl _, rfl, by simpa using hcons.counts⟩
  obtain ⟨pool2, hn2, hr2, hl2, hc2⟩ := updateAncestors_loop hr1 hcons.keyed
    (hcons.linked.congr_pool hr1.exists_eq hl1) hs hc1
  obtain ⟨pool3, hn3, hr3, hm3, hl3⟩ := updateChildren_loop (hr1.trans hr2) hS hs hl2
  refine ⟨pool3, ?_, (hr1.trans hr2).trans hr3, hl3.congr (fun h p _ => ?_) fun h c _ => ?_,
    ⟨fun h e he => hc2.ancestors h e (hm3 ▸ he), fun h e he =>
      hc2.descendants h e (hm3 ▸ he)⟩⟩
  · rw [TxMemPool.updateForRemoveFromMempool, hn1, ok_bind, hn2, ok_bind, hn3]
  · rw [hS, hS]
  · rw [hS]

variable [PropertyHash]

structure Without (pool pool' : TxMemPool) (S : Finset Uint256) : Prop where
  mapTx : ∀ h : Uint256, pool'.mapTx[h]? = if h ∈ S then none else pool.mapTx[h]?
  mapLinks : ∀ h : Uint256, pool'.mapLinks[h]? = if h ∈ S then none else pool.mapLinks[h]?
  mapNextTx : ∀ (o : OutPoint) (tx : Transaction), pool'.mapNextTx[o]? = some tx ↔
    pool.mapNextTx[o]? = some tx ∧
      ∀ r ∈ S, ∀ e : TxMemPoolEntry, pool.mapTx[r]? = some e → o ∉ e.tx.vin
  mapDeltas : pool'.mapDeltas = pool.mapDeltas

lemma removeProTx_ok (pool : TxMemPool) {tx : Transaction} (hd : decodes tx.payload) :
    ∃ pool', pool.removeProTx tx = .ok pool' ∧ pool'.mapTx = pool.mapTx ∧
      pool'.mapLinks = pool.mapLinks ∧ pool'.mapNextTx = pool.mapNextTx ∧
      pool'.mapDeltas = pool.mapDeltas := by
  rw [removeProTx]
  generalize tx.payload = payload at hd ⊢
  cases payload with
  | providerRegister ptx =>
    obtain ⟨proTx, rfl⟩ := Option.isSome_iff_exists.1 hd
    refine ⟨_, rfl, ?_⟩
    dsimp only
    split_ifs <;> exact ⟨rfl, rfl, rfl, rfl⟩
  | providerUpdateService ptx =>
    obtain ⟨proTx, rfl⟩ := Option.isSome_iff_exists.1 hd
    exact ⟨_, rfl, rfl, rfl, rfl, rfl⟩
  | providerUpdateRegistrar ptx =>
    obtain ⟨proTx, rfl⟩ := Option.isSome_iff_exists.1 hd
    exact ⟨_, rfl, rfl, rfl, rfl, rfl⟩
  | providerUpdateRevoke ptx =>
    obtain ⟨proTx, rfl⟩ := Option.isSome_iff_exists.1 hd
    exact ⟨_, rfl, rfl, rfl, rfl, rfl⟩
  | normal => exact ⟨_, rfl, rfl, rfl, rfl, rfl⟩
  | coinbase _ => exact ⟨_, rfl, rfl, rfl, rfl, rfl⟩
  | quorumCommitment _ => exact ⟨_, rfl, rfl, rfl, rfl, rfl⟩
  | unknown _ => exact ⟨_, rfl, rfl, rfl, rfl, rfl⟩

lemma removeUnchecked_ok {e : TxMemPoolEntry} (he : pool.mapTx[h]? = some e)
    (hd : decodes e.tx.payload) :
    ∃ pool', pool.removeUnchecked h = .ok pool' ∧ pool'.mapTx = pool.mapTx.erase h ∧
      pool'.mapLinks = pool.mapLinks.erase h ∧
      pool'.mapNextTx = e.tx.vin.foldl (fun m prevout => m.erase prevout) pool.mapNextTx ∧
      pool'.mapDeltas = pool.mapDeltas := by
  obtain ⟨pool1, hr, ht, ha, hp, hm⟩ := removeProTx_ok
    { pool with mapNextTx := e.tx.vin.foldl (fun m prevout => m.erase prevout) pool.mapNextTx } hd
  refine ⟨{ pool1 with mapLinks := pool1.mapLinks.erase h, mapTx := pool1.mapTx.erase h }, ?_,
    congrArg (·.erase h) ht, congrArg (·.erase h) ha, hp,
    hm⟩
  rw [removeUnchecked, he, demand_some, ok_bind]
  dsimp only
  rw [hr]
  rfl

variable {stage : SetEntries} {update : Bool}

lemma foldlM_removeUnchecked (pool : TxMemPool)
    (hs : ∀ x, x ∈ stage → ∃ e, pool.mapTx[x]? = some e ∧ decodes e.tx.payload) :
    ∃ pool', stage.toList.foldlM (fun pool it => pool.removeUnchecked it) pool = .ok pool' ∧
      Without pool pool' stage.toList.toFinset := by
  refine foldlM_of_nodup (fun done pool' => Without pool pool' done) nodup_toList
    ⟨by simp, by simp, by simp, rfl⟩ ?_
  rintro done r pool1 hr hdn hw
  obtain ⟨e, he, hd⟩ := hs r (ExtTreeSet.mem_toList.1 hr)
  have he1 : pool1.mapTx[r]? = some e := by rw [hw.mapTx, if_neg hdn, he]
  obtain ⟨pool2, hrn, ht, ha, hp, hm⟩ := removeUnchecked_ok he1 hd
  refine ⟨pool2, hrn, fun h => ?_, fun h => ?_, fun o tx => ?_, hm.trans hw.mapDeltas⟩
  · rw [ht, getElem?_erase, hw.mapTx]
    grind
  · rw [ha, getElem?_erase, hw.mapLinks]
    grind
  · rw [hp, getElem?_foldl_erase, forall_mem_insert]
    split_ifs with hmm
    · simp only [false_iff]
      rintro ⟨-, hn, -⟩
      exact hn e he hmm
    · rw [hw.mapNextTx]
      have hn : ∀ e', pool.mapTx[r]? = some e' → o ∉ e'.tx.vin := fun e' he' => by
        obtain rfl := Option.some.inj (he.symm.trans he')
        exact hmm
      tauto

/-- The set has all descendants of its members, or all their ancestors if descendants are
updated. -/
def Removable (pool : TxMemPool) (stage : SetEntries) (updateDescendants : Bool) : Prop :=
  (∀ c p, pool.Spends c p → p ∈ stage → c ∈ stage) ∨
    (updateDescendants = true ∧ ∀ c p, pool.Spends c p → c ∈ stage → p ∈ stage)

section

omit [ChainHash] [PropertyHash]

lemma Removable.oneSided (hc : pool.Removable stage update) :
    Dag.OneSided pool.Spends (· ∈ stage) :=
  hc.imp id And.right

lemma Removable.ancestors_sdiff (hc : pool.Removable stage update) (hm : h ∉ stage) :
    pool.ancestors h \ (if update then stage.toList.toFinset else ∅) =
      pool.ancestors h \ stage.toList.toFinset := by
  cases update with
  | true => rfl
  | false =>
    have hd := hc.resolve_right (by simp)
    rw [if_neg Bool.false_ne_true, Finset.sdiff_empty, Finset.sdiff_eq_self_iff_disjoint.2]
    refine disjoint_left.2 fun a ha hS => hm ?_
    rw [mem_toFinset, ExtTreeSet.mem_toList] at hS
    rw [mem_ancestors] at ha
    induction ha using TransGen.head_induction_on with
    | single hs => exact hd _ _ hs hS
    | head hs _ ih => exact hd _ _ hs (by_contra fun hx => hx (ih hx))

end

variable (hcons : Consistent pool)
include hcons

omit [PropertyHash] in
lemma Consistent.spent_without {pool1 : TxMemPool} (hc : Recounted pool pool1) {S : SetEntries}
    (hw : Without pool1 pool' S.toList.toFinset)
    (hd : Reduced pool pool' S) (o : OutPoint) (tx : Transaction) : pool'.mapNextTx[o]? = some tx ↔
      ∃ (h : Uint256) (e : TxMemPoolEntry), pool'.mapTx[h]? = some e ∧ e.tx = tx ∧ o ∈ tx.vin := by
  rw [hw.mapNextTx, hc.eq]
  dsimp only
  rw [hcons.spent]
  constructor
  · rintro ⟨⟨h, e, he, rfl, ho⟩, hn⟩
    obtain ⟨e1, he1, hb1⟩ := hc.new he
    have hm : h ∉ S := fun hm => by
      refine hn h (by rwa [mem_toFinset, ExtTreeSet.mem_toList]) e1 he1 ?_
      rwa [tx_eq_of_bare hb1]
    obtain ⟨e', he', hb⟩ := hd.new hm he
    exact ⟨h, e', he', tx_eq_of_bare hb, ho⟩
  · rintro ⟨h, e', he', rfl, ho⟩
    obtain ⟨hm, e, he, hb⟩ := hd.old he'
    have ht := tx_eq_of_bare hb
    refine ⟨⟨h, e, he, ht.symm, ho⟩, fun r hr e1 he1 hv => hm ?_⟩
    -- two transactions that spend the outpoint are the same
    obtain ⟨e0, he0, hb0⟩ := hc.old he1
    rw [tx_eq_of_bare hb0] at hv
    have h1 := (hcons.spent o e0.tx).2 ⟨r, e0, he0, rfl, hv⟩
    have h2 := (hcons.spent o e.tx).2 ⟨h, e, he, rfl, ht ▸ ho⟩
    have hq : e0.tx = e.tx := Option.some.inj (h1.symm.trans h2)
    have hh : r = h := by rw [← hcons.keyed r e0 he0, hq, hcons.keyed h e he]
    rwa [← hh, ← ExtTreeSet.mem_toList, ← mem_toFinset]

lemma Consistent.removeStaged (hs : ∀ x, x ∈ stage → pool.exists_ x)
    (update : Bool) (hcl : pool.Removable stage update) :
    ∃ pool', pool.removeStaged stage update = .ok pool' ∧ Consistent pool' ∧
      Reduced pool pool' stage := by
  obtain ⟨pool1, hr1, hrc, hl, hc⟩ := hcons.updateForRemoveFromMempool hs update
  obtain ⟨pool', hr2, hw⟩ := foldlM_removeUnchecked pool1 fun x hx => by
    obtain ⟨e, he⟩ := exists_iff.1 (hs x hx)
    obtain ⟨e1, he1, hb⟩ := hrc.new he
    exact ⟨e1, he1, tx_eq_of_bare hb ▸ hcons.decodes x e he⟩
  have ha : ∀ h : Uint256, pool'.mapTx[h]? = if h ∈ stage then none else pool1.mapTx[h]? :=
    fun h => by simp [hw.mapTx]
  have hmp : ∀ h : Uint256, pool'.mapLinks[h]? = if h ∈ stage then none else pool1.mapLinks[h]? :=
    fun h => by simp [hw.mapLinks]
  have hr : Reduced pool pool' stage := by
    refine ⟨fun h => ?_, hw.mapDeltas.trans (by rw [hrc.eq])⟩
    rw [ha]
    split_ifs
    · rfl
    · exact hrc.bare h
  refine ⟨pool', by rw [TxMemPool.removeStaged, hr1, ok_bind, hr2], ?_, hr⟩
  refine ⟨fun h e' he' => ?_, fun h e' he' => ?_, hcons.spent_without hrc hw hr, fun h ht => ?_,
    fun h e' he' => ?_, ⟨fun h hh => ?_, fun h hh => ?_⟩, ⟨fun h e' he' => ?_, fun h e' he' => ?_⟩⟩
  · obtain ⟨-, e, he, hb⟩ := hr.old he'
    exact tx_eq_of_bare hb ▸ hcons.keyed h e he
  · obtain ⟨-, e, he, hb⟩ := hr.old he'
    exact tx_eq_of_bare hb ▸ hcons.decodes h e he
  · exact hcons.acyclic h ((Dag.transGen_remove hcl.oneSided hr.spends_iff).1 ht).1
  · obtain ⟨-, e, he, hb⟩ := hr.old he'
    rw [hr.mapDeltas, ← hcons.delta h e he]
    exact eq_of_bare hb TxMemPoolEntry.feeDelta fun _ => rfl
  · obtain ⟨hold, hm⟩ := hr.exists_iff.1 hh
    obtain ⟨l, hk, hp, hc⟩ := hl.some h (hrc.exists_eq ▸ hold)
    refine ⟨l, by rw [hmp, if_neg hm, hk], fun p => (hp p).trans ?_,
      fun c => (hc c).trans ?_⟩
    · rw [hr.spends_iff]
      tauto
    · rw [hr.spends_iff]
      tauto
  · rw [hmp]
    split_ifs with hm
    · rfl
    · refine hl.none h ?_
      rw [hrc.exists_eq]
      cases hold : pool.exists_ h with
      | false => rfl
      | true => cases hh.symm.trans (hr.exists_iff.2 ⟨hold, hm⟩)
  · obtain ⟨hm, -⟩ := hr.old he'
    rw [ha, if_neg hm] at he'
    rw [hr.sum_ancestors hcl.oneSided hm, ← hcl.ancestors_sdiff hm]
    exact hc.ancestors h e' he'
  · obtain ⟨hm, -⟩ := hr.old he'
    rw [ha, if_neg hm] at he'
    rw [hr.sum_descendants hcl.oneSided hm]
    exact hc.descendants h e' he'

section

omit [PropertyHash]

lemma Consistent.removalRoots (tx : Transaction) :
    ∃ roots, pool.removalRoots tx = .ok roots ∧ (∀ x, x ∈ roots → pool.exists_ x) ∧
      (pool.exists_ tx.getHash → ∀ x, x ∈ roots ↔ x = tx.getHash) := by
  rw [TxMemPool.removalRoots]
  split_ifs with hi
  · refine ⟨_, rfl, fun x hx => ?_, fun _ x => mem_singleton⟩
    rw [mem_singleton.1 hx]
    exact hi
  · refine Exists.imp (fun roots hr => ⟨hr.1, hr.2, fun hi' => absurd hi' hi⟩)
      (foldlM_of_nodup (fun _ (roots : SetEntries) => ∀ x, x ∈ roots → pool.exists_ x)
        (nodup_range (n := tx.vout.length)) (b := ∅)
        (fun x hx => absurd hx ExtTreeSet.not_mem_empty) ?_)
    rintro _ i roots - - ht
    cases hn : pool.mapNextTx[(⟨tx.getHash, i⟩ : OutPoint)]? with
    | none => exact ⟨roots, rfl, ht⟩
    | some next =>
      obtain ⟨h, e, he, rfl, -⟩ := (hcons.spent _ next).1 hn
      have hex : pool.exists_ e.tx.getHash := by
        rw [hcons.keyed h e he]
        exact exists_iff.2 ⟨e, he⟩
      refine ⟨roots.insert e.tx.getHash, by simp [Run.ensure, hex], fun x hx => ?_⟩
      rcases mem_insert.1 hx with rfl | hx
      · exact hex
      · exact ht x hx

lemma Consistent.allDescendants {its : SetEntries} (hi : ∀ x, x ∈ its → pool.exists_ x) :
    ∃ s, pool.allDescendants its = .ok s ∧
      ∀ y, y ∈ s ↔ ∃ x, x ∈ its ∧ ReflTransGen pool.Spends y x := by
  have he : ∀ {x y}, pool.exists_ x → ReflTransGen pool.Spends y x → pool.exists_ y := by
    intro x y hx hp
    rcases hp.cases_head with rfl | ⟨c, hc, -⟩
    · exact hx
    · exact hc.left
  obtain ⟨s, hn, -, hs⟩ := foldlM_of_nodup
    (fun done (s : SetEntries) => (∀ x ∈ done, pool.exists_ x) ∧
      ∀ y, y ∈ s ↔ ∃ x ∈ done, ReflTransGen pool.Spends y x)
    (f := fun setAllRemoves it => pool.calculateDescendants it setAllRemoves)
    (nodup_toList (t := its)) (b := ∅) ⟨by simp, fun y => by simp⟩ (by
      rintro done x s hx - ⟨hd, hs⟩
      rw [ExtTreeSet.mem_toList] at hx
      have hsn : ∀ y, y ∈ s → pool.exists_ y := fun y hy => by
        obtain ⟨z, hz, hp⟩ := (hs y).1 hy
        exact he (hd z hz) hp
      obtain ⟨s', hn, hs'⟩ := calculateDescendants_spec hcons.childrenLinked (hi x hx) hsn
        fun y z hy hzy => by
          obtain ⟨r, hr, hp⟩ := (hs y).1 hy
          exact (hs z).2 ⟨r, hr, hp.head hzy⟩
      refine ⟨s', hn, forall_mem_insert .. |>.2 ⟨hi x hx, hd⟩, fun y => ?_⟩
      rw [hs', hs, exists_mem_insert, or_comm])
  refine ⟨s, hn, fun y => (hs y).trans ?_⟩
  simp only [mem_toFinset, ExtTreeSet.mem_toList]

end

lemma Consistent.removeRecursive (tx : Transaction) :
    ∃ pool' stage, pool.removeRecursive tx = .ok pool' ∧ Consistent pool' ∧
      Reduced pool pool' stage ∧
      (pool.exists_ tx.getHash → ∀ y, y ∈ stage ↔ ReflTransGen pool.Spends y tx.getHash) := by
  obtain ⟨roots, ho, hi, hrt⟩ := hcons.removalRoots tx
  obtain ⟨stage, hs, hm⟩ := hcons.allDescendants hi
  have he : ∀ x, x ∈ stage → pool.exists_ x := fun x hx => by
    obtain ⟨r, hr, ht⟩ := (hm x).1 hx
    rcases ht.cases_head with rfl | ⟨c, hc, -⟩
    · exact hi _ hr
    · exact hc.left
  obtain ⟨pool', hn, hc', hd⟩ := hcons.removeStaged he false (.inl fun c p hcp hp => by
      obtain ⟨r, hr, ht⟩ := (hm p).1 hp
      exact (hm c).2 ⟨r, hr, ht.head hcp⟩)
  refine ⟨pool', stage, ?_, hc', hd, fun htx y => ?_⟩
  · rw [TxMemPool.removeRecursive, ho, ok_bind, hs, ok_bind, hn]
  · rw [hm]
    constructor
    · rintro ⟨x, hx, ht⟩
      rwa [(hrt htx x).1 hx] at ht
    · exact fun ht => ⟨_, (hrt htx _).2 rfl, ht⟩

end TxMemPool
end Trivechain.Mempool
