import Trivechain.Lib.Dag
import Trivechain.Mempool.Operations

/-!
# Ancestors and descendants in the pool

A transaction in the pool that spends an output of another one there has it as a parent. The
searches of the pool follow the links, and find all ancestors or descendants when the links are
those of the transactions. Without limits the search for ancestors does not stop early.
-/

namespace Trivechain.Mempool
open Evo List Maps
open Relation (TransGen ReflTransGen)
open Std (ExtTreeMap ExtTreeSet)

namespace TxMemPool
variable {pool : TxMemPool} {h p : Uint256}

/-- Both are in the pool, and the first spends an output of the second. -/
def Spends (pool : TxMemPool) (c p : Uint256) : Prop :=
  ∃ e, pool.mapTx[c]? = some e ∧ pool.exists_ p ∧ p ∈ e.tx.vin.map OutPoint.hash

def nodes (pool : TxMemPool) : Finset Uint256 := pool.mapTx.keys.toFinset

lemma exists_iff : pool.exists_ h ↔ ∃ e, pool.mapTx[h]? = some e := Option.isSome_iff_exists

lemma mem_nodes : h ∈ pool.nodes ↔ pool.exists_ h := by
  rw [nodes, mem_toFinset, ExtTreeMap.mem_keys, ExtTreeMap.mem_iff_isSome_getElem?, exists_]

lemma card_nodes : pool.nodes.card = pool.mapTx.size := by
  rw [nodes, toFinset_card_of_nodup ExtTreeMap.nodup_keys, ExtTreeMap.length_keys]

variable {seen stage : SetEntries} {start : Uint256 → Prop} {fuel : Nat}

lemma card_unseen_le : {y ∈ pool.nodes | y ∉ seen}.card ≤ pool.mapTx.size :=
  card_nodes ▸ Finset.card_filter_le ..

lemma Spends.left (hs : pool.Spends h p) : pool.exists_ h := let ⟨e, he, _⟩ := hs
  exists_iff.2 ⟨e, he⟩

lemma Spends.right (hs : pool.Spends h p) : pool.exists_ p := let ⟨_, _, hp, _⟩ := hs
  hp

def ParentsLinked (pool : TxMemPool) : Prop :=
  ∀ h, pool.exists_ h → ∃ l, pool.mapLinks[h]? = some l ∧ ∀ p, p ∈ l.parents ↔ pool.Spends h p

def ChildrenLinked (pool : TxMemPool) : Prop :=
  ∀ h, pool.exists_ h → ∃ l, pool.mapLinks[h]? = some l ∧ ∀ c, c ∈ l.children ↔ pool.Spends c h

lemma ParentsLinked.getMemPoolParents (hl : pool.ParentsLinked) (hh : pool.exists_ h) :
    ∃ s, pool.getMemPoolParents h = .ok s ∧ ∀ p, p ∈ s ↔ pool.Spends h p := by
  obtain ⟨l, hl, hp⟩ := hl h hh
  exact ⟨l.parents, by rw [TxMemPool.getMemPoolParents, hl]; rfl, hp⟩

lemma ChildrenLinked.getMemPoolChildren (hl : pool.ChildrenLinked) (hh : pool.exists_ h) :
    ∃ s, pool.getMemPoolChildren h = .ok s ∧ ∀ c, c ∈ s ↔ pool.Spends c h := by
  obtain ⟨l, hl, hc⟩ := hl h hh
  exact ⟨l.children, by rw [TxMemPool.getMemPoolChildren, hl]; rfl, hc⟩

lemma mem_foldl_stage {ks : List Uint256} :
    h ∈ ks.foldl (fun stage k => if k ∈ seen then stage else stage.insert k) stage ↔
      h ∈ stage ∨ (h ∈ ks ∧ h ∉ seen) := by
  induction ks generalizing stage with
  | nil => simp
  | cons k ks ih =>
    rw [foldl_cons, ih, mem_cons]
    split_ifs with hk
    · grind
    · grind [mem_insert]

lemma eq_empty_of_card_eq_zero {R : Uint256 → Uint256 → Prop} (hf : Dag.Front R start stage seen)
    (hn : ∀ x, x ∈ stage → pool.exists_ x) (hc : {y ∈ pool.nodes | y ∉ seen}.card ≤ 0) :
    stage.toList.head? = none := by
  cases hm : stage.toList.head? with
  | none => rfl
  | some x =>
    have hx := ExtTreeSet.mem_toList.1 (mem_of_mem_head? hm)
    have he := Finset.card_eq_zero.1 (Nat.le_zero.1 hc)
    have : x ∈ ({y ∈ pool.nodes | y ∉ seen} : Finset Uint256) :=
      Finset.mem_filter.2 ⟨mem_nodes.2 (hn x hx), hf.fresh x hx⟩
    simp [he] at this

lemma not_mem_of_head? (hm : stage.toList.head? = none) (x : Uint256) : x ∉ stage := by
  rw [← ExtTreeSet.mem_toList, head?_eq_none_iff.1 hm]
  exact not_mem_nil

lemma descendantLoop_done (hm : stage.toList.head? = none) :
    pool.descendantLoop fuel stage seen = .ok seen := by
  rw [descendantLoop.eq_def]
  simp only [hm]

lemma descendantLoop_spec (hl : pool.ChildrenLinked) (ht : ∀ x, start x → pool.exists_ x)
    (hf : Dag.Front (fun x y => pool.Spends y x) start stage seen)
    (hfl : {y ∈ pool.nodes | y ∉ seen}.card ≤ fuel) :
    ∃ r, pool.descendantLoop fuel stage seen = .ok r ∧
      ∀ y, y ∈ r ↔ ∃ x, start x ∧ ReflTransGen (fun x y => pool.Spends y x) x y := by
  have hn : ∀ {stage seen}, Dag.Front (fun x y => pool.Spends y x) start stage seen →
      ∀ x, x ∈ stage → pool.exists_ x := fun hf x hx => by
    obtain ⟨s, hs, hp⟩ := hf.reached x (.inr hx)
    rcases hp.cases_tail with rfl | ⟨c, -, hc⟩
    · exact ht _ hs
    · exact hc.left
  induction fuel generalizing stage seen with
  | zero =>
    have hm := eq_empty_of_card_eq_zero hf (hn hf) hfl
    exact ⟨seen, descendantLoop_done hm, fun y => hf.mem_iff (not_mem_of_head? hm)⟩
  | succ fuel ih =>
    cases hm : stage.toList.head? with
    | none => exact ⟨seen, descendantLoop_done hm, fun y => hf.mem_iff (not_mem_of_head? hm)⟩
    | some it =>
      have hi := ExtTreeSet.mem_toList.1 (mem_of_mem_head? hm)
      obtain ⟨children, hh, hmm⟩ := hl.getMemPoolChildren (hn hf it hi)
      have hlt := hf.card_lt hi (mem_nodes.2 (hn hf it hi))
      have hf' : Dag.Front (fun x y => pool.Spends y x) start (children.toList.foldl
          (fun stage k => if k ∈ seen.insert it then stage else stage.insert k) (stage.erase it))
          (seen.insert it) := hf.visit hi fun y => by
        rw [mem_foldl_stage, mem_erase, ExtTreeSet.mem_toList, hmm, and_comm]
      obtain ⟨r, hr, hsp⟩ := ih hf' (by omega)
      refine ⟨r, ?_, hsp⟩
      rw [descendantLoop.eq_def]
      simp only [hm, hh]
      exact hr

lemma calculateDescendants_spec (hl : pool.ChildrenLinked) (hh : pool.exists_ h)
    (hs : ∀ x, x ∈ seen → pool.exists_ x) (hc : ∀ x y, x ∈ seen → pool.Spends y x → y ∈ seen) :
    ∃ r, pool.calculateDescendants h seen = .ok r ∧
      ∀ y, y ∈ r ↔ y ∈ seen ∨ ReflTransGen pool.Spends y h := by
  have hf : Dag.Front (fun x y => pool.Spends y x) (fun x => x ∈ seen ∨ x = h)
      (if h ∈ seen then ∅ else ExtTreeSet.empty.insert h) seen := by
    refine ⟨fun x hx => ?_, fun x hx => ?_, fun x y hx hxy => .inl (hc x y hx hxy),
      fun y hy => ⟨y, ?_, .refl⟩⟩
    · split_ifs at hx with hm
      · exact absurd hx ExtTreeSet.not_mem_empty
      · obtain rfl := mem_singleton.1 hx
        exact hm
    · rcases hx with hx | rfl
      · exact .inl hx
      · split_ifs with hm
        · exact .inl hm
        · exact .inr (mem_singleton.2 rfl)
    · rcases hy with hy | hy
      · exact .inl hy
      · split_ifs at hy with hm
        · exact absurd hy ExtTreeSet.not_mem_empty
        · exact .inr (mem_singleton.1 hy)
  obtain ⟨r, hr, hsp⟩ := descendantLoop_spec hl
    (fun x hx => hx.elim (hs x) fun hx => hx ▸ hh) hf card_unseen_le
  refine ⟨r, hr, fun y => (hsp y).trans ?_⟩
  constructor
  · rintro ⟨x, hx | rfl, hp⟩
    · left
      induction hp with
      | refl => exact hx
      | tail _ ht ih => exact hc _ _ ih ht
    · exact .inr (Relation.reflTransGen_swap.1 hp)
  · rintro (hy | hp)
    · exact ⟨y, .inl hy, .refl⟩
    · exact ⟨h, .inr rfl, Relation.reflTransGen_swap.2 hp⟩

lemma stageParents_spec {limit : Option Nat} {ks : List Uint256} :
    ((stageParents limit seen ks stage).2 = none → ∀ h, h ∈ (stageParents limit seen ks stage).1 ↔
      h ∈ stage ∨ (h ∈ ks ∧ h ∉ seen)) ∧
    (limit = none → (stageParents limit seen ks stage).2 = none) := by
  induction ks generalizing stage with
  | nil => simp [stageParents]
  | cons k ks ih =>
    have hm : ∀ h, h ∈ (if k ∈ seen then stage else stage.insert k) ↔
        h ∈ stage ∨ (h = k ∧ h ∉ seen) := by
      intro h
      split_ifs with hk
      · grind
      · grind [mem_insert]
    rw [stageParents]
    generalize (if k ∈ seen then stage else stage.insert k) = stage' at hm ⊢
    split_ifs with he
    · exact ⟨nofun, fun hl => by simp [hl, exceeds] at he⟩
    · refine ⟨fun hn h => ?_, ih.2⟩
      rw [ih.1 hn, hm, mem_cons]
      tauto

lemma searchParents_spec {limit : Option Nat} {parents : SetEntries} {vin : List OutPoint} :
    ((pool.searchParents limit vin parents).2 = none →
      ∀ h, h ∈ (pool.searchParents limit vin parents).1 ↔
        h ∈ parents ∨ (pool.exists_ h ∧ h ∈ vin.map OutPoint.hash)) ∧
    (limit = none → (pool.searchParents limit vin parents).2 = none) := by
  induction vin generalizing parents with
  | nil => simp [searchParents]
  | cons o vin ih =>
    simp only [searchParents, map_cons, mem_cons]
    split_ifs with hi he
    · exact ⟨nofun, fun hl => by simp [hl, exceeds] at he⟩
    · refine ⟨fun hn h => ?_, ih.2⟩
      rw [ih.1 hn, mem_insert]
      grind
    · refine ⟨fun hn h => ?_, ih.2⟩
      rw [ih.1 hn]
      grind

lemma ancestorExceeds_none {entry stage : TxMemPoolEntry} {total : Int} :
    ancestorExceeds entry {} h stage total = none := rfl

lemma ancestorLoop_done {entry : TxMemPoolEntry} {limits : Limits} {total : Int}
    (hm : stage.toList.head? = none) :
    pool.ancestorLoop entry limits fuel stage seen total = .ok (seen, none) := by
  rw [ancestorLoop.eq_def]
  simp only [hm]

lemma ancestorLoop_spec (hl : pool.ParentsLinked) (entry : TxMemPoolEntry) (limits : Limits)
    (total : Int) (hsr : ∀ x, start x → pool.exists_ x)
    (hf : Dag.Front pool.Spends start stage seen) (hfl : {y ∈ pool.nodes | y ∉ seen}.card ≤ fuel) :
    ∃ r, pool.ancestorLoop entry limits fuel stage seen total = .ok r ∧
      (r.2 = none → ∀ y, y ∈ r.1 ↔ ∃ x, start x ∧ ReflTransGen pool.Spends x y) ∧
      (limits = {} → r.2 = none) := by
  have hn : ∀ {stage seen}, Dag.Front pool.Spends start stage seen →
      ∀ x, x ∈ stage → pool.exists_ x := fun hf x hx => by
    obtain ⟨s, hs, hpt⟩ := hf.reached x (.inr hx)
    rcases hpt.cases_tail with rfl | ⟨c, -, hc⟩
    · exact hsr _ hs
    · exact hc.right
  induction fuel generalizing stage seen total with
  | zero =>
    have hm := eq_empty_of_card_eq_zero hf (hn hf) hfl
    exact ⟨_, ancestorLoop_done hm, fun _ y => hf.mem_iff (not_mem_of_head? hm), fun _ => rfl⟩
  | succ fuel ih =>
    cases hm : stage.toList.head? with
    | none =>
      exact ⟨_, ancestorLoop_done hm, fun _ y => hf.mem_iff (not_mem_of_head? hm), fun _ => rfl⟩
    | some it =>
      have ht := ExtTreeSet.mem_toList.1 (mem_of_mem_head? hm)
      have hi := hn hf it ht
      obtain ⟨e, he⟩ := exists_iff.1 hi
      obtain ⟨parents, hp, hmm⟩ := hl.getMemPoolParents hi
      have hlt := hf.card_lt ht (mem_nodes.2 hi)
      rw [ancestorLoop.eq_def]
      simp only [hm, he, hp, Run.demand, Run.ok_bind]
      cases hec : ancestorExceeds entry limits it e (total + e.nTxSize) with
      | some err =>
        refine ⟨_, rfl, (fun h => by cases h), ?_⟩
        rintro rfl
        rw [ancestorExceeds_none] at hec
        cases hec
      | none =>
        rcases hr : stageParents limits.ancestorCount (seen.insert it) parents.toList
          (stage.erase it) with ⟨stage', _ | err⟩
        · have hst := hr ▸ stageParents_spec.1 (congrArg Prod.snd hr)
          have hf' : Dag.Front pool.Spends start stage' (seen.insert it) := hf.visit ht fun y => by
              rw [hst, mem_erase, ExtTreeSet.mem_toList, hmm, and_comm]
          exact ih _ hf' (by omega)
        · refine ⟨_, rfl, (fun h => by cases h), ?_⟩
          rintro rfl
          cases (congrArg Prod.snd hr).symm.trans (stageParents_spec.2 rfl)

variable [ChainHash]

lemma calculateMemPoolAncestors_spec (hl : pool.ParentsLinked) {e : TxMemPoolEntry}
    (he : pool.exists_ e.tx.getHash) :
    ∃ s, pool.calculateMemPoolAncestors e {} false = .ok (s, none) ∧
      ∀ a, a ∈ s ↔ TransGen pool.Spends e.tx.getHash a := by
  obtain ⟨parents, hp, hm⟩ := hl.getMemPoolParents he
  obtain ⟨⟨s, err⟩, hr, hs, hn⟩ := ancestorLoop_spec hl e {} e.nTxSize
    (fun _ hx => Spends.right hx) (Dag.Front.initial hm) card_unseen_le
  obtain rfl := hn rfl
  refine ⟨s, ?_, fun a => (hs rfl a).trans TransGen.head'_iff.symm⟩
  rw [calculateMemPoolAncestors, hp]
  exact hr

lemma calculateMemPoolAncestors_search (hl : pool.ParentsLinked) {e : TxMemPoolEntry}
    {limits : Limits} {s : SetEntries}
    (h : pool.calculateMemPoolAncestors e limits true = .ok (s, none)) (a : Uint256) :
    a ∈ s ↔ ∃ p, (pool.exists_ p ∧ p ∈ e.tx.vin.map OutPoint.hash) ∧
      ReflTransGen pool.Spends p a := by
  rw [calculateMemPoolAncestors, if_pos rfl] at h
  rcases hr : pool.searchParents limits.ancestorCount e.tx.vin ∅ with ⟨parents, _ | err⟩
  · simp only [hr] at h
    have hp := hr ▸ searchParents_spec.1 (congrArg Prod.snd hr)
    have hs : ∀ p, p ∈ parents ↔ pool.exists_ p ∧ p ∈ e.tx.vin.map OutPoint.hash := fun p =>
      (hp p).trans (or_iff_right ExtTreeSet.not_mem_empty)
    obtain ⟨r, hn, hsp, -⟩ := ancestorLoop_spec hl e limits e.nTxSize (fun _ hx => hx.1)
      (Dag.Front.initial hs) card_unseen_le
    obtain rfl := Except.ok.inj (hn.symm.trans h)
    exact hsp rfl a
  · simp [hr] at h

end TxMemPool
end Trivechain.Mempool
