import Trivechain.Evo.Roll

/-!
# Differences of lists

`CDeterministicMNList::BuildDiff` and `ApplyDiff`. A difference names masternodes by internal id and
is applied in a fixed order: all removals, all additions, all updates, each by id.
-/

namespace Trivechain.Evo
open Std (ExtTreeMap ExtTreeSet)
open Run DeterministicMN
open List

structure DeterministicMNListDiff where
  addedMNs : List DeterministicMN := []
  /-- Keyed by internal id, as are the removed ones. -/
  updatedMNs : ExtTreeMap Nat DeterministicMNStateDiff := ∅
  removedMns : ExtTreeSet Nat := ∅

def DeterministicMNListDiff.hasChanges (diff : DeterministicMNListDiff) : Bool :=
  !diff.addedMNs.isEmpty || !diff.updatedMNs.isEmpty || !diff.removedMns.isEmpty

def sortById (ds : List DeterministicMN) : List DeterministicMN :=
  ds.mergeSort fun a b => a.internalId ≤ b.internalId

variable {ds : List DeterministicMN}

lemma mem_sortById {d : DeterministicMN} : d ∈ sortById ds ↔ d ∈ ds := mem_mergeSort

lemma pairwise_sortById (hi : (ds.map (·.internalId)).Nodup) :
    (sortById ds).Pairwise fun a b => a.internalId < b.internalId := by
  have hl : (sortById ds).Pairwise fun a b => decide (a.internalId ≤ b.internalId) = true :=
    pairwise_mergeSort (fun a b c => by simpa using le_trans)
      (fun a b => by simpa using le_total _ _) ds
  have hn : (sortById ds).Pairwise fun a b => a.internalId ≠ b.internalId :=
    pairwise_map.1 (((mergeSort_perm ds _).map _).nodup_iff.2 hi)
  exact hl.imp₂ (fun _ _ hl hn => lt_of_le_of_ne (of_decide_eq_true hl) hn) hn

namespace Registry

def enroll (r : Registry) (d : DeterministicMN) : Registry :=
  { r.insert d with nTotalRegisteredCount := r.nTotalRegisteredCount + 1 }

variable {r : Registry} {k : Uint256}

lemma getElem?_foldl_erase (ds : List DeterministicMN) :
    (ds.foldl (fun r d => r.erase d.proTxHash) r).mnMap[k]? =
      if k ∈ ds.map (·.proTxHash) then none else r.mnMap[k]? := by
  induction ds generalizing r with
  | nil => simp
  | cons d ds ih =>
    rw [foldl_cons, ih, getElem?_erase, map_cons]
    by_cases hk : k = d.proTxHash <;> simp [hk]

lemma getElem?_foldl_insert {ds : List DeterministicMN} (hn : (ds.map (·.proTxHash)).Nodup)
    {x : DeterministicMN} : (ds.foldl insert r).mnMap[k]? = some x ↔
      (x ∈ ds ∧ x.proTxHash = k) ∨ (k ∉ ds.map (·.proTxHash) ∧ r.mnMap[k]? = some x) := by
  induction ds generalizing r with
  | nil => simp
  | cons d ds ih =>
    obtain ⟨hd, hs⟩ := nodup_cons.1 (map_cons ▸ hn)
    rw [foldl_cons, ih hs, getElem?_insert, map_cons]
    by_cases hk : k = d.proTxHash
    · subst hk
      have ht : ∀ y ∈ ds, y.proTxHash ≠ d.proTxHash := fun y hy he =>
        hd (he ▸ mem_map_of_mem hy)
      simp only [hd, not_false_eq_true, true_and, if_true, mem_cons, not_true_eq_false,
        false_and, or_false, Option.some.injEq]
      constructor
      · rintro (⟨hx, he⟩ | rfl)
        · exact absurd he (ht x hx)
        · exact ⟨.inl rfl, rfl⟩
      · rintro ⟨rfl | hx, he⟩
        · exact .inr rfl
        · exact absurd he (ht x hx)
    · have hne : x = d → x.proTxHash ≠ k := fun hx he => hk (by rw [← he, hx])
      simp only [hk, if_false, mem_cons, false_or]
      constructor
      · rintro (⟨hx, he⟩ | hx)
        · exact .inl ⟨.inr hx, he⟩
        · exact .inr hx
      · rintro (⟨hx | hx, he⟩ | hx)
        · exact absurd he (hne hx)
        · exact .inl ⟨hx, he⟩
        · exact .inr hx

lemma foldl_erase_eq (ds : List DeterministicMN) : ds.foldl (fun r d => r.erase d.proTxHash) r =
      { r with mnMap := (ds.foldl (fun r d => r.erase d.proTxHash) r).mnMap } := by
  induction ds generalizing r with
  | nil => rfl
  | cons d ds ih =>
    rw [foldl_cons, ih]
    rfl

lemma foldl_insert_eq (ds : List DeterministicMN) :
    ds.foldl insert r = { r with mnMap := (ds.foldl insert r).mnMap } := by
  induction ds generalizing r with
  | nil => rfl
  | cons d ds ih =>
    rw [foldl_cons, ih]
    rfl

lemma mnMap_foldl_insert_congr (ds : List DeterministicMN) {r r' : Registry}
    (he : r.mnMap = r'.mnMap) : (ds.foldl insert r).mnMap = (ds.foldl insert r').mnMap := by
  induction ds generalizing r r' with
  | nil => exact he
  | cons d ds ih =>
    rw [foldl_cons, foldl_cons]
    exact ih (by simp only [insert, he])

lemma foldl_enroll_eq (ds : List DeterministicMN) : ds.foldl enroll r = { r with
      mnMap := (ds.foldl insert r).mnMap
      nTotalRegisteredCount := r.nTotalRegisteredCount + ds.length } := by
  induction ds generalizing r with
  | nil => rfl
  | cons d ds ih =>
    have hm : (ds.foldl insert (r.enroll d)).mnMap = (ds.foldl insert (r.insert d)).mnMap :=
      mnMap_foldl_insert_congr ds rfl
    rw [foldl_cons, ih, hm, foldl_cons, length_cons, ← Nat.add_assoc, Nat.add_right_comm]
    rfl

/-- A value of a masternode that stays goes only to one that was there as well and has a
larger id. -/
def OrderlyTo (r s : Registry) : Prop :=
  ∀ (h h' : Uint256) (a b : DeterministicMN) (v : UniqueProperty), r.mnMap[h]? = some a →
    (s.mnMap[h]?).isSome → s.mnMap[h']? = some b → h ≠ h' → a.Holds v → b.Holds v →
    (r.mnMap[h']?).isSome ∧ a.internalId < b.internalId

end Registry

open Registry

namespace DeterministicMNList
variable (l target : DeterministicMNList)

/-- The round of the first loop of `BuildDiff` for a masternode of the second list. -/
def diffTo (diff : DeterministicMNListDiff) (toPtr : DeterministicMN) : DeterministicMNListDiff :=
  match l.getMN toPtr.proTxHash with
  | none => { diff with addedMNs := diff.addedMNs ++ [toPtr] }
  | some fromPtr =>
    let stateDiff := DeterministicMNStateDiff.ofStates fromPtr.pdmnState toPtr.pdmnState
    if stateDiff ≠ .none then
      { diff with updatedMNs := diff.updatedMNs.insertIfNew toPtr.internalId stateDiff }
    else diff

/-- The round of the second loop for a masternode of the first list. -/
def diffFrom (diff : DeterministicMNListDiff) (fromPtr : DeterministicMN) :
    DeterministicMNListDiff :=
  match target.getMN fromPtr.proTxHash with
  | none => { diff with removedMns := diff.removedMns.insert fromPtr.internalId }
  | some _ => diff

def buildDiff : DeterministicMNListDiff :=
  let diff := target.allMNs.foldl l.diffTo {}
  let diff := l.allMNs.foldl target.diffFrom diff
  { diff with addedMNs := sortById diff.addedMNs }

variable [PropertyHash]

def applyRemoved (result : DeterministicMNList) (id : Nat) : Run DeterministicMNList := do
  let dmn ← Run.demand .assertion (result.getMNByInternalId id)
  result.removeMN dmn.proTxHash

def applyAdded (result : DeterministicMNList) (dmn : DeterministicMN) :
    Run DeterministicMNList := do
  Run.ensure (dmn.internalId = result.nTotalRegisteredCount)
  let result ← result.addMN dmn
  return { result with nTotalRegisteredCount := result.nTotalRegisteredCount + 1 }

def applyUpdated (result : DeterministicMNList) (p : Nat × DeterministicMNStateDiff) :
    Run DeterministicMNList :=
  result.updateMNDiff (result.getMNByInternalId p.1) p.2

def applyDiff [ChainHash] (pindex : BlockIndex) (diff : DeterministicMNListDiff) :
    Run DeterministicMNList := do
  let result := { l with blockHash := pindex.getBlockHash, nHeight := pindex.nHeight }
  let result ← diff.removedMns.toList.foldlM applyRemoved result
  let result ← diff.addedMNs.foldlM applyAdded result
  diff.updatedMNs.toList.foldlM applyUpdated result

section Content

omit [PropertyHash]

def changed (toPtr : DeterministicMN) : Bool :=
  (l.getMN toPtr.proTxHash).any fun fromPtr => fromPtr.pdmnState ≠ toPtr.pdmnState

/-- The entry of `updatedMNs` for a masternode of the second list. -/
def stateDiffTo (toPtr : DeterministicMN) : Nat × DeterministicMNStateDiff :=
  (toPtr.internalId, (l.getMN toPtr.proTxHash).elim .none fun fromPtr =>
    .ofStates fromPtr.pdmnState toPtr.pdmnState)

lemma foldl_diffTo (ds : List DeterministicMN) (diff : DeterministicMNListDiff) :
    ds.foldl l.diffTo diff = { diff with
        addedMNs := diff.addedMNs ++ ds.filter fun d => (l.getMN d.proTxHash).isNone
        updatedMNs := ((ds.filter l.changed).map l.stateDiffTo).foldl
          (fun m p => m.insertIfNew p.1 p.2) diff.updatedMNs } := by
  induction ds generalizing diff with
  | nil => simp
  | cons d ds ih =>
    rw [foldl_cons, ih]
    unfold diffTo changed stateDiffTo
    cases hd : l.getMN d.proTxHash with
    | none => simp [hd]
    | some fromPtr =>
      by_cases hs : fromPtr.pdmnState = d.pdmnState
      · simp [hd, hs, DeterministicMNStateDiff.ofStates_eq_none.2]
      · simp [hd, hs, DeterministicMNStateDiff.ofStates_eq_none]

lemma foldl_diffFrom (ds : List DeterministicMN) (diff : DeterministicMNListDiff) :
    ds.foldl target.diffFrom diff = { diff with
        removedMns := ((ds.filter fun d => (target.getMN d.proTxHash).isNone).map
          (·.internalId)).foldl ExtTreeSet.insert diff.removedMns } := by
  induction ds generalizing diff with
  | nil => simp
  | cons d ds ih =>
    rw [foldl_cons, ih]
    unfold diffFrom
    cases hd : target.getMN d.proTxHash <;> simp [hd]

def gone : List DeterministicMN :=
  sortById (l.allMNs.filter fun d => (target.getMN d.proTxHash).isNone)

def fresh : List DeterministicMN :=
  sortById (target.allMNs.filter fun d => (l.getMN d.proTxHash).isNone)

def altered : List DeterministicMN := sortById (target.allMNs.filter l.changed)

lemma buildDiff_added : (l.buildDiff target).addedMNs = l.fresh target := by
  simp only [buildDiff, foldl_diffTo, foldl_diffFrom]
  rfl

end Content

section Sorted
variable {l target} [ChainHash] {r s : Registry}

lemma Tracks.nodup_ids (hT : l.Tracks r) : (l.allMNs.map (·.internalId)).Nodup := by
  have hh : (l.allMNs.map (·.proTxHash)).Nodup := by
    rw [allMNs, hT.refines.mnMap]
    exact hT.nodup_values
  refine pairwise_map.2 ((pairwise_map.1 hh).imp_of_mem fun ha hb hn he => hn ?_)
  rw [allMNs, hT.refines.mnMap, hT.mem_values] at ha hb
  exact hT.sound.id_unique _ _ _ _ ha hb he

lemma Tracks.pairwise_sortById (hT : l.Tracks r) (p : DeterministicMN → Bool) :
    (sortById (l.allMNs.filter p)).Pairwise fun a b => a.internalId < b.internalId :=
  Evo.pairwise_sortById ((filter_sublist.map _).nodup hT.nodup_ids)

lemma Tracks.mem_sortById (hT : l.Tracks r) {p : DeterministicMN → Bool} {d : DeterministicMN} :
    d ∈ sortById (l.allMNs.filter p) ↔ r.mnMap[d.proTxHash]? = some d ∧ p d = true := by
  rw [Evo.mem_sortById, mem_filter, allMNs, hT.refines.mnMap, hT.mem_values]

lemma buildDiff_removed (hT : l.Tracks r) :
    (l.buildDiff target).removedMns.toList = (l.gone target).map (·.internalId) := by
  refine Maps.toList_set_eq ?_ fun id => ?_
  · refine pairwise_map.2 ((hT.pairwise_sortById _).imp fun hl => ?_)
    exact Nat.compare_eq_lt.2 hl
  · simp only [buildDiff, foldl_diffTo, foldl_diffFrom, Maps.mem_foldl_insert, gone, mem_map,
      Evo.mem_sortById]
    simp

lemma buildDiff_updated (hT : target.Tracks s) :
    (l.buildDiff target).updatedMNs.toList = (l.altered target).map l.stateDiffTo := by
  refine Maps.toList_eq ?_ fun id sd => ?_
  · refine pairwise_map.2 ((hT.pairwise_sortById _).imp fun hl => ?_)
    exact Nat.compare_eq_lt.2 hl
  · have hn : (((target.allMNs.filter l.changed).map l.stateDiffTo).map Prod.fst).Nodup := by
      rw [map_map]
      exact (filter_sublist.map _).nodup hT.nodup_ids
    simp only [buildDiff, foldl_diffTo, foldl_diffFrom, Maps.getElem?_foldl_insertIfNew hn,
      altered, mem_map, Evo.mem_sortById]
    simp

end Sorted

section Steps
variable {l target} [ChainHash] {r s : Registry} {d : DeterministicMN} (hT : l.Tracks r)
include hT

lemma Tracks.getMNByInternalId {h : Uint256} (hd : r.mnMap[h]? = some d) :
    l.getMNByInternalId d.internalId = some d := by
  have hd' : l.mnMap[h]? = some d := hT.getElem?_mnMap.trans hd
  have hi := (hT.refines.indexed.internalIds d.internalId h).2 ⟨d, hd', rfl⟩
  simp [DeterministicMNList.getMNByInternalId, hi, getMN, hd']

lemma Tracks.applyRemoved (hd : r.mnMap[d.proTxHash]? = some d) :
    ∃ l', l.applyRemoved d.internalId = .ok l' ∧ l'.Tracks (r.erase d.proTxHash) := by
  unfold DeterministicMNList.applyRemoved
  rw [hT.getMNByInternalId hd, demand_some, ok_bind]
  exact hT.removeMN hd

lemma Tracks.applyAdded (hn : r.mnMap[d.proTxHash]? = none) (hp : d.Proper)
    (hr : Registry.Registered d) : ((d.internalId = r.nTotalRegisteredCount ∧ r.Free d) ∧
      ∃ l', l.applyAdded d = .ok l' ∧ l'.Tracks (r.enroll d)) ∨
    (¬ (d.internalId = r.nTotalRegisteredCount ∧ r.Free d) ∧ ∃ e, l.applyAdded d = .error e) := by
  have hc : l.nTotalRegisteredCount = r.nTotalRegisteredCount := by
    rw [← hT.refines.registry_eq]
    rfl
  unfold DeterministicMNList.applyAdded
  rw [hc]
  by_cases hi : d.internalId = r.nTotalRegisteredCount
  · rw [ensure_pos hi, ok_bind]
    by_cases hf : r.Free d
    · have he : ∀ (h : Uint256) (d' : DeterministicMN), r.mnMap[h]? = some d' →
          d'.internalId ≠ d.internalId := fun h d' hd' =>
        hi ▸ Nat.ne_of_lt (hT.sound.id_lt h d' hd')
      obtain ⟨l', ho, hR⟩ := addMN_spec hT.refines hp hn he hf
      refine .inl ⟨⟨hi, hf⟩, { l' with nTotalRegisteredCount := l'.nTotalRegisteredCount + 1 },
        by rw [ho]; rfl, ⟨⟨hR.indexed.1, hR.indexed.2, hR.indexed.3⟩, ?_⟩, ?_⟩
      · exact congrArg (fun q : Registry =>
          { q with nTotalRegisteredCount := q.nTotalRegisteredCount + 1 }) hR.registry_eq
      · exact hT.sound.count_succ.insert hp (by simp [hi]) (fun h d' _ => he h d') hr hf
    · refine .inr ⟨fun h => hf h.2, ?_⟩
      cases ha : l.addMN d with
      | error e => exact ⟨e, rfl⟩
      | ok l' => exact absurd (hT.refines.registry_eq ▸ (addMN_ok hT.refines.indexed ha).2.2) hf
  · refine .inr ⟨fun h => hi h.1, .fault .assertion, ?_⟩
    rw [ensure_neg hi, error_bind]

lemma Tracks.applyUpdated {d' : DeterministicMN} (hd : r.mnMap[d.proTxHash]? = some d')
    (hs : d = d'.withState d.pdmnState) (ho : d.pdmnState.keyIDOwner ≠ 0)
    {p : Nat × DeterministicMNStateDiff} (hp : p.1 = d.internalId)
    (hsd : p.2.applyToState d'.pdmnState = d.pdmnState) :
    (r.Free d ∧ ∃ l', l.applyUpdated p = .ok l' ∧ l'.Tracks (r.insert d)) ∨
    (¬ r.Free d ∧ ∃ e, l.applyUpdated p = .error e) := by
  have hi : p.1 = d'.internalId := by rw [hp, hs]; rfl
  have hk := hT.sound.keyed _ d' hd
  have hd'' : l.mnMap[d'.proTxHash]? = some d' := hk ▸ hT.getElem?_mnMap.trans hd
  unfold DeterministicMNList.applyUpdated updateMNDiff
  rw [hi, hT.getMNByInternalId hd, demand_some, ok_bind, hsd, hs]
  rcases updateMNOf_cases hT.refines.indexed hd'' (s := d.pdmnState) with
    ⟨hf, l', hok, hR⟩ | ⟨hn, he⟩
  · rw [hT.refines.registry_eq] at hf hR
    exact .inl ⟨hf, l', hok, hR, hT.sound.update hd ho hf⟩
  · rw [hT.refines.registry_eq] at hn
    exact .inr ⟨hn, _, he⟩

end Steps

section Exact
variable {l target} [ChainHash] {r s : Registry} {d : DeterministicMN} (hT : l.Tracks r)
  (hT' : target.Tracks s)

lemma Tracks.nodup_sortById (hT : l.Tracks r) (p : DeterministicMN → Bool) :
    ((sortById (l.allMNs.filter p)).map (·.proTxHash)).Nodup := by
  refine ((mergeSort_perm _ _).map _).nodup_iff.2 ((filter_sublist.map _).nodup ?_)
  rw [allMNs, hT.refines.mnMap]
  exact hT.nodup_values

section

omit [PropertyHash] [ChainHash]

variable (l target r) in
def kept : Registry := (l.gone target).foldl (fun r d => r.erase d.proTxHash) r

variable (l target r) in
def extended : Registry := (l.fresh target).foldl enroll (l.kept target r)

end
include hT hT'

lemma mem_gone :
    d ∈ l.gone target ↔ r.mnMap[d.proTxHash]? = some d ∧ s.mnMap[d.proTxHash]? = none := by
  rw [gone, hT.mem_sortById, Option.isNone_iff_eq_none, hT'.getMN_eq]

lemma mem_fresh :
    d ∈ l.fresh target ↔ s.mnMap[d.proTxHash]? = some d ∧ r.mnMap[d.proTxHash]? = none := by
  rw [fresh, hT'.mem_sortById, Option.isNone_iff_eq_none, hT.getMN_eq]

lemma mem_altered : d ∈ l.altered target ↔ s.mnMap[d.proTxHash]? = some d ∧
    ∃ a : DeterministicMN, r.mnMap[d.proTxHash]? = some a ∧ a.pdmnState ≠ d.pdmnState := by
  rw [altered, hT'.mem_sortById, changed, hT.getMN_eq, Option.any_eq_true]
  simp

variable {k : Uint256} {pre post : List DeterministicMN}

lemma getElem?_kept : (l.kept target r).mnMap[k]? = some d ↔
    r.mnMap[k]? = some d ∧ (s.mnMap[k]?).isSome := by
  rw [kept, getElem?_foldl_erase]
  split_ifs with hk
  · obtain ⟨x, hx, rfl⟩ := mem_map.1 hk
    simp [((mem_gone hT hT').1 hx).2]
  · refine ⟨fun hd => ⟨hd, ?_⟩, And.left⟩
    by_contra hn
    obtain rfl := hT.sound.keyed k d hd
    exact hk (mem_map_of_mem ((mem_gone hT hT').2 ⟨hd, by simpa using hn⟩))

lemma applyRemoved_all : ∃ l', (l.gone target).foldlM
      (fun l d => applyRemoved l d.internalId) l = .ok l' ∧ l'.Tracks (l.kept target r) := by
  have hst : ∀ pre d post, l.gone target = pre ++ d :: post → ∀ l1 : DeterministicMNList,
      l1.Tracks (pre.foldl (fun r d => r.erase d.proTxHash) r) →
      ∃ l', applyRemoved l1 d.internalId = .ok l' ∧
        l'.Tracks ((pre.foldl (fun r d => r.erase d.proTxHash) r).erase d.proTxHash) := by
    intro pre d post hs l1 hT1
    refine hT1.applyRemoved ?_
    have hd := (mem_gone hT hT').1 (hs ▸ (by simp : d ∈ pre ++ d :: post))
    have hn := hT.nodup_sortById fun d => (target.getMN d.proTxHash).isNone
    rw [← gone, hs, map_append, map_cons, nodup_middle, nodup_cons] at hn
    rw [getElem?_foldl_erase, if_neg fun hm => hn.1 (mem_append_left _ hm)]
    exact hd.1
  rcases foldlM_exact (C := fun _ _ => True) (l.gone target) hT
    (fun pre d post hs l1 hT1 => .inl ⟨trivial, hst pre d post hs l1 hT1⟩) with
    ⟨-, ho⟩ | ⟨ht, -⟩
  · exact ho
  · exact absurd (fun _ _ _ _ => trivial) ht

lemma getElem?_enrolled (hs : l.fresh target = pre ++ post) :
    (pre.foldl enroll (l.kept target r)).mnMap[k]? = some d ↔
      (d ∈ pre ∧ d.proTxHash = k) ∨ (r.mnMap[k]? = some d ∧ (s.mnMap[k]?).isSome) := by
  have hn := hT'.nodup_sortById fun d => (l.getMN d.proTxHash).isNone
  rw [← fresh, hs, map_append] at hn
  rw [foldl_enroll_eq, getElem?_foldl_insert hn.of_append_left, getElem?_kept hT hT']
  refine or_congr_right ⟨And.right, fun hd => ⟨fun hm => ?_, hd⟩⟩
  obtain ⟨x, hx, rfl⟩ := mem_map.1 hm
  have := ((mem_fresh hT hT').1 (hs ▸ mem_append_left post hx)).2
  simp [hd.1] at this

lemma getElem?_altered (hs : l.altered target = pre ++ post) :
    (pre.foldl insert (l.extended target r)).mnMap[k]? = some d ↔
      (d ∈ pre ∧ d.proTxHash = k) ∨ (k ∉ pre.map (·.proTxHash) ∧
        ((d ∈ l.fresh target ∧ d.proTxHash = k) ∨ (r.mnMap[k]? = some d ∧ (s.mnMap[k]?).isSome))) := by
  have hn := hT'.nodup_sortById l.changed
  rw [← altered, hs, map_append] at hn
  rw [getElem?_foldl_insert hn.of_append_left, extended,
    getElem?_enrolled hT hT' (append_nil _).symm]

lemma applyAdded_all {l1 : DeterministicMNList} (hT1 : l1.Tracks (l.kept target r))
    (hi : ∀ pre d post, l.fresh target = pre ++ d :: post →
      d.internalId = r.nTotalRegisteredCount + pre.length) :
    ((∀ pre d post, l.fresh target = pre ++ d :: post → Registry.Free (pre.foldl enroll
        (l.kept target r)) d) ∧
      ∃ l', (l.fresh target).foldlM applyAdded l1 = .ok l' ∧ l'.Tracks (l.extended target r)) ∨
    (¬ (∀ pre d post, l.fresh target = pre ++ d :: post → Registry.Free (pre.foldl enroll
        (l.kept target r)) d) ∧ ∃ e, (l.fresh target).foldlM applyAdded l1 = .error e) := by
  refine foldlM_exact (l.fresh target) hT1 fun pre d post hs l2 hT2 => ?_
  obtain ⟨hd, hnn⟩ := (mem_fresh hT hT').1 (hs ▸ (by simp : d ∈ pre ++ d :: post))
  have hw : (pre.foldl enroll (l.kept target r)).mnMap[d.proTxHash]? = none := by
    refine Option.eq_none_iff_forall_ne_some.2 fun x hx => ?_
    rcases (getElem?_enrolled hT hT' hs).1 hx with ⟨hm, hh⟩ | ⟨hold, -⟩
    · have hn := hT'.nodup_sortById fun d => (l.getMN d.proTxHash).isNone
      rw [← fresh, hs, map_append, map_cons, nodup_middle, nodup_cons] at hn
      exact hn.1 (mem_append_left _ (hh ▸ mem_map_of_mem hm))
    · simp [hnn] at hold
  have hid : d.internalId = (pre.foldl enroll (l.kept target r)).nTotalRegisteredCount := by
    rw [hi pre d post hs, foldl_enroll_eq, kept, foldl_erase_eq]
  have ht := hT2.applyAdded hw (hT'.sound.proper _ d hd) (hT'.sound.registered _ d hd)
  simpa only [hid, true_and] using ht

omit [PropertyHash] hT hT' [ChainHash] in
lemma eq_withState {a d : DeterministicMN} (he : a.entry = d.entry)
    (hh : a.proTxHash = d.proTxHash) : d = a.withState d.pdmnState := by
  obtain ⟨h, id, col, rew, st⟩ := a
  obtain ⟨h', id', col', rew', st'⟩ := d
  simp_all [DeterministicMN.entry, DeterministicMN.withState]

variable (hkept : ∀ (h : Uint256) (a b : DeterministicMN), r.mnMap[h]? = some a →
  s.mnMap[h]? = some b → a.entry = b.entry)
include hkept

lemma applyUpdated_all {l2 : DeterministicMNList} (hT2 : l2.Tracks (l.extended target r)) :
    ((∀ pre d post, l.altered target = pre ++ d :: post → Registry.Free (pre.foldl insert
        (l.extended target r)) d) ∧
      ∃ l', (l.altered target).foldlM (fun l' d => applyUpdated l' (l.stateDiffTo d)) l2 = .ok l' ∧
        l'.Tracks ((l.altered target).foldl insert (l.extended target r))) ∨
    (¬ (∀ pre d post, l.altered target = pre ++ d :: post → Registry.Free (pre.foldl insert
        (l.extended target r)) d) ∧
      ∃ e, (l.altered target).foldlM (fun l' d => applyUpdated l' (l.stateDiffTo d)) l2 =
        .error e) := by
  refine foldlM_exact (l.altered target) hT2 fun pre d post hs l3 hT3 => ?_
  obtain ⟨hd, a, ha, he⟩ := (mem_altered hT hT').1 (hs ▸ (by simp : d ∈ pre ++ d :: post))
  have hn := hT'.nodup_sortById l.changed
  rw [← altered, hs, map_append, map_cons, nodup_middle, nodup_cons] at hn
  have hc : (pre.foldl insert (l.extended target r)).mnMap[d.proTxHash]? = some a :=
    (getElem?_altered hT hT' hs).2 (.inr
      ⟨fun hm => hn.1 (mem_append_left _ hm), .inr ⟨ha, by simp [hd]⟩⟩)
  refine hT3.applyUpdated hc (eq_withState (hkept _ a d ha hd) (hT.sound.keyed _ a ha))
    (hT'.sound.proper _ d hd).2 rfl ?_
  simp [stateDiffTo, hT.getMN_eq, ha]

omit hT hkept in
lemma not_holds_of_ne {a : DeterministicMN} {h : Uint256} {v : UniqueProperty}
    (hd : s.mnMap[d.proTxHash]? = some d) (ha : s.mnMap[h]? = some a) (hn : h ≠ d.proTxHash)
    (hv : d.Holds v) : ¬ a.Holds v := fun hv' =>
  hn (hT'.sound.unique _ _ v ⟨a, ha, hv'⟩ ⟨d, hd, hv⟩)

variable {pre post : List DeterministicMN}

omit hkept in
lemma free_added_of_orderly (ho : r.OrderlyTo s) (hs : l.fresh target = pre ++ d :: post) :
    (pre.foldl enroll (l.kept target r)).Free d := by
  have hm : ∀ x ∈ pre ++ d :: post, s.mnMap[x.proTxHash]? = some x ∧
      r.mnMap[x.proTxHash]? = none := fun x hx => (mem_fresh hT hT').1 (hs ▸ hx)
  obtain ⟨hd, hn⟩ := hm d (by simp)
  rintro v h hv he ⟨a, ha, hav⟩
  rcases (getElem?_enrolled hT hT' hs).1 ha with ⟨hp, rfl⟩ | ⟨hold, ht⟩
  · exact not_holds_of_ne hT' hd (hm a (mem_append_left _ hp)).1 he hv hav
  · simpa [hn] using (ho h d.proTxHash a d v hold ht hd he hav hv).1

lemma free_updated_of_orderly (ho : r.OrderlyTo s) (hs : l.altered target = pre ++ d :: post) :
    (pre.foldl insert (l.extended target r)).Free d := by
  have hm : ∀ x ∈ pre ++ d :: post, s.mnMap[x.proTxHash]? = some x := fun x hx =>
    ((mem_altered hT hT').1 (hs ▸ hx)).1
  have hd := hm d (by simp)
  rintro v h hv hne ⟨a, ha, hav⟩
  rcases (getElem?_altered hT hT' hs).1 ha with
    ⟨hp, rfl⟩ | ⟨hn, ⟨hf, rfl⟩ | ⟨hold, ht⟩⟩
  · exact not_holds_of_ne hT' hd (hm a (mem_append_left _ hp)) hne hv hav
  · exact not_holds_of_ne hT' hd ((mem_fresh hT hT').1 hf).1 hne hv hav
  · -- `a` still has its old state, so it is not updated or it is updated later
    obtain ⟨b, hb⟩ := Option.isSome_iff_exists.1 ht
    obtain rfl := hT'.sound.keyed h b hb
    have hl := (ho _ _ a d v hold ht hd hne hav hv).2
    have he := hkept _ a b hold hb
    have hsta : a.pdmnState ≠ b.pdmnState := fun hq => by
      have hab : b = a := by
        rw [eq_withState he (hT.sound.keyed _ a hold), ← hq, withState_self]
      exact not_holds_of_ne hT' hd hb hne hv (hab ▸ hav)
    have hi : b ∈ pre ++ d :: post := hs ▸ (mem_altered hT hT').2 ⟨hb, a, hold, hsta⟩
    have hsr := hT'.pairwise_sortById l.changed
    rw [← altered, hs, pairwise_append, pairwise_cons] at hsr
    have hid : a.internalId = b.internalId := congrArg Entry.internalId he
    rcases mem_append.1 hi with hp | hr
    · exact hn (mem_map_of_mem hp)
    · rcases mem_cons.1 hr with rfl | hps
      · exact hne rfl
      · have := hsr.2.1.1 b hps
        omega

lemma orderlyTo_iff : r.OrderlyTo s ↔ (∀ pre d post, l.fresh target = pre ++ d :: post →
      (pre.foldl enroll (l.kept target r)).Free d) ∧
    (∀ pre d post, l.altered target = pre ++ d :: post →
      (pre.foldl insert (l.extended target r)).Free d) := by
  refine ⟨fun ho => ⟨fun _ _ _ => free_added_of_orderly hT hT' ho,
    fun _ _ _ => free_updated_of_orderly hT hT' hkept ho⟩, fun ⟨hd, hu⟩ => ?_⟩
  intro h h' a b v ha ht hb hn hav hbv
  obtain rfl := hT'.sound.keyed h' b hb
  cases hold : r.mnMap[b.proTxHash]? with
  | none =>
    -- `b` is added while `a` still has its old state
    obtain ⟨pre, post, hs⟩ := append_of_mem ((mem_fresh hT hT').2 ⟨hb, hold⟩)
    refine absurd ⟨a, ?_, hav⟩ (hd pre b post hs v h hbv hn)
    exact (getElem?_enrolled hT hT' hs).2 (.inr ⟨ha, ht⟩)
  | some b0 =>
    refine ⟨rfl, ?_⟩
    by_contra hle
    have he := hkept _ b0 b hold hb
    have hi : b0.internalId = b.internalId := congrArg Entry.internalId he
    -- `a` hl the value, so `b` did not, and `b` is updated before `a`
    have hb0 : ¬ b0.Holds v := fun hv => hn (hT.sound.unique _ _ v ⟨a, ha, hav⟩ ⟨b0, hold, hv⟩)
    have hsta : b0.pdmnState ≠ b.pdmnState := fun hq => by
      have hbb : b = b0 := by
        rw [eq_withState he (hT.sound.keyed _ b0 hold), ← hq, withState_self]
      exact hb0 (hbb ▸ hbv)
    have hlt : b.internalId < a.internalId := by
      have hn' : a.internalId ≠ b0.internalId := fun hq =>
        hn (hT.sound.id_unique _ _ a b0 ha hold hq)
      omega
    obtain ⟨pre, post, hs⟩ := append_of_mem ((mem_altered hT hT').2 ⟨hb, b0, hold, hsta⟩)
    refine absurd ⟨a, ?_, hav⟩ (hu pre b post hs v h hbv hn)
    refine (getElem?_altered hT hT' hs).2 (.inr ⟨fun hp => ?_, .inr ⟨ha, ht⟩⟩)
    obtain ⟨x, hx, rfl⟩ := mem_map.1 hp
    have hr := hT'.pairwise_sortById l.changed
    rw [← altered, hs, pairwise_append] at hr
    have hxb := hr.2.2 x hx b (by simp)
    have hxs := ((mem_altered hT hT').1 (hs ▸ mem_append_left _ hx)).1
    have hax : a.internalId = x.internalId := congrArg Entry.internalId (hkept _ a x ha hxs)
    omega

lemma mnMap_applied : ((l.altered target).foldl insert (l.extended target r)).mnMap = s.mnMap := by
  refine ExtTreeMap.ext_getElem? fun k => Option.ext fun d => ?_
  rw [getElem?_altered hT hT' (append_nil _).symm]
  constructor
  · rintro (⟨hi, rfl⟩ | ⟨hn, ⟨hi, rfl⟩ | ⟨hold, ht⟩⟩)
    · exact ((mem_altered hT hT').1 hi).1
    · exact ((mem_fresh hT hT').1 hi).1
    · -- in both lists and not altered
      obtain ⟨b, hb⟩ := Option.isSome_iff_exists.1 ht
      obtain rfl := hT'.sound.keyed k b hb
      have hs : d.pdmnState = b.pdmnState := by
        by_contra he
        exact hn (mem_map_of_mem ((mem_altered hT hT').2 ⟨hb, d, hold, he⟩))
      rw [hb, eq_withState (hkept _ d b hold hb) (hT.sound.keyed _ d hold), ← hs, withState_self]
  · intro hd
    obtain rfl := hT'.sound.keyed k d hd
    cases hold : r.mnMap[d.proTxHash]? with
    | none =>
      refine .inr ⟨fun hi => ?_, .inl ⟨(mem_fresh hT hT').2 ⟨hd, hold⟩, rfl⟩⟩
      obtain ⟨x, hx, hh⟩ := mem_map.1 hi
      obtain ⟨-, a, ha, -⟩ := (mem_altered hT hT').1 hx
      simp [hh, hold] at ha
    | some a =>
      by_cases hs : a.pdmnState = d.pdmnState
      · refine .inr ⟨fun hi => ?_, .inr ⟨?_, by simp [hd]⟩⟩
        · obtain ⟨x, hx, hh⟩ := mem_map.1 hi
          obtain ⟨hxs, b, hb, he⟩ := (mem_altered hT hT').1 hx
          rw [hh, hold] at hb
          rw [hh, hd] at hxs
          cases hb
          cases hxs
          exact he hs
        · rw [eq_withState (hkept _ a d hold hd) (hT.sound.keyed _ a hold), ← hs, withState_self]
      · exact .inl ⟨(mem_altered hT hT').2 ⟨hd, a, hold, hs⟩, rfl⟩

lemma foldl_altered_eq : (l.altered target).foldl insert (l.extended target r) = { r with
      mnMap := s.mnMap
      nTotalRegisteredCount := r.nTotalRegisteredCount + (l.fresh target).length } := by
  rw [foldl_insert_eq, mnMap_applied hT hT' hkept, extended, foldl_enroll_eq, kept, foldl_erase_eq]

variable (l target) in
/-- The three loops of `ApplyDiff` for the difference to `target`. -/
def applyChanges (l0 : DeterministicMNList) : Run DeterministicMNList := do
  let l1 ← (l.gone target).foldlM (fun l d => applyRemoved l d.internalId) l0
  let l2 ← (l.fresh target).foldlM applyAdded l1
  (l.altered target).foldlM (fun l' d => applyUpdated l' (l.stateDiffTo d)) l2

lemma applyChanges_exact (hi : ∀ pre d post, l.fresh target = pre ++ d :: post →
      d.internalId = r.nTotalRegisteredCount + pre.length) :
    (r.OrderlyTo s ∧ ∃ result, l.applyChanges target l = .ok result ∧ result.Tracks { r with
        mnMap := s.mnMap
        nTotalRegisteredCount := r.nTotalRegisteredCount + (l.fresh target).length }) ∨
    (¬ r.OrderlyTo s ∧ ∃ e, l.applyChanges target l = .error e) := by
  rw [← foldl_altered_eq hT hT' hkept, orderlyTo_iff hT hT' hkept]
  unfold applyChanges
  obtain ⟨l1, ho1, hT1⟩ := applyRemoved_all hT hT'
  rw [ho1, ok_bind]
  rcases applyAdded_all hT hT' hT1 hi with ⟨ha, l2, ho2, hT2⟩ | ⟨hn, e, he⟩
  · rw [ho2, ok_bind]
    rcases applyUpdated_all hT hT' hkept hT2 with ⟨hu, ho3⟩ | ⟨hn, he⟩
    · exact .inl ⟨⟨ha, hu⟩, ho3⟩
    · exact .inr ⟨fun h => hn h.2, he⟩
  · exact .inr ⟨fun h => hn h.1, e, by rw [he, error_bind]⟩

omit hkept in
lemma applyDiff_buildDiff_eq (idx : BlockIndex) : l.applyDiff idx (l.buildDiff target) =
    l.applyChanges target { l with blockHash := idx.getBlockHash, nHeight := idx.nHeight } := by
  simp only [applyDiff, applyChanges, buildDiff_removed hT, buildDiff_added, buildDiff_updated hT',
    foldlM_map]

/-- Applying the difference leads to the second list exactly when the values are handed over in
order, and otherwise to an error. -/
lemma applyDiff_buildDiff_exact (hi : ∀ pre d post, l.fresh target = pre ++ d :: post →
      d.internalId = r.nTotalRegisteredCount + pre.length) (idx : BlockIndex) :
    (r.OrderlyTo s ∧ ∃ result, l.applyDiff idx (l.buildDiff target) = .ok result ∧
      result.Tracks { s with
        blockHash := idx.getBlockHash
        nHeight := idx.nHeight
        nTotalRegisteredCount := r.nTotalRegisteredCount + (l.fresh target).length }) ∨
    (¬ r.OrderlyTo s ∧ ∃ e, l.applyDiff idx (l.buildDiff target) = .error e) := by
  rw [applyDiff_buildDiff_eq hT hT']
  -- the loops read the lists only through their masternodes
  exact applyChanges_exact (hT.atBlock idx.getBlockHash idx.nHeight) hT' hkept hi

end Exact
end DeterministicMNList
end Trivechain.Evo
