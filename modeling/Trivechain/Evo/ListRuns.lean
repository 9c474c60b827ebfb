import Trivechain.Evo.Registry

/-!
# Runs of list operations

Any sequence of calls that change a `CDeterministicMNList` and do not assert. Three of them trust
their caller: `AddMN` with the internal id, and the two overloads of `UpdateMN` for a masternode
object with the object being the one in the list. After a run of calls that deserve this trust
(`Sound`) both indexes are exact, and no value is shared.
-/

namespace Trivechain.Evo
open PropertyHash (serializeHash)
open Run Registry DeterministicMN

inductive ListOp where
  | addMN (dmn : DeterministicMN)
  | updateMNOf (oldDmn : DeterministicMN) (pdmnState : DeterministicMNState)
  | updateMN (proTxHash : Uint256) (pdmnState : DeterministicMNState)
  | updateMNDiff (oldDmn : Option DeterministicMN) (stateDiff : DeterministicMNStateDiff)
  | removeMN (proTxHash : Uint256)
  | poSePunish (proTxHash : Uint256) (penalty : Int)
  | poSeDecrease (proTxHash : Uint256)

section Calls
variable [PropertyHash]

namespace ListOp

def apply (l : DeterministicMNList) : ListOp → Run DeterministicMNList
  | .addMN dmn => l.addMN dmn
  | .updateMNOf oldDmn pdmnState => l.updateMNOf oldDmn pdmnState
  | .updateMN proTxHash pdmnState => l.updateMN proTxHash pdmnState
  | .updateMNDiff oldDmn stateDiff => l.updateMNDiff oldDmn stateDiff
  | .removeMN proTxHash => l.removeMN proTxHash
  | .poSePunish proTxHash penalty => l.poSePunish proTxHash penalty
  | .poSeDecrease proTxHash => l.poSeDecrease proTxHash

def Sound (l : DeterministicMNList) : ListOp → Prop
  | .addMN dmn => l.mnInternalIdMap[dmn.internalId]? = none
  | .updateMNOf oldDmn _ => l.mnMap[oldDmn.proTxHash]? = some oldDmn
  | .updateMNDiff (some oldDmn) _ => l.mnMap[oldDmn.proTxHash]? = some oldDmn
  | _ => True

instance (l : DeterministicMNList) : (op : ListOp) → Decidable (op.Sound l)
  | .addMN dmn => inferInstanceAs (Decidable (l.mnInternalIdMap[dmn.internalId]? = none))
  | .updateMNOf oldDmn _ | .updateMNDiff (some oldDmn) _ =>
    inferInstanceAs (Decidable (l.mnMap[oldDmn.proTxHash]? = some oldDmn))
  | .updateMN _ _ | .updateMNDiff none _ | .removeMN _ | .poSePunish _ _ | .poSeDecrease _ =>
    inferInstanceAs (Decidable True)

end ListOp

/-- The lists that calls without a failing assertion lead to. -/
inductive Built : DeterministicMNList → Prop
  | empty (blockHash : Uint256) (nHeight : Int) (nTotalRegisteredCount : Nat) :
    Built { blockHash, nHeight, nTotalRegisteredCount }
  | call {l l' : DeterministicMNList} (op : ListOp) : Built l → op.apply l = .ok l' → Built l'

inductive SoundlyBuilt : DeterministicMNList → Prop
  | empty (blockHash : Uint256) (nHeight : Int) (nTotalRegisteredCount : Nat) :
    SoundlyBuilt { blockHash, nHeight, nTotalRegisteredCount }
  | call {l l' : DeterministicMNList} (op : ListOp) : SoundlyBuilt l → op.Sound l →
    op.apply l = .ok l' → SoundlyBuilt l'

namespace DeterministicMNList

/-- `props` are the indexed properties of a masternode, and both indexes are exact. -/
def ExactFor (props : DeterministicMN → List UniqueProperty) (l : DeterministicMNList) : Prop :=
  (∀ (k h : Uint256) (c : Nat), l.mnUniquePropertyMap[k]? = some (h, c) ↔
    0 < c ∧ ∃ dmn : DeterministicMN, l.mnMap[h]? = some dmn ∧
      ((props dmn).map serializeHash).count k = c) ∧
  ∀ (id : Nat) (h : Uint256), l.mnInternalIdMap[id]? = some h ↔
    ∃ dmn : DeterministicMN, l.mnMap[h]? = some dmn ∧ dmn.internalId = id

/-- Two masternodes of the list share none of their properties `props`. -/
def Unshared (props : DeterministicMN → List UniqueProperty) (l : DeterministicMNList) : Prop :=
  ∀ (h h' : Uint256) (dmn dmn' : DeterministicMN), l.mnMap[h]? = some dmn →
    l.mnMap[h']? = some dmn' → ∀ v ∈ props dmn, v ∈ props dmn' → h = h'

end DeterministicMNList

/-- The collateral, a service address that is not null, the owner key, and a valid operator
key. -/
def DeterministicMN.ownerAlways (dmn : DeterministicMN) : List UniqueProperty :=
  dmn.properties.filter fun v =>
    match v with
    | .collateralOutpoint _ | .keyIDOwner _ => true
    | .addr _ | .pubKeyOperator _ => !v.isNull

/-- The same, but the owner key only when it is not null. -/
def DeterministicMN.ownerIfSet (dmn : DeterministicMN) : List UniqueProperty :=
  dmn.properties.filter fun v =>
    match v with
    | .collateralOutpoint _ => true
    | .addr _ | .keyIDOwner _ | .pubKeyOperator _ => !v.isNull

namespace DeterministicMNList
variable {l l' : DeterministicMNList}

lemma apply_cases (hI : l.Indexed) {op : ListOp} (hs : op.Sound l) (ho : op.apply l = .ok l') :
    (∃ dmn : DeterministicMN, dmn.Proper ∧ l'.Refines (l.registry.insert dmn)) ∨
    (∃ (dmn : DeterministicMN) (s : DeterministicMNState),
      l.mnMap[dmn.proTxHash]? = some dmn ∧ l'.Refines (l.registry.insert (dmn.withState s))) ∨
    ∃ h, l'.Refines (l.registry.erase h) := by
  have hu : ∀ {h : Uint256} {s : DeterministicMNState}, l.updateMN h s = .ok l' →
      ∃ (dmn : DeterministicMN) (s : DeterministicMNState), l.mnMap[dmn.proTxHash]? = some dmn ∧
        l'.Refines (l.registry.insert (dmn.withState s)) := by
    intro h s ho
    obtain ⟨dmn, hd, ho⟩ := bind_ok.1 ho
    rw [demand_ok] at hd
    have he : l.mnMap[dmn.proTxHash]? = some dmn := by rwa [hI.proTxHash h dmn hd]
    exact ⟨dmn, s, he, updateMNOf_ok hI he ho⟩
  cases op with
  | addMN dmn =>
    obtain ⟨hp, hn, hf⟩ := addMN_ok hI ho
    have hi : ∀ (h : Uint256) (d : DeterministicMN), l.registry.mnMap[h]? = some d →
        d.internalId ≠ dmn.internalId := by
      intro h d hd hq
      have hm := (hI.internalIds dmn.internalId h).2 ⟨d, hd, hq⟩
      exact absurd (hm.symm.trans hs) nofun
    obtain ⟨l2, ho2, hR⟩ := addMN_spec ⟨hI, rfl⟩ hp hn hi hf
    exact .inl ⟨dmn, hp, Except.ok.inj (ho2.symm.trans ho) ▸ hR⟩
  | updateMNOf oldDmn s => exact .inr (.inl ⟨oldDmn, s, hs, updateMNOf_ok hI hs ho⟩)
  | updateMN h s => exact .inr (.inl (hu ho))
  | updateMNDiff oldDmn diff =>
    obtain ⟨dmn, hd, ho⟩ := bind_ok.1 ho
    obtain rfl := demand_ok.1 hd
    exact .inr (.inl ⟨dmn, _, hs, updateMNOf_ok hI hs ho⟩)
  | removeMN h =>
    obtain ⟨dmn, hd, hp⟩ := removeMN_ok ho
    obtain ⟨l2, ho2, hR⟩ := removeMN_spec hI hd hp
    exact .inr (.inr ⟨h, Except.ok.inj (ho2.symm.trans ho) ▸ hR⟩)
  | poSePunish h penalty =>
    obtain ⟨_, -, ho⟩ := bind_ok.1 ho
    obtain ⟨dmn, -, ho⟩ := bind_ok.1 ho
    exact .inr (.inl (hu ho))
  | poSeDecrease h =>
    obtain ⟨dmn, -, ho⟩ := bind_ok.1 ho
    obtain ⟨_, -, ho⟩ := bind_ok.1 ho
    exact .inr (.inl (hu ho))

def CollateralsSet (l : DeterministicMNList) : Prop :=
  ∀ (h : Uint256) (dmn : DeterministicMN), l.mnMap[h]? = some dmn →
    dmn.collateralOutpoint ≠ .null

lemma CollateralsSet.call (hs : l.CollateralsSet) (hI : l.Indexed) {op : ListOp}
    (hn : op.Sound l) (ho : op.apply l = .ok l') : l'.CollateralsSet := by
  intro h d hd
  rcases apply_cases hI hn ho with
    ⟨dmn, hp, hR⟩ | ⟨dmn, s, he, hR⟩ | ⟨h', hR⟩
  · rw [hR.mnMap, getElem?_insert] at hd
    split_ifs at hd
    · exact Option.some.inj hd ▸ hp.1
    · exact hs h d hd
  · rw [hR.mnMap, getElem?_insert] at hd
    split_ifs at hd
    · rw [← Option.some.inj hd]
      exact hs _ dmn he
    · exact hs h d hd
  · rw [hR.mnMap, getElem?_erase] at hd
    split_ifs at hd
    exact hs h d hd

lemma indexed_of_soundlyBuilt (hb : SoundlyBuilt l) : l.Indexed ∧ l.CollateralsSet := by
  induction hb with
  | empty blockHash nHeight nTotalRegisteredCount =>
    exact ⟨indexed_empty .., by simp [CollateralsSet]⟩
  | call op _ hs ho ih =>
    refine ⟨?_, ih.2.call ih.1 hs ho⟩
    rcases apply_cases ih.1 hs ho with ⟨_, -, hR⟩ | ⟨_, _, -, hR⟩ | ⟨_, hR⟩ <;>
      exact hR.indexed

omit [PropertyHash] in
lemma ownerIfSet_eq {dmn : DeterministicMN} (hs : dmn.collateralOutpoint ≠ .null) :
    dmn.ownerIfSet = dmn.properties.filter fun v => !v.isNull := by
  refine List.filter_congr fun v hv => ?_
  cases v with
  | collateralOutpoint o =>
    obtain rfl : o = dmn.collateralOutpoint := by
      simpa [properties, DeterministicMNState.properties] using hv
    simpa [UniqueProperty.isNull] using hs
  | _ => rfl

lemma keysIn_eq (vs : List UniqueProperty) :
    keysIn vs = (vs.filter fun v => !v.isNull).map serializeHash := by
  induction vs with
  | nil => rfl
  | cons v vs ih =>
    have hc : keysIn (v :: vs) = v.key.toList ++ keysIn vs := rfl
    rw [hc, ih]
    cases hv : v.isNull <;> simp [UniqueProperty.key, hv]

lemma exactFor_ownerIfSet (hI : l.Indexed) (hs : l.CollateralsSet) :
    l.ExactFor ownerIfSet := by
  refine ⟨fun k h c => (hI.properties k h c).trans (and_congr_right fun hp => ?_), hI.internalIds⟩
  unfold keysOf
  cases hd : l.mnMap[h]? with
  | none => simp; omega
  | some dmn => simp [ownerIfSet_eq (hs h dmn hd), keys, keysIn_eq]

lemma unshared_ownerIfSet (hI : l.Indexed) (hs : l.CollateralsSet) :
    l.Unshared ownerIfSet := by
  intro h h' dmn dmn' hd hd' v hv hv'
  rw [ownerIfSet_eq (hs h dmn hd), List.mem_filter] at hv
  rw [ownerIfSet_eq (hs h' dmn' hd'), List.mem_filter] at hv'
  exact hI.unique ⟨dmn, hd, hv.1, by simpa using hv.2⟩ ⟨dmn', hd', hv'.1, by simpa using hv'.2⟩

/-- After sound calls both indexes are exact and no two masternodes share a value. -/
theorem exact_and_unshared_of_soundlyBuilt (hb : SoundlyBuilt l) :
    l.ExactFor ownerIfSet ∧ l.Unshared ownerIfSet := by
  obtain ⟨hI, hs⟩ := indexed_of_soundlyBuilt hb
  exact ⟨exactFor_ownerIfSet hI hs, unshared_ownerIfSet hI hs⟩

end DeterministicMNList

section Runs

def runCalls (ops : List ListOp) : Run DeterministicMNList := ops.foldlM ListOp.apply {}

def runSoundCalls (ops : List ListOp) : Run DeterministicMNList :=
  ops.foldlM (fun l op => do Run.ensure (op.Sound l); op.apply l) {}

lemma exists_built (ops : List ListOp) (test : DeterministicMNList → Bool)
    (h : (runCalls ops).toOption.any test = true) : ∃ l, Built l ∧ test l = true := by
  cases hr : runCalls ops with
  | error e => simp [hr, Except.toOption] at h
  | ok l =>
    refine ⟨l, ?_, by simpa [hr, Except.toOption] using h⟩
    exact foldlM_invariant Built (fun _ op _ hb ho => .call op hb ho) ops _ l (.empty 0 (-1) 0) hr

lemma exists_soundlyBuilt (ops : List ListOp) (test : DeterministicMNList → Bool)
    (h : (runSoundCalls ops).toOption.any test = true) : ∃ l, SoundlyBuilt l ∧ test l = true := by
  cases hr : runSoundCalls ops with
  | error e => simp [hr, Except.toOption] at h
  | ok l =>
    refine ⟨l, ?_, by simpa [hr, Except.toOption] using h⟩
    refine foldlM_invariant SoundlyBuilt (fun _ op _ hb ho => ?_) ops _ l (.empty 0 (-1) 0) hr
    obtain ⟨_, hs, ho⟩ := bind_ok.1 ho
    exact .call op hb (ensure_ok.1 hs) ho

end Runs
end Calls

def sampleMN (proTxHash : Uint256) (internalId : Nat) : DeterministicMN where
  proTxHash
  internalId
  collateralOutpoint := ⟨proTxHash, 0⟩
  nOperatorReward := 0
  pdmnState := { keyIDOwner := proTxHash }

theorem exact_and_unshared_after_sample_run :
    ∃ l, @SoundlyBuilt encodingHash l ∧ (l.mnMap[2]?).isSome ∧
      @DeterministicMNList.ExactFor encodingHash ownerIfSet l ∧
      l.Unshared ownerIfSet := by
  let _ := encodingHash
  obtain ⟨l, hb, ht⟩ := exists_soundlyBuilt
    [.addMN (sampleMN 1 0), .addMN (sampleMN 2 1), .poSePunish 2 5, .removeMN 1]
    (fun l => (l.mnMap[2]?).isSome) (by decide)
  exact ⟨l, hb, ht, DeterministicMNList.exact_and_unshared_of_soundlyBuilt hb⟩

/-- Two masternodes may get one internal id or share a null owner key, and an update through an
object that is not the list's own leaves a value out of the index. -/
theorem unsound_calls_break_indexes :
    (∃ l, @Built encodingHash l ∧ ¬ @DeterministicMNList.ExactFor encodingHash ownerAlways l) ∧
    (∃ l, @Built encodingHash l ∧ ¬ l.Unshared ownerAlways) ∧
    ∃ l, @Built encodingHash l ∧ ∃ (h : Uint256) (dmn : DeterministicMN), l.mnMap[h]? = some dmn ∧
      ∃ v ∈ dmn.ownerAlways, v.isNull = false ∧
        l.mnUniquePropertyMap[encodingHash.serializeHash v]? = none := by
  let _ := encodingHash
  refine ⟨?_, ?_, ?_⟩
  · obtain ⟨l, hb, ht⟩ := exists_built [.addMN (sampleMN 1 0), .addMN (sampleMN 2 0)]
      (fun l => l.mnInternalIdMap[0]? == some 2 && (l.mnMap[1]?).any (·.internalId == 0))
      (by decide)
    refine ⟨l, hb, fun he => ?_⟩
    simp only [Bool.and_eq_true, beq_iff_eq, Option.any_eq_true] at ht
    obtain ⟨hi, dmn, hd, hz⟩ := ht
    have := (he.2 0 1).2 ⟨dmn, hd, hz⟩
    simp [hi] at this
  · obtain ⟨l, hb, ht⟩ := exists_built [.addMN (sampleMN 1 0), .updateMN 1 {},
        .addMN (sampleMN 2 1), .updateMN 2 {}]
      (fun l => (l.mnMap[1]?).any (·.pdmnState.keyIDOwner == 0) &&
        (l.mnMap[2]?).any (·.pdmnState.keyIDOwner == 0)) (by decide)
    refine ⟨l, hb, fun hu => ?_⟩
    simp only [Bool.and_eq_true, beq_iff_eq, Option.any_eq_true] at ht
    obtain ⟨⟨d, hd, hs⟩, d', hd', hs'⟩ := ht
    have hm : ∀ d : DeterministicMN, d.pdmnState.keyIDOwner = 0 →
        UniqueProperty.keyIDOwner 0 ∈ d.ownerAlways := by
      intro d hs
      simp [ownerAlways, properties, DeterministicMNState.properties, hs]
    have := hu 1 2 d d' hd hd' (.keyIDOwner 0) (hm d hs) (hm d' hs')
    simp at this
  · obtain ⟨l, hb, ht⟩ := exists_built [.addMN (sampleMN 1 0),
        .updateMNOf ((sampleMN 1 0).withState { keyIDOwner := 1, addr := ⟨7, 7⟩ })
          { keyIDOwner := 1, addr := ⟨7, 7⟩ }]
      (fun l => (l.mnMap[1]?).any (·.pdmnState.addr == ⟨7, 7⟩) &&
        (l.mnUniquePropertyMap[serializeHash (.addr ⟨7, 7⟩)]?).isNone) (by decide)
    simp only [Bool.and_eq_true, beq_iff_eq, Option.any_eq_true, Option.isNone_iff_eq_none] at ht
    obtain ⟨⟨d, hd, ha⟩, hn⟩ := ht
    refine ⟨l, hb, 1, d, hd, .addr ⟨7, 7⟩, ?_, by decide, hn⟩
    simp [ownerAlways, properties,
      DeterministicMNState.properties, ha, UniqueProperty.isNull, Service.null]

end Trivechain.Evo
