import Trivechain.Evo.Replay

/-!
# Sound registries

`Registry.Sound` holds of the registry behind every list that blocks lead to: no value has two
holders, internal ids are those given out so far, and every masternode comes from a registration.
Additions, updates and removals keep it.
-/

namespace Trivechain.Evo
open Bls Llmq List
open Std (ExtTreeMap)

namespace Registry
variable {r : Registry} {dmn : DeterministicMN} {h h' : Uint256} {v : UniqueProperty}

lemma holder_insert :
    (r.insert dmn).Holder h v ↔ if h = dmn.proTxHash then dmn.Holds v else r.Holder h v := by
  unfold Holder
  rw [getElem?_insert]
  split_ifs <;> simp

lemma holder_erase : (r.erase h).Holder h' v ↔ h' ≠ h ∧ r.Holder h' v := by
  unfold Holder
  rw [getElem?_erase]
  split_ifs with he <;> simp [he]

lemma isSome_holder : (r.holder v).isSome = true ↔ ∃ h, r.Holder h v := by
  simp only [holder, find?_isSome, Maps.mem_values, decide_eq_true_eq, Holder]
  constructor
  · rintro ⟨d, ⟨k, hk⟩, hv⟩
    exact ⟨k, d, hk, hv⟩
  · rintro ⟨k, d, hk, hv⟩
    exact ⟨d, ⟨k, hk⟩, hv⟩

@[simp] lemma getElem?_mapStates (f : DeterministicMN → DeterministicMNState) :
    (r.mapStates f).mnMap[h]? = (r.mnMap[h]?).map fun dmn => dmn.withState (f dmn) := by
  simp [mapStates]

lemma ext_mnMap {m m' : MNMap} (hm : ∀ h : Uint256, m[h]? = m'[h]?) :
    { r with mnMap := m } = { r with mnMap := m' } := by
  rw [ExtTreeMap.ext_getElem? (fun k => hm k)]

lemma mapStates_congr {f g : DeterministicMN → DeterministicMNState}
    (hf : ∀ (h : Uint256) (dmn : DeterministicMN), r.mnMap[h]? = some dmn → f dmn = g dmn) :
    r.mapStates f = r.mapStates g := by
  refine ext_mnMap fun h => ?_
  simp only [ExtTreeMap.getElem?_map]
  cases hd : r.mnMap[h]? with
  | none => rfl
  | some dmn => simp [hf h dmn hd]

lemma insert_self (hd : r.mnMap[dmn.proTxHash]? = some dmn) : r.insert dmn = r := by
  have hm : r.mnMap.insert dmn.proTxHash dmn = r.mnMap := by
    refine ExtTreeMap.ext_getElem? fun h => ?_
    rw [Maps.getElem?_insert]
    split_ifs with he
    · rw [he, hd]
    · rfl
  simp [insert, hm]

variable [ChainHash]

def Registered (dmn : DeterministicMN) : Prop :=
  ∃ (tx : Transaction) (proTx : ProRegTx), tx.payload = .providerRegister (some proTx) ∧
    tx.getHash = dmn.proTxHash ∧
    proTx.collateralOf tx = dmn.collateralOutpoint

structure Sound (r : Registry) : Prop where
  keyed : ∀ (h : Uint256) (dmn : DeterministicMN), r.mnMap[h]? = some dmn → dmn.proTxHash = h
  unique : ∀ (h h' : Uint256) (v : UniqueProperty), r.Holder h v → r.Holder h' v → h = h'
  proper : ∀ (h : Uint256) (dmn : DeterministicMN), r.mnMap[h]? = some dmn → dmn.Proper
  id_lt : ∀ (h : Uint256) (dmn : DeterministicMN), r.mnMap[h]? = some dmn →
    dmn.internalId < r.nTotalRegisteredCount
  id_unique : ∀ (h h' : Uint256) (dmn dmn' : DeterministicMN), r.mnMap[h]? = some dmn →
    r.mnMap[h']? = some dmn' → dmn.internalId = dmn'.internalId → h = h'
  registered : ∀ (h : Uint256) (dmn : DeterministicMN), r.mnMap[h]? = some dmn → Registered dmn

lemma sound_empty (blockHash : Uint256) (nHeight : Int) (nTotalRegisteredCount : Nat) :
    Sound { blockHash, nHeight, nTotalRegisteredCount } := by
  constructor <;> simp [Holder]

namespace Sound
variable (hS : r.Sound)
include hS

lemma holder_eq_some :
    r.holder v = some dmn ↔ r.mnMap[dmn.proTxHash]? = some dmn ∧ dmn.Holds v := by
  constructor
  · intro hh
    have hv : dmn.Holds v := by simpa using find?_some hh
    obtain ⟨k, hk⟩ := Maps.mem_values.1 (mem_of_find?_eq_some hh)
    rw [hS.keyed k dmn hk]
    exact ⟨hk, hv⟩
  · rintro ⟨hd, hv⟩
    obtain ⟨d, hf⟩ := Option.isSome_iff_exists.1 (isSome_holder.2 ⟨_, dmn, hd, hv⟩)
    have hv' : d.Holds v := by simpa using find?_some hf
    obtain ⟨k, hk⟩ := Maps.mem_values.1 (mem_of_find?_eq_some hf)
    obtain rfl := hS.unique _ _ v ⟨dmn, hd, hv⟩ ⟨d, hk, hv'⟩
    rw [hf, ← hk, hd]

lemma heldByOther_iff : r.heldByOther h v ↔ ∃ h', h' ≠ h ∧ r.Holder h' v := by
  simp only [heldByOther, Option.any_eq_true, hS.holder_eq_some, decide_eq_true_eq]
  constructor
  · rintro ⟨d, ⟨hd, hv⟩, hn⟩
    exact ⟨_, hn, d, hd, hv⟩
  · rintro ⟨h', hn, d, hd, hv⟩
    obtain rfl := hS.keyed h' d hd
    exact ⟨d, ⟨hd, hv⟩, hn⟩

variable {s : DeterministicMNState}

lemma free_withState (hd : r.mnMap[h]? = some dmn)
    (hw : ∀ u ∈ s.properties, u ∈ dmn.pdmnState.properties ∨ u.isNull = true ∨
      ¬ r.heldByOther h u) : r.Free (dmn.withState s) := by
  obtain rfl := hS.keyed h dmn hd
  rintro u h' ⟨hu, hn⟩ he hh
  -- a value that the masternode holds already has no other holder
  have ho : u ∈ dmn.properties → False := fun hm =>
    he (hS.unique _ _ u hh ⟨dmn, hd, hm, hn⟩)
  rcases mem_cons.1 hu with rfl | hu
  · exact ho (by simp [DeterministicMN.properties])
  · rcases hw u hu with hold | hn' | hf
    · exact ho (mem_cons_of_mem _ hold)
    · simp [hn] at hn'
    · exact hf (hS.heldByOther_iff.2 ⟨h', he, hh⟩)

lemma insert (hp : dmn.Proper) (hl : dmn.internalId < r.nTotalRegisteredCount)
    (hi : ∀ (k : Uint256) (d : DeterministicMN), k ≠ dmn.proTxHash → r.mnMap[k]? = some d →
      d.internalId ≠ dmn.internalId)
    (hr : Registered dmn) (hf : r.Free dmn) : (r.insert dmn).Sound := by
  have hc : ∀ {k : Uint256} {d : DeterministicMN}, (r.insert dmn).mnMap[k]? = some d →
      (k = dmn.proTxHash ∧ d = dmn) ∨ (k ≠ dmn.proTxHash ∧ r.mnMap[k]? = some d) := by
    intro k d hk
    rw [getElem?_insert] at hk
    split_ifs at hk with hkk
    · exact .inl ⟨hkk, (Option.some.inj hk).symm⟩
    · exact .inr ⟨hkk, hk⟩
  constructor
  · intro k d hk
    rcases hc hk with ⟨rfl, rfl⟩ | ⟨-, hk⟩
    · rfl
    · exact hS.keyed k d hk
  · intro k k' u hu hu'
    rw [holder_insert] at hu hu'
    split_ifs at hu hu' with h1 h2 h2
    · exact h1.trans h2.symm
    · exact absurd hu' (hf u k' hu h2)
    · exact absurd hu (hf u k hu' h1)
    · exact hS.unique k k' u hu hu'
  · intro k d hk
    rcases hc hk with ⟨-, rfl⟩ | ⟨-, hk⟩
    · exact hp
    · exact hS.proper k d hk
  · intro k d hk
    rcases hc hk with ⟨-, rfl⟩ | ⟨-, hk⟩
    · exact hl
    · exact hS.id_lt k d hk
  · intro k k' d d' hk hk' he
    rcases hc hk with ⟨hy, rfl⟩ | ⟨hn, hold⟩
    · rcases hc hk' with ⟨hy', -⟩ | ⟨hn', hold'⟩
      · exact hy.trans hy'.symm
      · exact absurd he.symm (hi k' d' hn' hold')
    · rcases hc hk' with ⟨-, rfl⟩ | ⟨hn', hold'⟩
      · exact absurd he (hi k d hn hold)
      · exact hS.id_unique k k' d d' hold hold' he
  · intro k d hk
    rcases hc hk with ⟨-, rfl⟩ | ⟨-, hk⟩
    · exact hr
    · exact hS.registered k d hk

section
variable (hd : r.mnMap[h]? = some dmn)
include hd

lemma update (ho : s.keyIDOwner ≠ 0) (hf : r.Free (dmn.withState s)) :
    (r.insert (dmn.withState s)).Sound := by
  obtain rfl := hS.keyed h dmn hd
  refine hS.insert ⟨(hS.proper _ dmn hd).1, ho⟩ (hS.id_lt _ dmn hd) (fun k d hn hk he => ?_)
    (hS.registered _ dmn hd) hf
  exact hn (hS.id_unique k _ d dmn hk hd he)

lemma keyIDOwner_ne_zero (hs : s.properties = dmn.pdmnState.properties) : s.keyIDOwner ≠ 0 := by
  have ho := (hS.proper h dmn hd).2
  simp only [DeterministicMNState.properties, cons.injEq, UniqueProperty.keyIDOwner.injEq]
    at hs
  rwa [hs.2.1]

lemma update_of_properties_eq (hs : s.properties = dmn.pdmnState.properties) :
    (r.insert (dmn.withState s)).Sound :=
  hS.update hd (hS.keyIDOwner_ne_zero hd hs) (hS.free_withState hd fun _ hu => .inl (hs ▸ hu))

end

lemma erase (h : Uint256) : (r.erase h).Sound := by
  have hs : ∀ {k : Uint256} {d : DeterministicMN},
      (r.erase h).mnMap[k]? = some d → r.mnMap[k]? = some d := by
    intro k d hk
    rw [getElem?_erase] at hk
    split_ifs at hk
    exact hk
  constructor
  · exact fun k d hk => hS.keyed k d (hs hk)
  · exact fun k k' u hu hu' => hS.unique k k' u (holder_erase.1 hu).2 (holder_erase.1 hu').2
  · exact fun k d hk => hS.proper k d (hs hk)
  · exact fun k d hk => hS.id_lt k d (hs hk)
  · exact fun k k' d d' hk hk' => hS.id_unique k k' d d' (hs hk) (hs hk')
  · exact fun k d hk => hS.registered k d (hs hk)

omit [ChainHash] hS in
lemma release_cases (o : OutPoint) :
    (∃ dmn, r.holder (.collateralOutpoint o) = some dmn ∧ r.release o = r.erase dmn.proTxHash) ∨
    (r.holder (.collateralOutpoint o) = none ∧ r.release o = r) := by
  unfold Registry.release
  cases hh : r.holder (.collateralOutpoint o) with
  | none => exact .inr ⟨rfl, rfl⟩
  | some dmn => exact .inl ⟨dmn, rfl, rfl⟩

lemma getElem?_release (o : OutPoint) : (r.release o).mnMap[h]? = some dmn ↔
    r.mnMap[h]? = some dmn ∧ ¬ dmn.Holds (.collateralOutpoint o) := by
  rcases release_cases o with ⟨d, hd, hq⟩ | ⟨hn, hq⟩
  · obtain ⟨he, hl⟩ := hS.holder_eq_some.1 hd
    rw [hq, getElem?_erase]
    split_ifs with hh
    · simp only [false_iff, not_and, not_not]
      intro hm
      rw [hh, he] at hm
      exact Option.some.inj hm ▸ hl
    · refine ⟨fun hm => ⟨hm, fun hv => hh ?_⟩, And.left⟩
      exact hS.unique _ _ _ ⟨dmn, hm, hv⟩ ⟨d, he, hl⟩
  · rw [hq]
    refine ⟨fun hm => ⟨hm, fun hv => ?_⟩, And.left⟩
    have := isSome_holder.2 ⟨h, dmn, hm, hv⟩
    simp [hn] at this

lemma release (o : OutPoint) : (r.release o).Sound := by
  unfold Registry.release
  split
  · exact hS.erase _
  · exact hS

lemma count_succ : Sound { r with nTotalRegisteredCount := r.nTotalRegisteredCount + 1 } where
  keyed := hS.keyed
  unique := hS.unique
  proper := hS.proper
  id_lt := fun h dmn hd => Nat.lt_succ_of_lt (hS.id_lt h dmn hd)
  id_unique := hS.id_unique
  registered := hS.registered

lemma atBlock (blockHash : Uint256) (nHeight : Int) : Sound { r with blockHash, nHeight } where
  keyed := hS.keyed
  unique := hS.unique
  proper := hS.proper
  id_lt := hS.id_lt
  id_unique := hS.id_unique
  registered := hS.registered

lemma release_mnMap {o : OutPoint} (hd : (r.release o).mnMap[h]? = some dmn) :
    r.mnMap[h]? = some dmn := ((hS.getElem?_release o).1 hd).1

lemma not_holder_release (o : OutPoint) : ¬ (r.release o).Holder h (.collateralOutpoint o) := by
  rintro ⟨d, hd, hv⟩
  exact ((hS.getElem?_release o).1 hd).2 hv

end Sound

lemma collateralOf_ne_null (tx : Transaction) (proTx : ProRegTx) :
    proTx.collateralOf tx ≠ .null := by
  intro hn
  have hh : (proTx.collateralOf tx).hash = 0 := by rw [hn]; rfl
  unfold ProRegTx.collateralOf at hh
  split_ifs at hh with hi
  · exact ChainHash.txHash_ne_zero tx hh
  · exact hi (by simpa [ProRegTx.internalCollateral] using hh)

end Registry
end Trivechain.Evo
