import Trivechain.Lib.Sim
import Trivechain.Evo.Soundness

/-!
# Building a list refines the replay on a registry

`Tracks l r`: the list `l` is the sound registry `r` with its indexes. On such lists every
part of `BuildNewListFromBlock` ends as its counterpart on the registry does.
-/

namespace Trivechain.Evo
open Bls Llmq UniqueProperty
open Run (denyIf orDeny dos Sim)
open Std (ExtTreeMap)
open Run Registry DeterministicMN List

namespace DeterministicMNList
variable [PropertyHash] [ChainHash]

structure Tracks (l : DeterministicMNList) (r : Registry) : Prop where
  refines : l.Refines r
  sound : r.Sound

namespace Tracks
variable {l : DeterministicMNList} {r : Registry} {dmn : DeterministicMN} {h : Uint256}
  {s : DeterministicMNState} (hT : l.Tracks r)
include hT

lemma getElem?_mnMap : l.mnMap[h]? = r.mnMap[h]? := by rw [hT.refines.mnMap]

lemma getUniquePropertyMN (v : UniqueProperty) : l.getUniquePropertyMN v = r.holder v := by
  refine Option.ext fun dmn => ?_
  rw [hT.refines.indexed.getUniquePropertyMN_eq_some, hT.sound.holder_eq_some, hT.getElem?_mnMap]

lemma hasUniqueProperty (v : UniqueProperty) : l.hasUniqueProperty v = (r.holder v).isSome := by
  rw [Bool.eq_iff_iff, hT.refines.indexed.hasUniqueProperty_iff, isSome_holder,
    hT.refines.registry_eq]

lemma heldBy_eq (v : UniqueProperty) (p : DeterministicMN → Bool) :
    heldBy l v p = .ok ((r.holder v).any p) := by
  unfold heldBy
  rw [hT.hasUniqueProperty, hT.getUniquePropertyMN]
  cases r.holder v <;> simp

section
variable (hd : r.mnMap[h]? = some dmn)
include hd

lemma updateMN (ho : s.keyIDOwner ≠ 0) (hf : r.Free (dmn.withState s)) :
    ∃ l', l.updateMN h s = .ok l' ∧ l'.Tracks (r.insert (dmn.withState s)) := by
  obtain ⟨⟨hI, rfl⟩, hS⟩ := hT
  obtain rfl := hS.keyed h dmn hd
  rcases updateMNOf_cases hI hd (s := s) with ⟨-, l', hk, hR⟩ | ⟨hn, -⟩
  · exact ⟨l', (updateMN_eq hd s).trans hk, hR, hS.update hd ho hf⟩
  · exact absurd hf hn

lemma updateMN_fault (hn : ¬ r.Free (dmn.withState s)) :
    l.updateMN h s = .error (.fault .assertion) := by
  obtain ⟨⟨hI, rfl⟩, hS⟩ := hT
  obtain rfl := hS.keyed h dmn hd
  rcases updateMNOf_cases hI hd (s := s) with ⟨hf, -⟩ | ⟨-, he⟩
  · exact absurd hf hn
  · exact (updateMN_eq hd s).trans he

lemma updateMN_of_properties_eq (hs : s.properties = dmn.pdmnState.properties) :
    ∃ l', l.updateMN h s = .ok l' ∧ l'.Tracks (r.insert (dmn.withState s)) := by
  have hf := hT.sound.free_withState hd fun u hu => .inl (hs ▸ hu)
  exact hT.updateMN hd (hT.sound.keyIDOwner_ne_zero hd hs) hf

lemma removeMN : ∃ l', l.removeMN h = .ok l' ∧ l'.Tracks (r.erase h) := by
  have hp := hT.sound.proper h dmn hd
  obtain ⟨⟨hI, rfl⟩, hS⟩ := hT
  obtain ⟨l', ho, hR⟩ := removeMN_spec hI hd hp
  exact ⟨l', ho, hR, hS.erase h⟩

end

lemma removeReplaced (o : OutPoint) :
    ∃ l', l.removeReplaced o = .ok l' ∧ l'.Tracks (r.release o) := by
  unfold DeterministicMNList.removeReplaced Registry.release getMNByCollateral
  rw [hT.getUniquePropertyMN]
  cases hh : r.holder (.collateralOutpoint o) with
  | none => exact ⟨l, rfl, hT⟩
  | some d => exact hT.removeMN (hT.sound.holder_eq_some.1 hh).1

lemma removeSpent (o : OutPoint) : ∃ l', l.removeSpent o = .ok l' ∧ l'.Tracks (r.release o) := by
  unfold DeterministicMNList.removeSpent Registry.release getMNByCollateral
  rw [hT.getUniquePropertyMN]
  cases hh : r.holder (.collateralOutpoint o) with
  | none => exact ⟨l, rfl, hT⟩
  | some d =>
    obtain ⟨hd, hm, -⟩ := hT.sound.holder_eq_some.1 hh
    have hc : d.collateralOutpoint = o := by
      simpa [properties, DeterministicMNState.properties, eq_comm] using hm
    simp only [hc, if_true]
    exact hT.removeMN hd

lemma foldlM_mapStates (g : DeterministicMN → DeterministicMNState)
    (step : DeterministicMNList → DeterministicMN → Run DeterministicMNList)
    (ds : List DeterministicMN) (hs : ∀ d ∈ ds, ∀ l r, Tracks l r → r.mnMap[d.proTxHash]? = some d →
      ∃ l', step l d = .ok l' ∧ l'.Tracks (r.insert (d.withState (g d))))
    (hn : (ds.map (·.proTxHash)).Nodup) (hmm : ∀ d ∈ ds, r.mnMap[d.proTxHash]? = some d) :
    ∃ l', ds.foldlM step l = .ok l' ∧
      l'.Tracks (r.mapStates fun d => if d ∈ ds then g d else d.pdmnState) := by
  induction ds generalizing l r with
  | nil =>
    refine ⟨l, rfl, ?_⟩
    have hsm : (r.mapStates fun d => if d ∈ [] then g d else d.pdmnState) = r := by
      have hm : (r.mnMap.map fun _ d => d.withState (if d ∈ [] then g d else d.pdmnState)) =
          r.mnMap := ExtTreeMap.ext_getElem? fun k => by
        rw [ExtTreeMap.getElem?_map]
        cases r.mnMap[k]? <;> simp
      simp only [Registry.mapStates, hm]
    rwa [hsm]
  | cons d ds ih =>
    simp only [map_cons, nodup_cons] at hn
    have hd := hmm d (by simp)
    -- the hash of `d` is not among those that follow
    have hne : ∀ e, e.proTxHash = d.proTxHash → e ∉ ds := fun e he hi =>
      hn.1 (he ▸ mem_map_of_mem hi)
    obtain ⟨l1, ho1, hT1⟩ := hs d (by simp) l r hT hd
    obtain ⟨l2, ho2, hT2⟩ := ih hT1 (fun e he => hs e (by simp [he])) hn.2 fun e he => by
      rw [getElem?_insert, if_neg]
      · exact hmm e (by simp [he])
      · exact fun hq => hne e hq he
    refine ⟨l2, by simp [foldlM_cons, ho1, ho2], ?_⟩
    have hq : ((r.insert (d.withState (g d))).mapStates
        fun e => if e ∈ ds then g e else e.pdmnState) =
        r.mapStates fun e => if e ∈ d :: ds then g e else e.pdmnState := by
      refine ext_mnMap (r := r) fun k => ?_
      have hy := hT.sound.keyed k
      simp only [ExtTreeMap.getElem?_map, getElem?_insert]
      by_cases hk : k = d.proTxHash
      · subst hk
        simp [hd, hne (d.withState (g d)) rfl]
      · simp only [withState_proTxHash, hk, if_false]
        cases he : r.mnMap[k]? with
        | none => rfl
        | some e =>
          have hed : e ≠ d := fun hed => hk (hed ▸ (hy e he).symm)
          simp [hed]
    rwa [hq] at hT2

lemma nodup_values : ((Maps.values r.mnMap).map (·.proTxHash)).Nodup :=
  Maps.nodup_map_values hT.sound.keyed

lemma mem_values : dmn ∈ Maps.values r.mnMap ↔ r.mnMap[dmn.proTxHash]? = some dmn := by
  rw [Maps.mem_values]
  constructor
  · rintro ⟨k, hk⟩
    rwa [hT.sound.keyed k dmn hk]
  · exact fun hd => ⟨_, hd⟩

lemma confirmMNs (env : Env) (prev : BlockIndex) {oldList : DeterministicMNList}
    (hold : oldList.mnMap = r.mnMap) : ∃ l', confirmMNs env prev oldList l = .ok l' ∧
      l'.Tracks (r.mapStates fun d => d.confirmed env prev) := by
  unfold DeterministicMNList.confirmMNs allMNs
  rw [hold]
  obtain ⟨l', ho, hT'⟩ := hT.foldlM_mapStates (fun d => d.confirmed env prev)
    (fun newList d => if d.Confirmable env prev then
      newList.updateMN d.proTxHash
        (d.pdmnState.updateConfirmedHash env d.proTxHash prev.getBlockHash)
      else .ok newList) (Maps.values r.mnMap) (fun d _ l r hT hd => by
    unfold confirmed
    split_ifs with hc
    · exact hT.updateMN_of_properties_eq hd rfl
    · exact ⟨l, rfl, by rwa [withState_self, insert_self hd]⟩)
    hT.nodup_values fun d hd => hT.mem_values.1 hd
  refine ⟨l', ho, ?_⟩
  rwa [mapStates_congr fun k d hk => if_pos (Maps.mem_values.2 ⟨k, hk⟩)] at hT'

lemma poSeDecrease (he : r.mnMap[h]? = some dmn)
    (hc : 0 < dmn.pdmnState.nPoSePenalty ∧ dmn.pdmnState.nPoSeBanHeight = -1) :
    ∃ l', l.poSeDecrease h = .ok l' ∧ l'.Tracks (r.insert (dmn.withState dmn.decreased)) := by
  obtain ⟨l', ho, hT'⟩ := hT.updateMN_of_properties_eq he
    (s := { dmn.pdmnState with nPoSePenalty := dmn.pdmnState.nPoSePenalty - 1 }) rfl
  refine ⟨l', ?_, ?_⟩
  · have hg : l.getMN h = some dmn := hT.getElem?_mnMap.trans he
    simp [DeterministicMNList.poSeDecrease, hg, ensure_pos hc, ho]
  · rwa [decreased, if_pos hc]

lemma decreasePoSePenalties :
    ∃ l', l.decreasePoSePenalties = .ok l' ∧ l'.Tracks (r.mapStates decreased) := by
  unfold DeterministicMNList.decreasePoSePenalties validMNs allMNs
  rw [hT.refines.mnMap, filter_filter, foldlM_map]
  generalize hs : filter _ (Maps.values r.mnMap) = ds
  have hm : ∀ d, d ∈ ds ↔ d ∈ Maps.values r.mnMap ∧
      0 < d.pdmnState.nPoSePenalty ∧ d.pdmnState.nPoSeBanHeight = -1 := by
    intro d
    simp only [← hs, mem_filter, isValid, isPoSeBanned]
    grind
  obtain ⟨l', ho, hT'⟩ := hT.foldlM_mapStates decreased (fun l d => l.poSeDecrease d.proTxHash) ds
    (fun d hd l r hT he => hT.poSeDecrease he ((hm d).1 hd).2)
    (hs ▸ (filter_sublist.map _).nodup hT.nodup_values)
    fun d hd => hT.mem_values.1 ((hm d).1 hd).1
  refine ⟨l', ho, ?_⟩
  rwa [mapStates_congr fun k d hk => ?_] at hT'
  split_ifs with hi
  · rfl
  · -- not in the loop: nothing to decrease
    rw [decreased, if_neg]
    exact fun hc => hi ((hm d).2 ⟨Maps.mem_values.2 ⟨k, hk⟩, hc⟩)

lemma count_succ : Tracks { l with nTotalRegisteredCount := l.nTotalRegisteredCount + 1 }
    { r with nTotalRegisteredCount := r.nTotalRegisteredCount + 1 } := by
  obtain ⟨⟨hI, rfl⟩, hS⟩ := hT
  exact ⟨⟨⟨hI.proTxHash, hI.properties, hI.internalIds⟩, rfl⟩, hS.count_succ⟩

lemma atBlock (blockHash : Uint256) (nHeight : Int) :
    Tracks { l with blockHash, nHeight } { r with blockHash, nHeight } := by
  obtain ⟨⟨hI, rfl⟩, hS⟩ := hT
  exact ⟨⟨⟨hI.proTxHash, hI.properties, hI.internalIds⟩, rfl⟩, hS.atBlock blockHash nHeight⟩

lemma addMN_registered {tx : Transaction} {proTx : ProRegTx} {nHeight : Int}
    (hy : tx.payload = .providerRegister (some proTx))
    {l1 : DeterministicMNList} (hT1 : l1.Tracks (r.prepare tx proTx))
    (ha : ((r.prepare tx proTx).holder (.addr proTx.addr)).isSome = false)
    (ho : ((r.prepare tx proTx).holder (.keyIDOwner proTx.keyIDOwner)).isSome = false)
    (hk : ((r.prepare tx proTx).holder (.pubKeyOperator proTx.pubKeyOperator)).isSome = false)
    (hs : proTx.keyIDOwner ≠ 0) : ∃ l', l1.addMN (r.bare.registeredMN nHeight tx proTx) = .ok l' ∧
      l'.Tracks ((r.prepare tx proTx).insert (r.bare.registeredMN nHeight tx proTx)) := by
  have hS1 := hT.sound.count_succ
  have hp : (r.bare.registeredMN nHeight tx proTx).Proper := ⟨collateralOf_ne_null tx proTx, hs⟩
  have hr : Registry.Registered (r.bare.registeredMN nHeight tx proTx) := ⟨tx, proTx, hy, rfl, rfl⟩
  have hi : ∀ (k : Uint256) (d : DeterministicMN), (r.prepare tx proTx).mnMap[k]? = some d →
      d.internalId ≠ r.nTotalRegisteredCount := fun k d hd =>
    Nat.ne_of_lt (hT.sound.id_lt k d (hS1.release_mnMap hd))
  -- an entry for the same transaction has its collateral
  have hw : (r.prepare tx proTx).mnMap[tx.getHash]? = none := by
    cases hd : (r.prepare tx proTx).mnMap[tx.getHash]? with
    | none => rfl
    | some d =>
      obtain ⟨tx', proTx', hp', hhs, hc⟩ := hT1.sound.registered _ d hd
      rw [hT1.sound.keyed _ d hd] at hhs
      obtain rfl := ChainHash.txHash_injective hhs
      obtain rfl : proTx' = proTx := by simpa [hy] using hp'.symm
      refine absurd ⟨d, hd, ?_,
        ?_⟩ (hS1.not_holder_release (h := tx'.getHash) (proTx'.collateralOf tx'))
      · simp [properties, hc]
      · simpa [isNull] using collateralOf_ne_null tx' proTx'
  have hf : (r.prepare tx proTx).Free (r.bare.registeredMN nHeight tx proTx) := by
    rintro v h' ⟨hv, -⟩ - hl
    have hn : ∀ {u}, ((r.prepare tx proTx).holder u).isSome = false →
        ¬ (r.prepare tx proTx).Holder h' u := fun hu hh => by
      simp [isSome_holder.2 ⟨h', hh⟩] at hu
    simp only [properties, DeterministicMNState.properties, mem_cons, not_mem_nil, or_false] at hv
    rcases hv with rfl | rfl | rfl | rfl
    · exact hS1.not_holder_release _ hl
    · exact hn ha hl
    · exact hn ho hl
    · exact hn hk hl
  obtain ⟨l', hok, hR⟩ := addMN_spec hT1.refines hp hw hi hf
  refine ⟨l', hok, hR, hT1.sound.insert hp ?_ (fun k d _ hd => hi k d hd) hr hf⟩
  simp [Registry.prepare, registeredMN, Registry.bare]

lemma processProRegTx_sim {tx : Transaction} {payload : Option ProRegTx}
    (hy : tx.payload = .providerRegister payload) (getUTXOCoin : OutPoint → Option TxOut)
    (nHeight : Int) : Sim Tracks (l.processProRegTx getUTXOCoin nHeight tx payload)
      (do r.register getUTXOCoin nHeight tx (← Run.demand .assertion payload)) := by
  refine Sim.bind_same fun proTx hp => ?_
  obtain rfl := demand_ok.1 hp
  have hm : l.registeredMN nHeight tx proTx = r.bare.registeredMN nHeight tx proTx := by
    simp only [registeredMN, Registry.bare, ← hT.refines.registry_eq]
    rfl
  obtain ⟨l1, hok, hT1⟩ := hT.count_succ.removeReplaced (proTx.collateralOf tx)
  simp only [hm, Registry.register]
  refine Sim.bind_same fun _ _ => ?_
  have hr : ∀ o, (r.bare.registeredMN nHeight tx proTx).collateralOutpoint = o →
      o = proTx.collateralOf tx := fun o ho => ho.symm
  rw [hr _ rfl, hok, ok_bind, hT1.hasUniqueProperty, hT1.hasUniqueProperty, hT1.hasUniqueProperty]
  refine Sim.bind_same fun _ ha => Sim.bind_same fun _ hk => ?_
  simp only [denyIf_ok, Bool.not_eq_true, not_or] at ha hk
  by_cases hs : proTx.keyIDOwner ≠ 0
  · obtain ⟨l2, ho2, hT2⟩ := hT.addMN_registered hy hT1 ha hk.1 hk.2 hs
    rw [ho2, ensure_pos hs]
    exact hT2
  · rw [ensure_neg hs]
    cases had : l1.addMN (r.bare.registeredMN nHeight tx proTx) with
    | error e => rw [addMN_error had]; rfl
    | ok l2 => exact absurd (addMN_ok hT1.refines.indexed had).1.2 hs

lemma getMN_eq (h : Uint256) : l.getMN h = r.mnMap[h]? := hT.getElem?_mnMap

lemma processProUpServTx_sim (nHeight : Int) (payload : Option ProUpServTx) :
    Sim Tracks (l.processProUpServTx nHeight payload)
      (do r.updateService nHeight (← Run.demand .assertion payload)) := by
  refine Sim.bind_same fun proTx _ => ?_
  rw [hT.heldBy_eq, ok_bind, hT.getMN_eq]
  refine Sim.bind_same fun _ hh => Sim.bind_same fun dmn hd => ?_
  rw [denyIf_ok] at hh
  rw [orDeny_ok] at hd
  have hf : r.Free (dmn.withState (proTx.newState nHeight dmn.pdmnState)) := by
    refine hT.sound.free_withState hd (forall_mem_state_properties.2 ⟨?_, ?_, ?_⟩)
    · rw [ProUpServTx.newState_addr]
      exact .inr (.inr hh)
    · simp [DeterministicMNState.properties]
    · simp [DeterministicMNState.properties]
  obtain ⟨l', ho, hT'⟩ := hT.updateMN hd (by simpa using (hT.sound.proper _ dmn hd).2) hf
  rw [ho]
  exact hT'

lemma processProUpRegTx_sim (nHeight : Int) (payload : Option ProUpRegTx) :
    Sim Tracks (l.processProUpRegTx nHeight payload)
      (do r.updateRegistrar nHeight (← Run.demand .assertion payload)) := by
  refine Sim.bind_same fun proTx _ => ?_
  rw [hT.getMN_eq]
  refine Sim.bind_same fun dmn hd => ?_
  rw [orDeny_ok] at hd
  have hS := hT.sound
  by_cases hh : r.heldByOther proTx.proTxHash (.pubKeyOperator proTx.pubKeyOperator)
  · -- the new key has another holder, so it is not null and the index refuses it
    have hn : ¬ r.Free (dmn.withState (proTx.newState nHeight dmn.pdmnState)) := by
      obtain ⟨h', he, hl⟩ := hS.heldByOther_iff.1 hh
      intro hf
      obtain ⟨d', hd', hv⟩ := hl
      refine hf _ h' ⟨?_, hv.2⟩ (by simpa [hS.keyed _ dmn hd] using he) ⟨d', hd', hv⟩
      simp [properties, DeterministicMNState.properties]
    rw [hT.updateMN_fault hd hn, ensure_neg (not_not.2 hh)]
    rfl
  · have hf : r.Free (dmn.withState (proTx.newState nHeight dmn.pdmnState)) := by
      refine hS.free_withState hd (forall_mem_state_properties.2 ⟨?_, ?_, ?_⟩)
      · rw [ProUpRegTx.newState_addr]
        split_ifs
        · exact .inr (.inl rfl)
        · simp [DeterministicMNState.properties]
      · simp [DeterministicMNState.properties]
      · exact .inr (.inr hh)
    obtain ⟨l', ho, hT'⟩ := hT.updateMN hd (by simpa using (hS.proper _ dmn hd).2) hf
    rw [ho, ensure_pos hh]
    exact hT'

lemma processProUpRevTx_sim (nHeight : Int) (payload : Option ProUpRevTx) :
    Sim Tracks (l.processProUpRevTx nHeight payload)
      (do r.updateRevoke nHeight (← Run.demand .assertion payload)) := by
  refine Sim.bind_same fun proTx _ => ?_
  rw [hT.getMN_eq]
  refine Sim.bind_same fun dmn hd => ?_
  rw [orDeny_ok] at hd
  have hf : r.Free (dmn.withState (proTx.newState nHeight dmn.pdmnState)) := by
    refine hT.sound.free_withState hd (forall_mem_state_properties.2 ⟨?_, ?_, ?_⟩)
    · exact .inr (.inl (by simp [isNull]))
    · simp [DeterministicMNState.properties]
    · exact .inr (.inl (by simp [isNull]))
  obtain ⟨l', ho, hT'⟩ := hT.updateMN hd (by simpa using (hT.sound.proper _ dmn hd).2) hf
  rw [ho]
  exact hT'

lemma setLastPaid (nHeight : Int) (payee : Option DeterministicMN) :
    ∃ l', l.setLastPaid nHeight payee = .ok l' ∧ l'.Tracks (r.setLastPaid nHeight payee) := by
  unfold DeterministicMNList.setLastPaid Registry.setLastPaid
  cases payee with
  | none => exact ⟨l, rfl, hT⟩
  | some p =>
    simp only [hT.getMN_eq, Option.bind_some]
    cases hd : r.mnMap[p.proTxHash]? with
    | none => exact ⟨l, rfl, hT⟩
    | some dmn => exact hT.updateMN_of_properties_eq hd rfl

lemma removeAllSpent : ∀ (os : List OutPoint),
    ∃ l', os.foldlM DeterministicMNList.removeSpent l = .ok l' ∧
      l'.Tracks (os.foldl Registry.release r) := by
  intro os
  induction os generalizing l r with
  | nil => exact ⟨l, rfl, hT⟩
  | cons o os ih =>
    obtain ⟨l1, ho1, hT1⟩ := hT.removeSpent o
    obtain ⟨l2, ho2, hT2⟩ := ih hT1
    exact ⟨l2, by simp [foldlM_cons, ho1, ho2], hT2⟩

omit hT [PropertyHash] [ChainHash] in
lemma properties_punishedState (l : DeterministicMNList) (s : DeterministicMNState)
    (penalty : Int) : (l.punishedState s penalty).properties = s.properties := by
  unfold punishedState
  dsimp only
  split_ifs <;> rfl

lemma punishMember_sim (qc : FinalCommitment) (entry : DeterministicMN × Nat) :
    Sim Tracks (punishMember qc l entry) (Registry.punishMember qc r entry) := by
  unfold punishMember Registry.punishMember
  rw [hT.getMN_eq]
  cases hd : r.mnMap[entry.1.proTxHash]? with
  | none => exact hT
  | some dmn =>
    refine Sim.bind_same fun bit _ => ?_
    cases bit with
    | true => exact hT
    | false =>
      have hp : 0 < l.calcMaxPoSePenalty * 66 / 100 := by
        unfold calcMaxPoSePenalty
        omega
      have hg : l.getMN entry.1.proTxHash = some dmn := (hT.getMN_eq _).trans hd
      have hb : r.bare.punishedState dmn.pdmnState (r.bare.calcMaxPoSePenalty * 66 / 100) =
          l.punishedState dmn.pdmnState (l.calcMaxPoSePenalty * 66 / 100) := by
        rw [← hT.refines.registry_eq]
        rfl
      obtain ⟨l', ho, hT'⟩ := hT.updateMN_of_properties_eq hd
        (properties_punishedState l dmn.pdmnState (l.calcMaxPoSePenalty * 66 / 100))
      simp only [Bool.false_eq_true, if_false, calcPenalty, poSePunish, hg, hb,
        ensure_pos (show (0 : Int) < 66 by decide), ensure_pos hp, ok_bind,
        pure_eq, demand_some, ho]
      exact hT'

end Tracks
end DeterministicMNList

open DeterministicMNList

section Block
variable [PropertyHash] [ChainHash] (env : Env) (view : ChainView) (prev : BlockIndex)
  {l : DeterministicMNList} {r : Registry} (hT : l.Tracks r)
include hT

lemma processQuorumCommitment_sim (payload : Option FinalCommitmentTxPayload) :
    Sim Tracks (processQuorumCommitment env view.ask prev l payload)
      (do r.punishMembers env view prev (← Run.demand .assertion payload)) := by
  refine Sim.bind_same fun qc _ => ?_
  unfold Registry.punishMembers
  split_ifs with hn
  · exact hT
  · refine Sim.bind_same fun quorumIndex _ => Sim.bind_same fun members _ => ?_
    exact Sim.foldlM _ (fun l r entry _ hT => hT.punishMember_sim qc.commitment entry) l r hT

lemma processTx_sim (tx : Transaction) :
    Sim Tracks (processTx env view.ask view.getUTXOCoin prev l tx)
      (Registry.applyTx env view prev r tx) := by
  unfold processTx Registry.applyTx
  dsimp only
  split_ifs with hv
  · exact hT
  · cases hp : tx.payload with
    | providerRegister payload => exact hT.processProRegTx_sim hp _ _
    | providerUpdateService payload => exact hT.processProUpServTx_sim _ payload
    | providerUpdateRegistrar payload => exact hT.processProUpRegTx_sim _ payload
    | providerUpdateRevoke payload => exact hT.processProUpRevTx_sim _ payload
    | quorumCommitment payload => exact processQuorumCommitment_sim env view prev hT payload
    | normal => exact hT
    | coinbase _ => exact hT
    | unknown _ => exact hT

omit hT in
lemma buildNewListFromBlock_sim (hT : (view.getListForBlock prev).Tracks r) (block : Block) :
    Sim Tracks (buildNewListFromBlock env view.ask view.getUTXOCoin prev block)
      (r.applyBlock env view prev block) := by
  obtain ⟨l1, ho1, hT1⟩ := (hT.atBlock 0 (prev.nHeight + 1)).confirmMNs env prev
    hT.refines.mnMap
  obtain ⟨l2, ho2, hT2⟩ := hT1.decreasePoSePenalties
  have hp : (view.getListForBlock prev).getMNPayee = r.bare.getMNPayee := by
    rw [← hT.refines.registry_eq]
    rfl
  have hb : buildNewListFromBlock env view.ask view.getUTXOCoin prev block = (do
      let newList ← block.txs.foldlM (processTx env view.ask view.getUTXOCoin prev) l2
      let newList ← block.spent.foldlM DeterministicMNList.removeSpent newList
      newList.setLastPaid (prev.nHeight + 1) r.bare.getMNPayee) := by
    unfold buildNewListFromBlock
    simp only [ChainView.ask, ok_bind, ho1, ho2, hp, liftM, monadLift_self]
  rw [hb]
  refine Sim.bind (Sim.foldlM block.txs (fun l r tx _ hT => processTx_sim env view prev hT tx)
    l2 _ hT2) fun l3 r3 hT3 => ?_
  obtain ⟨l4, ho4, hT4⟩ := hT3.removeAllSpent block.spent
  obtain ⟨l5, ho5, hT5⟩ := hT4.setLastPaid (prev.nHeight + 1) r.bare.getMNPayee
  rw [ho4, ok_bind, ho5]
  exact hT5

end Block
end Trivechain.Evo
