import Trivechain.Evo.BlockSafety
import Trivechain.Evo.ListDiff

/-!
# Differences between the lists of consecutive blocks

The manager stores the list of a block as its difference to the list of the previous block.
`roundTrips_iff` says for which blocks it leads back to the list: all registrations of the block
have to last, as the count of registrations is only kept for added masternodes, and a value that a
masternode gives up may not be taken by one that is applied before it.
-/

namespace Trivechain.Evo
open DeterministicMNList Option
open Std (ExtTreeMap)
open Run Registry List Except

section Consecutive

/-- An increasing list of `n` numbers from `c` on and below `c + n` is consecutive. -/
lemma eq_range'_of_increasing {ns : List Nat} {c : Nat} (hs : ns.Pairwise (· < ·))
    (hb : ∀ n ∈ ns, c ≤ n ∧ n < c + ns.length) : ns = range' c ns.length := by
  have hd : ns.Nodup := hs.imp Nat.ne_of_lt
  have hsb : ns ⊆ range' c ns.length := fun n hn => by
    simpa [mem_range'_1] using hb n hn
  have hp : ns.Perm (range' c ns.length) := (subperm_of_subset hd hsb).perm_of_length_le (by simp)
  refine hp.eq_of_pairwise (fun a b _ _ ha hba => ?_) hs ?_
  · exact absurd (ha.trans hba) (lt_irrefl a)
  · exact pairwise_lt_range'

end Consecutive

section Count
variable [PropertyHash] {l l' : DeterministicMNList} {h : Uint256} {v v' : UniqueProperty}

lemma addUniqueProperty_withIndex (ho : l.addUniqueProperty h v = .ok l') :
    ∃ idx, l' = l.withIndex idx := by
  obtain ⟨_, -, h1⟩ := bind_ok.1 ho
  obtain ⟨idx, -, h2⟩ := bind_ok.1 h1
  exact ⟨idx, (ok.inj h2).symm⟩

lemma deleteUniqueProperty_withIndex (ho : l.deleteUniqueProperty h v = .ok l') :
    ∃ idx, l' = l.withIndex idx := by
  obtain ⟨_, -, h1⟩ := bind_ok.1 ho
  obtain ⟨idx, -, h2⟩ := bind_ok.1 h1
  exact ⟨idx, (ok.inj h2).symm⟩

lemma addIfSet_withIndex (ho : l.addIfSet h v = .ok l') : ∃ idx, l' = l.withIndex idx := by
  unfold DeterministicMNList.addIfSet at ho
  split_ifs at ho
  · exact ⟨l.mnUniquePropertyMap, (ok.inj ho).symm⟩
  · exact addUniqueProperty_withIndex ho

lemma deleteIfSet_withIndex (ho : l.deleteIfSet h v = .ok l') : ∃ idx, l' = l.withIndex idx := by
  unfold DeterministicMNList.deleteIfSet at ho
  split_ifs at ho
  · exact ⟨l.mnUniquePropertyMap, (ok.inj ho).symm⟩
  · exact deleteUniqueProperty_withIndex ho

lemma updateUniqueProperty_withIndex (ho : l.updateUniqueProperty h v v' = .ok l') :
    ∃ idx, l' = l.withIndex idx := by
  unfold DeterministicMNList.updateUniqueProperty at ho
  split_ifs at ho
  · exact ⟨l.mnUniquePropertyMap, (ok.inj ho).symm⟩
  · obtain ⟨l1, h1, h2⟩ := bind_ok.1 ho
    obtain ⟨idx, rfl⟩ := deleteIfSet_withIndex h1
    obtain ⟨idx', rfl⟩ := addIfSet_withIndex h2
    exact ⟨idx', rfl⟩

lemma count_addMN {dmn : DeterministicMN} (ho : l.addMN dmn = .ok l') :
    l'.nTotalRegisteredCount = l.nTotalRegisteredCount := by
  obtain ⟨_, -, h0⟩ := bind_ok.1 ho
  obtain ⟨l1, h1, h0⟩ := bind_ok.1 h0
  obtain ⟨l2, h2, h0⟩ := bind_ok.1 h0
  obtain ⟨l3, h3, h4⟩ := bind_ok.1 h0
  obtain ⟨_, rfl⟩ := addUniqueProperty_withIndex h1
  obtain ⟨_, rfl⟩ := addIfSet_withIndex h2
  obtain ⟨_, rfl⟩ := addUniqueProperty_withIndex h3
  obtain ⟨_, rfl⟩ := addIfSet_withIndex h4
  rfl

lemma count_removeMN (ho : l.removeMN h = .ok l') :
    l'.nTotalRegisteredCount = l.nTotalRegisteredCount := by
  obtain ⟨dmn, -, h0⟩ := bind_ok.1 ho
  obtain ⟨l1, h1, h0⟩ := bind_ok.1 h0
  obtain ⟨l2, h2, h0⟩ := bind_ok.1 h0
  obtain ⟨l3, h3, h0⟩ := bind_ok.1 h0
  obtain ⟨l4, h4, h0⟩ := bind_ok.1 h0
  obtain ⟨_, rfl⟩ := deleteUniqueProperty_withIndex h1
  obtain ⟨_, rfl⟩ := deleteIfSet_withIndex h2
  obtain ⟨_, rfl⟩ := deleteUniqueProperty_withIndex h3
  obtain ⟨_, rfl⟩ := deleteIfSet_withIndex h4
  rw [← ok.inj h0]
  rfl

lemma count_updateMNOf {dmn : DeterministicMN} {s : DeterministicMNState}
    (ho : l.updateMNOf dmn s = .ok l') : l'.nTotalRegisteredCount = l.nTotalRegisteredCount := by
  obtain ⟨l1, h1, h0⟩ := bind_ok.1 ho
  obtain ⟨l2, h2, h3⟩ := bind_ok.1 h0
  obtain ⟨_, rfl⟩ := updateUniqueProperty_withIndex h1
  obtain ⟨_, rfl⟩ := updateUniqueProperty_withIndex h2
  obtain ⟨_, rfl⟩ := updateUniqueProperty_withIndex h3
  rfl

lemma count_applyRemoved {id : Nat} (ho : l.applyRemoved id = .ok l') :
    l'.nTotalRegisteredCount = l.nTotalRegisteredCount := by
  obtain ⟨dmn, -, h1⟩ := bind_ok.1 ho
  exact count_removeMN h1

lemma count_applyAdded {dmn : DeterministicMN} (ho : l.applyAdded dmn = .ok l') :
    l'.nTotalRegisteredCount = l.nTotalRegisteredCount + 1 := by
  obtain ⟨_, -, h1⟩ := bind_ok.1 ho
  obtain ⟨l1, h2, h3⟩ := bind_ok.1 h1
  rw [← ok.inj h3, ← count_addMN h2]

lemma count_applyUpdated {p : Nat × DeterministicMNStateDiff} (ho : l.applyUpdated p = .ok l') :
    l'.nTotalRegisteredCount = l.nTotalRegisteredCount := by
  obtain ⟨dmn, -, h1⟩ := bind_ok.1 ho
  exact count_updateMNOf h1

lemma count_foldlM_applyAdded : ∀ (ds : List DeterministicMN) {l l' : DeterministicMNList},
    ds.foldlM applyAdded l = .ok l' →
    l'.nTotalRegisteredCount = l.nTotalRegisteredCount + ds.length
  | [], l, l', ho => by rw [← ok.inj ho]; rfl
  | d :: ds, l, l', ho => by
    obtain ⟨l1, h1, h2⟩ := bind_ok.1 ((foldlM_cons ..).symm.trans ho)
    rw [count_foldlM_applyAdded ds h2, count_applyAdded h1, length_cons]
    omega

lemma count_applyDiff [ChainHash] {pindex : BlockIndex} {diff : DeterministicMNListDiff}
    (ho : l.applyDiff pindex diff = .ok l') :
    l'.nTotalRegisteredCount = l.nTotalRegisteredCount + diff.addedMNs.length := by
  obtain ⟨l1, h1, h0⟩ := bind_ok.1 ho
  obtain ⟨l2, h2, h3⟩ := bind_ok.1 h0
  have hr : l1.nTotalRegisteredCount = l.nTotalRegisteredCount :=
    foldlM_invariant (f := applyRemoved) (fun q => q.nTotalRegisteredCount =
      l.nTotalRegisteredCount) (fun _ _ _ hq hs => (count_applyRemoved hs).trans hq) _ _ l1
      (by rfl) h1
  have hu : l'.nTotalRegisteredCount = l2.nTotalRegisteredCount :=
    foldlM_invariant (f := applyUpdated) (fun q => q.nTotalRegisteredCount =
      l2.nTotalRegisteredCount) (fun _ _ _ hq hs => (count_applyUpdated hs).trans hq) _ _ l'
      rfl h3
  rw [hu, count_foldlM_applyAdded _ h2, hr]

end Count

section RoundTrip
variable [PropertyHash] [ChainHash] {env : Env}

/-- The difference of the lists can be applied, and leads to all maps of the second list. -/
def RoundTrips (pindex : BlockIndex) (oldList newList : DeterministicMNList) : Prop :=
  ∃ result, oldList.applyDiff pindex (oldList.buildDiff newList) = .ok result ∧
    result.mnMap = newList.mnMap ∧ result.mnInternalIdMap = newList.mnInternalIdMap ∧
    result.mnUniquePropertyMap = newList.mnUniquePropertyMap ∧
    result.nTotalRegisteredCount = newList.nTotalRegisteredCount

variable {l l' : DeterministicMNList} {r r' : Registry} (hT : l.Tracks r) (hT' : l'.Tracks r')
  {block : Block} (hroll : r'.roll = r.roll.applyBlock block)
include hT hT' hroll

lemma length_fresh_iff : r.nTotalRegisteredCount + (l.fresh l').length = r'.nTotalRegisteredCount ↔
      r.roll.Lasting block := by
  have hnd : ((l.fresh l').map (·.proTxHash)).Nodup := hT'.nodup_sortById _
  have hm : ∀ h, h ∈ (l.fresh l').map (·.proTxHash) ↔
      ((r.roll.applyBlock block).entry h).isSome ∧ r.roll.entry h = none := by
    intro h
    rw [← hroll]
    simp only [Registry.roll, isSome_map, map_eq_none_iff]
    constructor
    · intro hh
      obtain ⟨d, hd, rfl⟩ := mem_map.1 hh
      obtain ⟨hn, hold⟩ := (mem_fresh hT hT').1 hd
      exact ⟨by simp [hn], hold⟩
    · rintro ⟨hn, hold⟩
      obtain ⟨d, hd⟩ := isSome_iff_exists.1 hn
      obtain rfl := hT'.sound.keyed h d hd
      exact mem_map_of_mem ((mem_fresh hT hT').2 ⟨hd, hold⟩)
  have hc : r'.nTotalRegisteredCount =
      r.nTotalRegisteredCount + (Roll.registrations block.txs).length :=
    (congrArg Roll.count hroll).trans (Roll.count_applyBlock ..)
  rw [← Roll.length_added_iff hnd hm, length_map, hc]
  omega

omit [PropertyHash] hT hT' in
lemma entry_eq_of_lasting (hL : r.roll.Lasting block) (h : Uint256) (a b : DeterministicMN)
    (ha : r.mnMap[h]? = some a) (hb : r'.mnMap[h]? = some b) : a.entry = b.entry := by
  have hr : r.roll.entry h = some a.entry := roll_entry.2 ⟨a, ha, rfl⟩
  have hrb : (r.roll.applyBlock block).entry h = some b.entry := hroll ▸ roll_entry.2 ⟨b, hb, rfl⟩
  obtain ⟨⟨hs, -⟩ | ⟨i, x, hx, rfl, -⟩, -⟩ := Roll.entry_applyBlock.1 hrb
  · exact some.inj (hr.symm.trans hs)
  · simp [hL.unregistered x (mem_of_getElem? hx)] at hr

lemma consecutive_of_lasting (hL : r.roll.Lasting block) (pre : List DeterministicMN)
    (d : DeterministicMN) (post : List DeterministicMN) (hs : l.fresh l' = pre ++ d :: post) :
    d.internalId = r.nTotalRegisteredCount + pre.length := by
  have hl := (length_fresh_iff hT hT' hroll).2 hL
  have hi := eq_range'_of_increasing (c := r.nTotalRegisteredCount)
    (pairwise_map.2 (hT'.pairwise_sortById fun d => (l.getMN d.proTxHash).isNone)) ?_
  · have hg : ((l.fresh l').map (·.internalId))[pre.length]? = some d.internalId := by
      simp [hs]
    rw [fresh, hi] at hg
    simpa using (List.getElem?_eq_some_iff.1 hg).2.symm
  · intro n hn
    obtain ⟨x, hx, rfl⟩ := mem_map.1 hn
    obtain ⟨hw, hold⟩ := (mem_fresh hT hT').1 hx
    have hr : (r.roll.applyBlock block).entry x.proTxHash = some x.entry :=
      hroll ▸ roll_entry.2 ⟨x, hw, rfl⟩
    rw [length_map, ← fresh, hl]
    refine ⟨?_, hT'.sound.id_lt _ x hw⟩
    obtain ⟨⟨hm, -⟩ | ⟨i, y, -, -, he, -⟩, -⟩ := Roll.entry_applyBlock.1 hr
    · simp [Registry.roll, hold] at hm
    · have : x.internalId = r.nTotalRegisteredCount + i := congrArg Entry.internalId he
      omega

lemma roundTrips_of_roll (pindex : BlockIndex) :
    RoundTrips pindex l l' ↔ r.roll.Lasting block ∧ r.OrderlyTo r' := by
  have hc : l.nTotalRegisteredCount = r.nTotalRegisteredCount := by
    rw [← hT.refines.registry_eq]; rfl
  have hc' : l'.nTotalRegisteredCount = r'.nTotalRegisteredCount := by
    rw [← hT'.refines.registry_eq]; rfl
  by_cases hL : r.roll.Lasting block
  · have hl := (length_fresh_iff hT hT' hroll).2 hL
    rcases applyDiff_buildDiff_exact hT hT' (entry_eq_of_lasting hroll hL)
        (consecutive_of_lasting hT hT' hroll hL) pindex with
      ⟨ho, result, hk, hR⟩ | ⟨hn, e, he⟩
    · refine iff_of_true ?_ ⟨hL, ho⟩
      -- the result and the second list are both the indexed form of one registry
      have hq : result = { l' with
          blockHash := pindex.getBlockHash, nHeight := pindex.nHeight } := by
        have hT'' := hT'.atBlock pindex.getBlockHash pindex.nHeight
        refine hR.refines.indexed.ext hT''.refines.indexed ?_
        rw [hR.refines.registry_eq, hT''.refines.registry_eq, hl]
      exact ⟨result, hk, by rw [hq], by rw [hq], by rw [hq], by rw [hq]⟩
    · refine iff_of_false ?_ fun h => hn h.2
      rintro ⟨result, hk, -⟩
      simp [he] at hk
  · refine iff_of_false ?_ fun h => hL h.1
    rintro ⟨result, hk, -, -, -, hs⟩
    refine hL ((length_fresh_iff hT hT' hroll).1 ?_)
    rw [← hc', ← hs, count_applyDiff hk, buildDiff_added, hc]

omit hT hT' hroll in
/-- On a reachable list, a block leads to a list that its difference reproduces exactly when
its registrations last and values are handed over in order. -/
theorem roundTrips_iff {pindexPrev : BlockIndex} {view : ChainView}
    (hl : Reachable env pindexPrev (view.getListForBlock pindexPrev))
    {newList : DeterministicMNList}
    (hbuild : buildNewListFromBlock env view.ask view.getUTXOCoin pindexPrev block = .ok newList)
    (pindex : BlockIndex) : RoundTrips pindex (view.getListForBlock pindexPrev) newList ↔
      (view.getListForBlock pindexPrev).registry.roll.Lasting block ∧
      (view.getListForBlock pindexPrev).registry.OrderlyTo newList.registry := by
  have hT := hl.tracks
  obtain ⟨r', hr', hT'⟩ := (buildNewListFromBlock_sim env view pindexPrev hT block).of_ok_left hbuild
  have hroll := Registry.roll_applyBlock env view pindexPrev hT hr'
  obtain rfl := hT'.refines.registry_eq
  exact roundTrips_of_roll hT hT' hroll pindex

end RoundTrip
end Trivechain.Evo

namespace Trivechain.Evo.UndoneRegistrations
open TwoUpdates (env coinbase register block0)

/-- Spends the collateral of the first registration. The hashes are those of `hashes`. -/
def spend : Transaction :=
  { nVersion := 2, payload := .normal, vin := [⟨1, 0⟩], vout := [] }

/-- A registration with the external collateral `⟨90, 0⟩`. -/
def registerExternal (i : Nat) : Transaction where
  nVersion := 3
  payload := .providerRegister (some {
    collateralOutpoint := ⟨90, 0⟩, addr := ⟨10 + i, 19999⟩, keyIDOwner := 20 + i
    pubKeyOperator := some (30 + i), keyIDVoting := 20 + i, scriptPayout := .pubKeyHash (40 + i)
    inputsHash := 0 })
  vin := [⟨50 + i, 0⟩]
  vout := []

def lastingBlock : Block := { vtx := [coinbase, register 0] }
def spendingBlock : Block := { vtx := [coinbase, register 0, spend] }
def replacingBlock : Block := { vtx := [coinbase, registerExternal 0, registerExternal 1] }

@[reducible] def hashes : ChainHash :=
  tableHash [register 0, registerExternal 0, registerExternal 1] [block0]

local instance : PropertyHash := encodingHash
local instance : ChainHash := hashes

def view : ChainView where
  getUTXOCoin o := if o = ⟨90, 0⟩ then some ⟨collateralAmount, .pubKeyHash 60⟩ else none
  findBlock _ := none
  getListForBlock _ := { blockHash := block0.getBlockHash }
  dip0008Active _ := false

lemma reachable_block0 : Reachable env block0 (view.getListForBlock block0) :=
  .start block0 (by decide)

def newList (block : Block) : DeterministicMNList :=
  ((buildNewListFromBlock env view.ask view.getUTXOCoin block0 block).toOption).getD {}

lemma build_eq (block : Block)
    (h : (buildNewListFromBlock env view.ask view.getUTXOCoin block0 block).isOk = true) :
    buildNewListFromBlock env view.ask view.getUTXOCoin block0 block = .ok (newList block) := by
  unfold newList
  cases hb : buildNewListFromBlock env view.ask view.getUTXOCoin block0 block with
  | error e => simp [hb, Except.isOk, Except.toBool] at h
  | ok l => rfl

theorem roundTrips_of_lasting_registration :
    buildNewListFromBlock env view.ask view.getUTXOCoin block0 lastingBlock =
      .ok (newList lastingBlock) ∧
    RoundTrips (block0.next lastingBlock) (view.getListForBlock block0) (newList lastingBlock) := by
  have hb := build_eq lastingBlock (by decide +kernel)
  refine ⟨hb, (roundTrips_iff reachable_block0 hb _).2 ⟨⟨?_, ?_, ?_⟩, ?_⟩⟩
  · exact fun x _ => by simp [Registry.roll, view]
  · decide
  · decide
  · intro h h' a b v ha
    simp [view] at ha

/-- The registration of a masternode whose collateral is spent in the same block is not counted
again. One that is replaced in that block leaves a gap in the ids, which is an assertion. -/
theorem undone_registrations_do_not_round_trip :
    Reachable env block0 (view.getListForBlock block0) ∧
    (ChecksPass env view block0 spendingBlock ∧
      buildNewListFromBlock env view.ask view.getUTXOCoin block0 spendingBlock =
        .ok (newList spendingBlock) ∧
      ¬ RoundTrips (block0.next spendingBlock) (view.getListForBlock block0)
        (newList spendingBlock)) ∧
    ChecksPass env view block0 replacingBlock ∧
      buildNewListFromBlock env view.ask view.getUTXOCoin block0 replacingBlock =
        .ok (newList replacingBlock) ∧
      (view.getListForBlock block0).applyDiff (block0.next replacingBlock)
        ((view.getListForBlock block0).buildDiff (newList replacingBlock)) =
          .error (.fault .assertion) := by
  refine ⟨reachable_block0, ⟨by decide +kernel, build_eq _ (by decide +kernel), ?_⟩,
    by decide +kernel, build_eq _ (by decide +kernel), by decide +kernel⟩
  rintro ⟨result, ho, -, -, -, hc⟩
  have ha : ((view.getListForBlock block0).buildDiff (newList spendingBlock)).addedMNs.length =
      0 := by decide +kernel
  have hn : (newList spendingBlock).nTotalRegisteredCount = 1 := by decide +kernel
  rw [count_applyDiff ho, ha, hn] at hc
  simp [view] at hc

end Trivechain.Evo.UndoneRegistrations
