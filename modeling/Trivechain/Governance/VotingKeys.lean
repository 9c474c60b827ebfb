import Trivechain.Evo.BlockSafety
import Trivechain.Evo.ListDiff
import Trivechain.Governance.Manager
import Trivechain.Governance.VoteRuns

/-!
# Votes of masternodes whose keys have changed

`CGovernanceManager::RemoveInvalidVotes` compares the list of masternodes at the tip with the one it
saw last, and has the governance objects check the votes of masternodes that are gone or whose keys
have changed.

The difference of the lists has updated masternodes under their internal ids in the new list, and
the function looks these ids up in the old one. On one chain a masternode keeps its id; on another
branch its id can be that of a different masternode, or of none.
-/

namespace Trivechain.Governance
open Bls Evo Run
open Std (ExtTreeMap)
open List DeterministicMNList

/-- `(fields & Field_..) && state.. != oldDmn->pdmnState->..`: the old masternode is used only if
the field is set. -/
def fieldChanged {α : Type} [DecidableEq α] (field : Option α) (oldDmn : Option DeterministicMN)
    (get : DeterministicMN → α) : Run Bool :=
  match field with
  | none => .ok false
  | some key => do
    let dmn ← demand .undefined oldDmn
    return decide (key ≠ get dmn)

def changesKey (stateDiff : DeterministicMNStateDiff) (oldDmn : Option DeterministicMN) :
    Run Bool := do
  if ← fieldChanged stateDiff.keyIDVoting oldDmn (·.pdmnState.keyIDVoting) then return true
  fieldChanged stateDiff.pubKeyOperator oldDmn (·.pdmnState.pubKeyOperator)

variable (old cur : DeterministicMNList)

def addChangedKey (changedKeyMNs : List OutPoint) (p : Nat × DeterministicMNStateDiff) :
    Run (List OutPoint) := do
  let oldDmn := old.getMNByInternalId p.1
  if ← changesKey p.2 oldDmn then
    let dmn ← demand .undefined oldDmn
    return changedKeyMNs ++ [dmn.collateralOutpoint]
  else return changedKeyMNs

def addRemoved (changedKeyMNs : List OutPoint) (id : Nat) : Run (List OutPoint) := do
  let oldDmn ← demand .undefined (old.getMNByInternalId id)
  return changedKeyMNs ++ [oldDmn.collateralOutpoint]

def changedKeyMNs : Run (List OutPoint) := do
  let diff := old.buildDiff cur
  let changed ← diff.updatedMNs.toList.foldlM (addChangedKey old) []
  diff.removedMns.toList.foldlM (addRemoved old) changed

def KeysDiffer (a d : DeterministicMN) : Prop :=
  a.pdmnState.keyIDVoting ≠ d.pdmnState.keyIDVoting ∨
    a.pdmnState.pubKeyOperator ≠ d.pdmnState.pubKeyOperator

instance (a d : DeterministicMN) : Decidable (KeysDiffer a d) := by
  unfold KeysDiffer
  infer_instance

/-- A changed key is not that of the masternode `a'` either. -/
def Differs (a d a' : DeterministicMN) : Prop :=
  (a.pdmnState.keyIDVoting ≠ d.pdmnState.keyIDVoting ∧
      d.pdmnState.keyIDVoting ≠ a'.pdmnState.keyIDVoting) ∨
    a.pdmnState.pubKeyOperator ≠ d.pdmnState.pubKeyOperator ∧
      d.pdmnState.pubKeyOperator ≠ a'.pdmnState.pubKeyOperator

instance (a d a' : DeterministicMN) : Decidable (Differs a d a') := by
  unfold Differs
  infer_instance

lemma Differs.keysDiffer {a d a' : DeterministicMN} (h : Differs a d a') : KeysDiffer a d :=
  h.imp And.left And.left

lemma KeysDiffer.differs {a d : DeterministicMN} (h : KeysDiffer a d) : Differs a d a :=
  h.imp (fun h => ⟨h, h.symm⟩) fun h => ⟨h, h.symm⟩

structure Rekeyed (a d : DeterministicMN) : Prop where
  inOld : old.getMN d.proTxHash = some a
  inCur : cur.getMN d.proTxHash = some d
  keys : KeysDiffer a d

/-- No missing masternode is used, and the objects are asked about exactly those that are gone or
have other keys. -/
def AsksForChanges : Prop :=
  ∃ outpoints, changedKeyMNs old cur = .ok outpoints ∧
    ∀ o, o ∈ outpoints ↔ ∃ a, old.getMN a.proTxHash = some a ∧ a.collateralOutpoint = o ∧
      (cur.getMN a.proTxHash = none ∨ ∃ d, cur.getMN a.proTxHash = some d ∧ KeysDiffer a d)

section Steps
variable {old cur} {a d : DeterministicMN}

lemma fieldChanged_line {α : Type} [DecidableEq α] (x y : α) (oldDmn : Option DeterministicMN)
    (get : DeterministicMN → α) : fieldChanged (DeterministicMNStateDiff.line x y) oldDmn get =
      match oldDmn with
      | none => if x ≠ y then .error (.fault .undefined) else .ok false
      | some a' => .ok (decide (x ≠ y ∧ y ≠ get a')) := by
  unfold fieldChanged DeterministicMNStateDiff.line
  by_cases hx : x = y
  · cases oldDmn <;> simp [hx]
  · cases oldDmn <;> simp [hx, demand]

lemma changesKey_some (a d a' : DeterministicMN) :
    changesKey (.ofStates a.pdmnState d.pdmnState) (some a') = .ok (decide (Differs a d a')) := by
  unfold changesKey Differs DeterministicMNStateDiff.ofStates
  simp only [fieldChanged_line, ok_bind]
  by_cases hv : a.pdmnState.keyIDVoting ≠ d.pdmnState.keyIDVoting ∧
      d.pdmnState.keyIDVoting ≠ a'.pdmnState.keyIDVoting
  · simp [hv]
  · simp only [hv, decide_false, Bool.false_eq_true, if_false, false_or]

lemma changesKey_none (a d : DeterministicMN) :
    changesKey (.ofStates a.pdmnState d.pdmnState) none =
      if KeysDiffer a d then .error (.fault .undefined) else .ok false := by
  unfold changesKey KeysDiffer DeterministicMNStateDiff.ofStates
  simp only [fieldChanged_line]
  by_cases hv : a.pdmnState.keyIDVoting = d.pdmnState.keyIDVoting
  · simp [hv]
  · simp [hv]

def askedFor (old : DeterministicMNList) (d : DeterministicMN) : Option OutPoint :=
  (old.getMN d.proTxHash).bind fun a => (old.getMNByInternalId d.internalId).bind fun a' =>
    if Differs a d a' then some a'.collateralOutpoint else none

lemma addChangedKey_eq (ha : old.getMN d.proTxHash = some a) (outs : List OutPoint) :
    addChangedKey old outs (old.stateDiffTo d) =
      if KeysDiffer a d ∧ old.getMNByInternalId d.internalId = none then .error (.fault .undefined)
      else .ok (outs ++ (askedFor old d).toList) := by
  unfold addChangedKey askedFor stateDiffTo
  simp only [ha, Option.elim_some, Option.bind_some]
  cases old.getMNByInternalId d.internalId with
  | none =>
    rw [changesKey_none]
    by_cases hk : KeysDiffer a d <;> simp [hk]
  | some a' =>
    rw [changesKey_some]
    by_cases hd : Differs a d a' <;> simp [hd, demand]

lemma foldlM_addChangedKey {ds : List DeterministicMN}
    (hn : ∀ d ∈ ds, ∃ a, old.getMN d.proTxHash = some a) (outs : List OutPoint) :
    (ds.map old.stateDiffTo).foldlM (addChangedKey old) outs =
      if ∃ d ∈ ds, ∃ a, old.getMN d.proTxHash = some a ∧ KeysDiffer a d ∧
          old.getMNByInternalId d.internalId = none then .error (.fault .undefined)
      else .ok (outs ++ ds.filterMap (askedFor old)) := by
  classical
  induction ds generalizing outs with
  | nil => simp
  | cons d ds ih =>
    obtain ⟨a, ha⟩ := hn d (by simp)
    rw [map_cons, foldlM_cons, addChangedKey_eq ha]
    by_cases hm : KeysDiffer a d ∧ old.getMNByInternalId d.internalId = none
    · rw [if_pos hm, if_pos ⟨d, by simp, a, ha, hm⟩]
      rfl
    · rw [if_neg hm, ok_bind, ih fun d hd => hn d (mem_cons_of_mem _ hd)]
      have hi : (∃ d' ∈ d :: ds, ∃ a, old.getMN d'.proTxHash = some a ∧ KeysDiffer a d' ∧
          old.getMNByInternalId d'.internalId = none) ↔
          ∃ d' ∈ ds, ∃ a, old.getMN d'.proTxHash = some a ∧ KeysDiffer a d' ∧
            old.getMNByInternalId d'.internalId = none := by
        constructor
        · rintro ⟨d', hd', a', ha', hr⟩
          rcases mem_cons.1 hd' with rfl | hd'
          · rw [ha] at ha'
            cases ha'
            exact absurd hr hm
          · exact ⟨d', hd', a', ha', hr⟩
        · rintro ⟨d', hd', hr⟩
          exact ⟨d', mem_cons_of_mem _ hd', hr⟩
      rw [if_congr hi rfl rfl]
      cases hk : askedFor old d <;> simp [hk]

lemma foldlM_addRemoved {ds : List DeterministicMN}
    (hi : ∀ d ∈ ds, old.getMNByInternalId d.internalId = some d) (outs : List OutPoint) :
    (ds.map (·.internalId)).foldlM (addRemoved old) outs =
      .ok (outs ++ ds.map (·.collateralOutpoint)) := by
  induction ds generalizing outs with
  | nil => simp
  | cons d ds ih =>
    rw [map_cons, foldlM_cons, addRemoved, hi d (by simp)]
    simp only [demand, ok_bind, pure_eq]
    rw [ih fun d hd => hi d (mem_cons_of_mem _ hd)]
    simp

end Steps

section Lists
variable [PropertyHash] [ChainHash] {old cur} {r s : Registry} (hold : old.Tracks r)
  (hcur : cur.Tracks s)
include hold

lemma proTxHash_of_getMN {h : Uint256} {a : DeterministicMN} (ha : old.getMN h = some a) :
    a.proTxHash = h :=
  hold.sound.keyed h a (hold.getElem?_mnMap.symm.trans ha)

lemma eq_of_collateral {a a' : DeterministicMN} (ha : old.getMN a.proTxHash = some a)
    (ha' : old.getMN a'.proTxHash = some a')
    (hc : a.collateralOutpoint = a'.collateralOutpoint) : a = a' := by
  have hr := hold.getElem?_mnMap.symm.trans ha
  have hr' := hold.getElem?_mnMap.symm.trans ha'
  have hh : ∀ b : DeterministicMN, r.mnMap[b.proTxHash]? = some b →
      r.Holder b.proTxHash (.collateralOutpoint b.collateralOutpoint) := fun b hb =>
    ⟨b, hb, by simp [DeterministicMN.properties],
      by simpa [UniqueProperty.isNull] using (hold.sound.proper _ b hb).1⟩
  have hs : a.proTxHash = a'.proTxHash := hold.sound.unique _ _ _ (hh a hr) (hc ▸ hh a' hr')
  rw [hs, ha'] at ha
  exact (Option.some.inj ha).symm

omit hold in
lemma mem_altered_of_keysDiffer (hcur : cur.Tracks s) {a d : DeterministicMN}
    (h : Rekeyed old cur a d) : d ∈ old.altered cur := by
  rw [altered, hcur.mem_sortById]
  refine ⟨hcur.getElem?_mnMap.symm.trans h.inCur, ?_⟩
  simp only [changed, h.inOld, Option.any_some, decide_eq_true_eq]
  rintro he
  rcases h.keys with hn | hn
  · exact hn (by rw [he])
  · exact hn (by rw [he])

omit hold in
lemma getMN_of_mem_altered (hcur : cur.Tracks s) {d : DeterministicMN} (hd : d ∈ old.altered cur) :
    cur.getMN d.proTxHash = some d ∧ ∃ a, old.getMN d.proTxHash = some a := by
  rw [altered, hcur.mem_sortById] at hd
  refine ⟨hcur.getElem?_mnMap.trans hd.1, ?_⟩
  have hc := hd.2
  unfold changed at hc
  exact Option.isSome_iff_exists.1 (by
    cases hm : old.getMN d.proTxHash with
    | none => simp [hm] at hc
    | some a => rfl)
include hcur

lemma changedKeyMNs_ok {outs : List OutPoint} : changedKeyMNs old cur = .ok outs ↔
    (∀ a d, Rekeyed old cur a d → old.getMNByInternalId d.internalId ≠ none) ∧
      outs = (old.altered cur).filterMap (askedFor old) ++
        (old.gone cur).map (·.collateralOutpoint) := by
  have hg : ∀ d ∈ old.gone cur, old.getMNByInternalId d.internalId = some d := by
    intro d hd
    rw [gone, hold.mem_sortById] at hd
    exact hold.getMNByInternalId hd.1
  unfold changedKeyMNs
  dsimp only
  rw [buildDiff_updated hcur, buildDiff_removed hold,
    foldlM_addChangedKey fun d hd => (getMN_of_mem_altered hcur hd).2]
  split_ifs with hm
  · obtain ⟨d, hd, a, ha, hk, hn⟩ := hm
    have hr : Rekeyed old cur a d := ⟨ha, (getMN_of_mem_altered hcur hd).1, hk⟩
    exact ⟨(fun h => by cases h), fun h => absurd hn (h.1 a d hr)⟩
  · rw [ok_bind, foldlM_addRemoved hg, nil_append, Except.ok.injEq, eq_comm]
    refine (and_iff_right ?_).symm
    exact fun a d h hn => hm ⟨d, mem_altered_of_keysDiffer hcur h, a, h.inOld, h.keys, hn⟩

omit hold in
lemma mem_askedFor {o : OutPoint} : o ∈ (old.altered cur).filterMap (askedFor old) ↔
    ∃ a d a', Rekeyed old cur a d ∧ old.getMNByInternalId d.internalId = some a' ∧
      Differs a d a' ∧ a'.collateralOutpoint = o := by
  rw [mem_filterMap]
  constructor
  · rintro ⟨d, hd, hk⟩
    obtain ⟨a, ha, hk⟩ := Option.bind_eq_some_iff.1 hk
    obtain ⟨a', ha', hk⟩ := Option.bind_eq_some_iff.1 hk
    split_ifs at hk with hf
    exact ⟨a, d, a', ⟨ha, (getMN_of_mem_altered hcur hd).1, hf.keysDiffer⟩, ha', hf,
      Option.some.inj hk⟩
  · rintro ⟨a, d, a', h, ha', hf, rfl⟩
    refine ⟨d, mem_altered_of_keysDiffer hcur h, ?_⟩
    simp [askedFor, h.inOld, ha', hf]

omit hcur in
lemma mem_gone_outpoints {o : OutPoint} : o ∈ (old.gone cur).map (·.collateralOutpoint) ↔
      ∃ a, old.getMN a.proTxHash = some a ∧ a.collateralOutpoint = o ∧
        cur.getMN a.proTxHash = none := by
  rw [mem_map]
  refine exists_congr fun a => ?_
  rw [gone, hold.mem_sortById, ← hold.getElem?_mnMap, Option.isNone_iff_eq_none]
  exact ⟨fun h => ⟨h.1.1, h.2, h.1.2⟩, fun h => ⟨⟨h.1, h.2.2⟩, h.2.1⟩⟩

omit hcur in
lemma getMN_of_internalId {id : Nat} {a : DeterministicMN}
    (ha : old.getMNByInternalId id = some a) :
    old.getMN a.proTxHash = some a ∧ a.internalId = id := by
  obtain ⟨h, hi, hm⟩ := Option.bind_eq_some_iff.1 ha
  obtain ⟨dmn, hd, hi'⟩ := (hold.refines.indexed.internalIds id h).1 hi
  have hh := proTxHash_of_getMN hold hm
  refine ⟨hh ▸ hm, ?_⟩
  rw [getMN, hd] at hm
  exact Option.some.inj hm ▸ hi'

lemma exists_rekeyed : ∃ ds : List DeterministicMN,
    (∀ d, d ∈ ds ↔ ∃ a, Rekeyed old cur a d) ∧ (ds.map (·.internalId)).Nodup ∧
      (ds.map fun d => ((old.getMN d.proTxHash).map (·.internalId)).getD 0).Nodup := by
  classical
  refine ⟨(old.altered cur).filter fun d => ∃ a, Rekeyed old cur a d, fun d => ?_, ?_, ?_⟩
  · simp only [mem_filter, decide_eq_true_eq, and_iff_right_iff_imp]
    rintro ⟨a, h⟩
    exact mem_altered_of_keysDiffer hcur h
  · refine (filter_sublist.map _).nodup (pairwise_map.2 ?_)
    exact (hcur.pairwise_sortById _).imp fun hl => hl.ne
  · have hn : (old.altered cur).Nodup :=
      (hcur.pairwise_sortById _).imp fun {a b} hl he => absurd (he ▸ hl) (lt_irrefl _)
    refine List.Nodup.map_on (fun d hd d' hd' he => ?_) (filter_sublist.nodup hn)
    simp only [mem_filter, decide_eq_true_eq] at hd hd'
    obtain ⟨-, a, h⟩ := hd
    obtain ⟨-, a', h'⟩ := hd'
    simp only [h.inOld, h'.inOld, Option.map_some, Option.getD_some] at he
    have hh := hold.sound.id_unique _ _ a a' (hold.getElem?_mnMap.symm.trans h.inOld)
      (hold.getElem?_mnMap.symm.trans h'.inOld) he
    have hc' := h'.inCur
    rw [← hh, h.inCur] at hc'
    exact Option.some.inj hc'

variable {a d : DeterministicMN}

omit hcur in
lemma Rekeyed.getMNByInternalId (h : Rekeyed old cur a d) :
    old.getMNByInternalId a.internalId = some a :=
  hold.getMNByInternalId (hold.getElem?_mnMap.symm.trans h.inOld)

omit hcur in
lemma Rekeyed.getMN (h : Rekeyed old cur a d) :
    old.getMN a.proTxHash = some a ∧ cur.getMN a.proTxHash = some d := by
  have hh := proTxHash_of_getMN hold h.inOld
  exact ⟨hh ▸ h.inOld, hh ▸ h.inCur⟩

/-- The id at the tip is, in the old list, that of a masternode with other keys as well, from which a
changed key differs: on one chain, of itself. -/
def Found (old cur : DeterministicMNList) (a d : DeterministicMN) : Prop :=
  ∃ a' d', Rekeyed old cur a' d' ∧ a'.internalId = d.internalId ∧ Differs a d a'

lemma found_of_asksForChanges (hask : AsksForChanges old cur) (h : Rekeyed old cur a d) :
    Found old cur a d := by
  classical
  obtain ⟨ds, hds, -, hna⟩ := exists_rekeyed hold hcur
  obtain ⟨outs, hok, hm⟩ := hask
  obtain ⟨-, rfl⟩ := (changedKeyMNs_ok hold hcur).1 hok
  -- every id of a masternode with other keys in the old list is found by one of the ids
  have hs : (ds.map fun d => ((old.getMN d.proTxHash).map (·.internalId)).getD 0) ⊆
      (ds.filter fun d => ∃ a, Rekeyed old cur a d ∧ Found old cur a d).map (·.internalId) := by
    intro id hid
    obtain ⟨d', hd', rfl⟩ := mem_map.1 hid
    obtain ⟨a', h'⟩ := (hds d').1 hd'
    obtain ⟨hin, hc'⟩ := h'.getMN hold
    rw [h'.inOld, Option.map_some, Option.getD_some]
    have hak := (hm a'.collateralOutpoint).2 ⟨a', hin, rfl, .inr ⟨d', hc', h'.keys⟩⟩
    rcases mem_append.1 hak with hak | hg
    · obtain ⟨a, d, b, h, hb, hf, hc⟩ := (mem_askedFor hcur).1 hak
      obtain ⟨hbn, hbd⟩ := getMN_of_internalId hold hb
      obtain rfl := eq_of_collateral hold hbn hin hc
      exact mem_map.2 ⟨d, mem_filter.2 ⟨(hds d).2 ⟨a, h⟩,
        decide_eq_true ⟨a, h, b, d', h', hbd, hf⟩⟩, hbd.symm⟩
    · obtain ⟨b, hbn, hc, hn⟩ := (mem_gone_outpoints hold).1 hg
      obtain rfl := eq_of_collateral hold hbn hin hc
      cases hn.symm.trans hc'
  -- there are as many ids in both lists, so all of them find one
  have hln := (subperm_of_subset hna hs).length_le
  rw [length_map, length_map] at hln
  have hal := length_filter_eq_length_iff.1 (le_antisymm (length_filter_le _ ds) hln)
  obtain ⟨b, hb, hf⟩ := of_decide_eq_true (hal d ((hds d).2 ⟨a, h⟩))
  obtain rfl : b = a := Option.some.inj (hb.inOld.symm.trans h.inOld)
  exact hf

lemma asked_of_found (hcn : ∀ a d, Rekeyed old cur a d → Found old cur a d)
    (h : Rekeyed old cur a d) :
    ∃ b e, Rekeyed old cur b e ∧ e.internalId = a.internalId ∧ Differs b e a := by
  obtain ⟨ds, hds, hi, -⟩ := exists_rekeyed hold hcur
  -- the ids at the tip are among those of the old list, so each of these is found
  have hs : ds.map (·.internalId) ⊆
      ds.map fun d => ((old.getMN d.proTxHash).map (·.internalId)).getD 0 := by
    intro id hid
    obtain ⟨e, he, rfl⟩ := mem_map.1 hid
    obtain ⟨b, hb⟩ := (hds e).1 he
    obtain ⟨a', d', h', hi', -⟩ := hcn b e hb
    exact mem_map.2 ⟨d', (hds d').2 ⟨a', h'⟩, by simp [h'.inOld, hi']⟩
  have hp := (subperm_of_subset hi hs).perm_of_length_le (by simp)
  have hid : a.internalId ∈ ds.map (·.internalId) :=
    hp.mem_iff.2 (mem_map.2 ⟨d, (hds d).2 ⟨a, h⟩, by simp [h.inOld]⟩)
  obtain ⟨e, he, hid⟩ := mem_map.1 hid
  obtain ⟨b, hb⟩ := (hds e).1 he
  obtain ⟨a', d', h', hi', hf⟩ := hcn b e hb
  have hq := (h'.getMNByInternalId hold).symm.trans
    ((hi'.trans hid) ▸ h.getMNByInternalId hold)
  exact ⟨b, e, hb, hid, Option.some.inj hq ▸ hf⟩

/-- The right masternodes are asked about exactly if each one with other keys finds one. -/
lemma asksForChanges_iff_found :
    AsksForChanges old cur ↔ ∀ a d, Rekeyed old cur a d → Found old cur a d := by
  refine ⟨fun ha a d h => found_of_asksForChanges hold hcur ha h, fun hcn => ?_⟩
  refine ⟨_, (changedKeyMNs_ok hold hcur).2 ⟨fun a d h => ?_, rfl⟩, fun o => ?_⟩
  · obtain ⟨a', d', h', hid, -⟩ := hcn a d h
    simp [← hid, h'.getMNByInternalId hold]
  rw [mem_append, mem_askedFor hcur, mem_gone_outpoints hold]
  constructor
  · rintro (⟨a, d, b, h, hb, -, rfl⟩ | ⟨a, ha, ho, hn⟩)
    · obtain ⟨a', d', h', hid, -⟩ := hcn a d h
      rw [← hid, h'.getMNByInternalId hold] at hb
      obtain rfl := Option.some.inj hb
      obtain ⟨hin, hc⟩ := h'.getMN hold
      exact ⟨a', hin, rfl, .inr ⟨d', hc, h'.keys⟩⟩
    · exact ⟨a, ha, ho, .inl hn⟩
  · rintro ⟨a, ha, rfl, hn | ⟨d, hd, hk⟩⟩
    · exact .inr ⟨a, ha, rfl, hn⟩
    · have hh := proTxHash_of_getMN hcur hd
      have h : Rekeyed old cur a d := ⟨hh ▸ ha, hh ▸ hd, hk⟩
      obtain ⟨b, e, hb, hid, hf⟩ := asked_of_found hold hcur hcn h
      exact .inl ⟨b, e, a, hb, hid ▸ h.getMNByInternalId hold, hf, rfl⟩

/-- For which lists the right masternodes are found; on one chain they are. -/
theorem asksForChanges_iff : (AsksForChanges old cur ↔ ∀ a d, Rekeyed old cur a d →
      ∃ a' d', Rekeyed old cur a' d' ∧ a'.internalId = d.internalId ∧ Differs a d a') ∧
    ((∀ a d, Rekeyed old cur a d → a.internalId = d.internalId) → AsksForChanges old cur) := by
  have hi := asksForChanges_iff_found hold hcur
  exact ⟨hi, fun hd => hi.2 fun a d h => ⟨a, d, h, hd a d h, h.keys.differs⟩⟩

end Lists
end Trivechain.Governance

namespace Trivechain.Governance.OtherBranch
open Evo Evo.TwoUpdates

local instance otherBranchProperties : PropertyHash := encodingHash
local instance otherBranchHashes : ChainHash := hashes

def blockAlone : Block := { vtx := [coinbase, register 1] }

def blockUpdate : Block := { vtx := [coinbase, update 1] }

def listAlone : DeterministicMNList := listAfter env view0 block0 blockAlone

def listBoth : DeterministicMNList := view1.getListForBlock (block0.next block1)

def listUpdated : DeterministicMNList := listAfter env view1 (block0.next block1) blockUpdate

lemma reachable_alone : Reachable env (block0.next blockAlone) listAlone :=
  have hs : Reachable env block0 (view0.getListForBlock block0) := .start block0 (by decide)
  hs.next (by decide) (by decide +kernel) (by decide +kernel)

lemma reachable_updated : Reachable env ((block0.next block1).next blockUpdate) listUpdated :=
  reachable_block1.next (by decide) (by decide +kernel) (by decide +kernel)

/-- The second masternode has id 0 on one branch and id 1 on the other. -/
theorem missing_masternode_used : Reachable env (block0.next blockAlone) listAlone ∧
      Reachable env ((block0.next block1).next blockUpdate) listUpdated ∧
      changedKeyMNs listAlone listUpdated = .error (.fault .undefined) ∧
      ¬ AsksForChanges listAlone listUpdated := by
  have hf : changedKeyMNs listAlone listUpdated = .error (.fault .undefined) := by
    decide +kernel
  refine ⟨reachable_alone, reachable_updated, hf, ?_⟩
  rintro ⟨outpoints, ho, -⟩
  rw [hf] at ho
  cases ho

theorem asksForChanges_of_update : AsksForChanges listBoth listUpdated := by
  have hi : listUpdated.allMNs.all (fun d => (listBoth.getMN d.proTxHash).all fun a =>
      a.internalId = d.internalId) = true := by decide +kernel
  refine (asksForChanges_iff reachable_block1.tracks reachable_updated.tracks).2 fun a d h => ?_
  have hd := List.all_eq_true.1 hi d (Maps.mem_values.2 ⟨_, h.inCur⟩)
  rw [show listBoth.getMN d.proTxHash = some a from h.inOld] at hd
  exact of_decide_eq_true hd

end Trivechain.Governance.OtherBranch
