import Trivechain.Evo.MNList

/-!
# The registry behind a masternode list

A list without its indexes is a `Registry`: a map of masternodes, and nothing to keep consistent.
`Refines l r` says that `l` is `r` with both indexes right. On such lists the operations are those
of the map, and assert exactly when two masternodes would share a property or the masternode is
missing.
-/

namespace Trivechain.Evo
open Bls List Option DeterministicMNState
open Std (ExtTreeMap)
open PropertyHash (serializeHash)
open Run
open Function UniqueProperty

abbrev MNMap := ExtTreeMap Uint256 DeterministicMN

def DeterministicMNState.properties (s : DeterministicMNState) : List UniqueProperty :=
  [.addr s.addr, .keyIDOwner s.keyIDOwner, .pubKeyOperator s.pubKeyOperator]

def DeterministicMN.properties (dmn : DeterministicMN) : List UniqueProperty :=
  .collateralOutpoint dmn.collateralOutpoint :: dmn.pdmnState.properties

def DeterministicMN.Holds (dmn : DeterministicMN) (v : UniqueProperty) : Prop :=
  v ∈ dmn.properties ∧ v.isNull = false

instance (dmn : DeterministicMN) (v : UniqueProperty) : Decidable (dmn.Holds v) :=
  inferInstanceAs (Decidable (_ ∧ _))

/-- What `AddMN` and `RemoveMN` require to be set. -/
def DeterministicMN.Proper (dmn : DeterministicMN) : Prop :=
  dmn.collateralOutpoint ≠ .null ∧ dmn.pdmnState.keyIDOwner ≠ 0

lemma DeterministicMN.Proper.isNull_eq_false {dmn : DeterministicMN} (h : dmn.Proper) :
    (UniqueProperty.collateralOutpoint dmn.collateralOutpoint).isNull = false ∧
      (keyIDOwner dmn.pdmnState.keyIDOwner).isNull = false := by
  simpa [isNull, Proper] using h

def DeterministicMN.withState (dmn : DeterministicMN) (s : DeterministicMNState) :
    DeterministicMN := { dmn with pdmnState := s }

section
variable (dmn : DeterministicMN) (s : DeterministicMNState)

@[simp] lemma DeterministicMN.withState_proTxHash :
    (dmn.withState s).proTxHash = dmn.proTxHash := rfl
@[simp] lemma DeterministicMN.withState_internalId :
    (dmn.withState s).internalId = dmn.internalId := rfl
@[simp] lemma DeterministicMN.withState_collateralOutpoint :
    (dmn.withState s).collateralOutpoint = dmn.collateralOutpoint := rfl
@[simp] lemma DeterministicMN.withState_pdmnState : (dmn.withState s).pdmnState = s := rfl
@[simp] lemma DeterministicMN.withState_self : dmn.withState dmn.pdmnState = dmn := rfl
@[simp] lemma DeterministicMN.withState_withState (s' : DeterministicMNState) :
    (dmn.withState s).withState s' = dmn.withState s' := rfl

end

structure Registry where
  blockHash : Uint256 := 0
  nHeight : Int := -1
  nTotalRegisteredCount : Nat := 0
  mnMap : MNMap := ∅

namespace Registry

def insert (r : Registry) (dmn : DeterministicMN) : Registry :=
  { r with mnMap := r.mnMap.insert dmn.proTxHash dmn }

def erase (r : Registry) (proTxHash : Uint256) : Registry :=
  { r with mnMap := r.mnMap.erase proTxHash }

def Holder (r : Registry) (proTxHash : Uint256) (v : UniqueProperty) : Prop :=
  ∃ dmn : DeterministicMN, r.mnMap[proTxHash]? = some dmn ∧ dmn.Holds v

def Free (r : Registry) (dmn : DeterministicMN) : Prop :=
  ∀ v h, dmn.Holds v → h ≠ dmn.proTxHash → ¬ r.Holder h v

@[simp] lemma getElem?_insert (r : Registry) (dmn : DeterministicMN) (h : Uint256) :
    (r.insert dmn).mnMap[h]? = if h = dmn.proTxHash then some dmn else r.mnMap[h]? :=
  Maps.getElem?_insert ..

@[simp] lemma getElem?_erase (r : Registry) (h h' : Uint256) :
    (r.erase h).mnMap[h']? = if h' = h then none else r.mnMap[h']? :=
  Maps.getElem?_erase ..

end Registry

namespace DeterministicMNList
variable {l : DeterministicMNList}

def registry (l : DeterministicMNList) : Registry :=
  ⟨l.blockHash, l.nHeight, l.nTotalRegisteredCount, l.mnMap⟩

@[simp] lemma registry_mnMap : l.registry.mnMap = l.mnMap := rfl

end DeterministicMNList

variable [PropertyHash]

def UniqueProperty.key (v : UniqueProperty) : Option Uint256 :=
  if v.isNull then none else some (serializeHash v)

lemma UniqueProperty.key_eq_some {v : UniqueProperty} {k : Uint256} :
    v.key = some k ↔ v.isNull = false ∧ serializeHash v = k := by
  unfold key
  cases v.isNull <;> simp

def keysIn (vs : List UniqueProperty) : List Uint256 := vs.flatMap fun v => v.key.toList

def DeterministicMN.keys (dmn : DeterministicMN) : List Uint256 := keysIn dmn.properties

lemma DeterministicMN.keys_eq (dmn : DeterministicMN) :
    dmn.keys = (UniqueProperty.collateralOutpoint dmn.collateralOutpoint).key.toList ++
      keysIn dmn.pdmnState.properties := by
  simp [keys, keysIn, properties]

lemma DeterministicMN.serializeHash_mem_keys {dmn : DeterministicMN} {v : UniqueProperty} :
    serializeHash v ∈ dmn.keys ↔ dmn.Holds v := by
  simp only [keys, keysIn, mem_flatMap, mem_toList, key_eq_some, Holds]
  constructor
  · rintro ⟨w, hw, hn, he⟩
    obtain rfl := PropertyHash.injective he
    exact ⟨hw, hn⟩
  · rintro ⟨hv, hn⟩
    exact ⟨v, hv, hn, rfl⟩

namespace DeterministicMNList
variable {l l' : DeterministicMNList}

def keysOf (m : MNMap) (proTxHash : Uint256) : List Uint256 :=
  ((m[proTxHash]?).map DeterministicMN.keys).getD []

/-- Both indexes are those of the map of masternodes. -/
structure Indexed (l : DeterministicMNList) : Prop where
  proTxHash : ∀ (h : Uint256) (dmn : DeterministicMN), l.mnMap[h]? = some dmn → dmn.proTxHash = h
  properties : l.mnUniquePropertyMap.Holds (keysOf l.mnMap)
  internalIds : ∀ (id : Nat) (h : Uint256), l.mnInternalIdMap[id]? = some h ↔
    ∃ dmn : DeterministicMN, l.mnMap[h]? = some dmn ∧ dmn.internalId = id

lemma indexed_empty (blockHash : Uint256) (nHeight : Int) (nTotalRegisteredCount : Nat) :
    Indexed { blockHash, nHeight, nTotalRegisteredCount } where
  proTxHash := by simp
  properties := by
    have hy : keysOf ∅ = fun _ => [] := by
      funext h
      simp [keysOf]
    rw [hy]
    exact OwnerIndex.holds_empty
  internalIds := by simp

lemma mem_keysOf {m : MNMap} {h k : Uint256} :
    k ∈ keysOf m h ↔ ∃ dmn : DeterministicMN, m[h]? = some dmn ∧ k ∈ dmn.keys := by
  unfold keysOf
  cases m[h]? <;> simp

lemma serializeHash_mem_keysOf {h : Uint256} {v : UniqueProperty} :
    serializeHash v ∈ keysOf l.mnMap h ↔ l.registry.Holder h v := by
  simp only [mem_keysOf, DeterministicMN.serializeHash_mem_keys, Registry.Holder, registry_mnMap]

lemma keysOf_insert (m : MNMap) (h : Uint256) (dmn : DeterministicMN) :
    keysOf (m.insert h dmn) = Function.update (keysOf m) h dmn.keys := by
  funext h'
  rcases eq_or_ne h' h with rfl | hn
  · simp [keysOf]
  · simp [keysOf, Maps.getElem?_insert, hn]

lemma keysOf_erase (m : MNMap) (h : Uint256) :
    keysOf (m.erase h) = Function.update (keysOf m) h [] := by
  funext h'
  rcases eq_or_ne h' h with rfl | hn
  · simp [keysOf]
  · simp [keysOf, Maps.getElem?_erase, hn]

namespace Indexed
variable (hI : l.Indexed)
include hI

variable {v : UniqueProperty}

lemma unique {h h' : Uint256} (hv : l.registry.Holder h v) (hv' : l.registry.Holder h' v) :
    h = h' :=
  hI.properties.unique (serializeHash_mem_keysOf.2 hv) (serializeHash_mem_keysOf.2 hv')

lemma hasUniqueProperty_iff : l.hasUniqueProperty v = true ↔ ∃ h, l.registry.Holder h v := by
  unfold hasUniqueProperty
  rw [isSome_iff_ne_none, ne_eq, hI.properties.getElem?_eq_none]
  simp only [serializeHash_mem_keysOf, not_forall, not_not]

lemma getUniquePropertyMN_eq_some {dmn : DeterministicMN} :
    l.getUniquePropertyMN v = some dmn ↔ l.mnMap[dmn.proTxHash]? = some dmn ∧ dmn.Holds v := by
  unfold getUniquePropertyMN
  constructor
  · intro h
    obtain ⟨e, he, hdm⟩ := bind_eq_some_iff.1 h
    obtain ⟨hm, -⟩ := hI.properties.mem_of_getElem? he
    obtain ⟨dmn', hd', hv⟩ := serializeHash_mem_keysOf.1 hm
    obtain rfl := some.inj (hd'.symm.trans hdm)
    exact ⟨(hI.proTxHash _ _ hd').symm ▸ hd', hv⟩
  · rintro ⟨hd, hv⟩
    have hm := serializeHash_mem_keysOf.2 ⟨dmn, hd, hv⟩
    rw [hI.properties.getElem?_of_mem hm]
    exact hd

lemma ext (hI' : l'.Indexed) (hr : l.registry = l'.registry) : l = l' := by
  obtain ⟨b, n, c, m, ids, idx⟩ := l
  obtain ⟨b', n', c', m', ids', idx'⟩ := l'
  obtain ⟨rfl, rfl, rfl, rfl⟩ : b = b' ∧ n = n' ∧ c = c' ∧ m = m' := by
    simpa [registry] using hr
  have hi : ids = ids' := ExtTreeMap.ext_getElem? fun id => ext fun h =>
    (hI.internalIds id h).trans (hI'.internalIds id h).symm
  have hd : idx = idx' := hI.properties.ext hI'.properties
  rw [hi, hd]

end Indexed

def withIndex (l : DeterministicMNList) (idx : OwnerIndex Uint256 Uint256) : DeterministicMNList :=
  { l with mnUniquePropertyMap := idx }

omit [PropertyHash] in
@[simp] lemma withIndex_withIndex (idx idx' : OwnerIndex Uint256 Uint256) :
    (l.withIndex idx).withIndex idx' = l.withIndex idx' := rfl

/-! The helpers for one property, for a masternode `h` that holds the keys `cur` while the
others hold those of `K`. -/

section Properties
variable {K : Uint256 → List Uint256} {h : Uint256} {cur rest : List Uint256}
  {v v' : UniqueProperty}

lemma addUniqueProperty_of_set (hv : v.isNull = false) :
    l.addUniqueProperty h v = l.addIfSet h v := by
  simp [addIfSet, hv]

lemma deleteUniqueProperty_of_set (hv : v.isNull = false) :
    l.deleteUniqueProperty h v = l.deleteIfSet h v := by
  simp [deleteIfSet, hv]

variable {e : Stop}

lemma addUniqueProperty_error (he : l.addUniqueProperty h v = .error e) :
    e = .fault .assertion := by
  rcases bind_error.1 he with he | ⟨_, -, he⟩
  · exact ensure_error he
  · rcases bind_error.1 he with he | ⟨_, -, he⟩
    · exact OwnerIndex.add_error he
    · cases he

lemma addIfSet_error (he : l.addIfSet h v = .error e) : e = .fault .assertion := by
  unfold addIfSet at he
  split_ifs at he
  exact addUniqueProperty_error he

lemma deleteIfSet_error (he : l.deleteIfSet h v = .error e) : e = .fault .assertion := by
  unfold deleteIfSet at he
  split_ifs at he
  rcases bind_error.1 he with he | ⟨_, -, he⟩
  · exact ensure_error he
  · rcases bind_error.1 he with he | ⟨_, -, he⟩
    · exact OwnerIndex.delete_error he
    · cases he

lemma updateUniqueProperty_error (he : l.updateUniqueProperty h v v' = .error e) :
    e = .fault .assertion := by
  unfold updateUniqueProperty at he
  split_ifs at he
  rcases bind_error.1 he with he | ⟨_, -, he⟩
  · exact deleteIfSet_error he
  · exact addIfSet_error he

variable (hk : l.mnUniquePropertyMap.Holds (Function.update K h cur))
include hk

lemma addIfSet_spec (hf : ∀ k, v.key = some k → ∀ h', h' ≠ h → k ∉ K h') :
    ∃ idx, l.addIfSet h v = .ok (l.withIndex idx) ∧
      idx.Holds (Function.update K h (v.key.toList ++ cur)) := by
  unfold addIfSet
  cases hv : v.isNull with
  | true => exact ⟨l.mnUniquePropertyMap, rfl, by simpa [key, hv] using hk⟩
  | false =>
    have hy : v.key = some (serializeHash v) := by simp [key, hv]
    have ho : ∀ h', serializeHash v ∈ Function.update K h cur h' → h' = h := by
      intro h' hm
      by_contra hn
      rw [update_of_ne hn] at hm
      exact hf _ hy h' hn hm
    obtain ⟨idx, ha, hi⟩ := hk.add_spec ho
    refine ⟨idx, ?_, by simpa [hy] using hi⟩
    simp [addUniqueProperty, hv, Run.ensure, ha, withIndex]

lemma addIfSet_fails {k h' : Uint256} (hv : v.key = some k) (he : h' ≠ h) (hm : k ∈ K h') :
    l.addIfSet h v = .error (.fault .assertion) := by
  obtain ⟨hn, rfl⟩ := key_eq_some.1 hv
  have hm' : serializeHash v ∈ Function.update K h cur h' := by
    rwa [update_of_ne he]
  simp [addIfSet, hn, addUniqueProperty, Run.ensure, hk.add_fails hm' he]

lemma addIfSet_ok (ho : l.addIfSet h v = .ok l') : (∀ k, v.key = some k → ∀ h', h' ≠ h → k ∉ K h') ∧
      ∃ idx, l' = l.withIndex idx ∧ idx.Holds (Function.update K h (v.key.toList ++ cur)) := by
  have hf : ∀ k, v.key = some k → ∀ h', h' ≠ h → k ∉ K h' := by
    intro k hy h' hn hm
    simp [addIfSet_fails hk hy hn hm] at ho
  obtain ⟨idx, ha, hi⟩ := addIfSet_spec hk hf
  exact ⟨hf, idx, Except.ok.inj (ho.symm.trans ha), hi⟩

section
variable (hperm : cur.Perm (v.key.toList ++ rest))
include hperm

lemma deleteIfSet_spec : ∃ idx, l.deleteIfSet h v = .ok (l.withIndex idx) ∧
      idx.Holds (Function.update K h rest) := by
  have hu : ∀ {ks ks' : List Uint256}, ks.Perm ks' →
      ∀ h', (Function.update K h ks h').Perm (Function.update K h ks' h') := by
    intro ks ks' hp h'
    rcases eq_or_ne h' h with rfl | hn
    · simpa using hp
    · simp [hn]
  unfold deleteIfSet
  cases hv : v.isNull with
  | true =>
    refine ⟨l.mnUniquePropertyMap, rfl, hk.perm (hu ?_)⟩
    simpa [key, hv] using hperm
  | false =>
    have hy : v.key = some (serializeHash v) := by simp [key, hv]
    rw [hy] at hperm
    have hm : serializeHash v ∈ Function.update K h cur h := by
      rw [update_self]
      exact hperm.mem_iff.2 (by simp)
    obtain ⟨idx, hd, hi⟩ := hk.delete_spec hm
    refine ⟨idx, by simp [deleteUniqueProperty, hv, Run.ensure, hd, withIndex], ?_⟩
    rw [update_self, update_idem] at hi
    refine hi.perm (hu ?_)
    simpa using hperm.erase (serializeHash v)

lemma updateUniqueProperty_spec (hf : ∀ k, v'.key = some k → ∀ h', h' ≠ h → k ∉ K h') :
    ∃ idx, l.updateUniqueProperty h v v' = .ok (l.withIndex idx) ∧
      idx.Holds (Function.update K h (v'.key.toList ++ rest)) := by
  obtain ⟨idx, hd, hi⟩ := deleteIfSet_spec hk hperm
  obtain ⟨idx', ha, hi'⟩ := addIfSet_spec (l := l.withIndex idx) hi hf
  unfold updateUniqueProperty
  by_cases hv : v = v'
  · subst hv
    refine ⟨l.mnUniquePropertyMap, by simp [withIndex], hk.perm fun h' => ?_⟩
    rcases eq_or_ne h' h with rfl | hn
    · simpa using hperm
    · simp [hn]
  · exact ⟨idx', by simp [hv, hd, ha], hi'⟩

lemma updateUniqueProperty_fails {k h' : Uint256}
    (hv' : v'.key = some k) (hn : h' ≠ h) (hm : k ∈ K h') :
    l.updateUniqueProperty h v v' = .error (.fault .assertion) := by
  have hv : v ≠ v' := by
    rintro rfl
    have hk' : k ∈ Function.update K h cur h := by
      rw [update_self]
      exact hperm.mem_iff.2 (by simp [hv'])
    exact hn (hk.unique (by rwa [update_of_ne hn]) hk')
  obtain ⟨idx, hd, hi⟩ := deleteIfSet_spec hk hperm
  simp [updateUniqueProperty, hv, hd, addIfSet_fails (l := l.withIndex idx) hi hv' hn hm]

lemma updateUniqueProperty_ok (ho : l.updateUniqueProperty h v v' = .ok l') :
    (∀ k, v'.key = some k → ∀ h', h' ≠ h → k ∉ K h') ∧
      ∃ idx, l' = l.withIndex idx ∧ idx.Holds (Function.update K h (v'.key.toList ++ rest)) := by
  have hf : ∀ k, v'.key = some k → ∀ h', h' ≠ h → k ∉ K h' := by
    intro k hy h' hn hm
    simp [updateUniqueProperty_fails hk hperm hy hn hm] at ho
  obtain ⟨idx, hu, hi⟩ := updateUniqueProperty_spec hk hperm hf
  exact ⟨hf, idx, Except.ok.inj (ho.symm.trans hu), hi⟩

end

variable {s s' : DeterministicMNState} {c : List Uint256}

omit hk [PropertyHash] in
lemma forall_mem_state_properties {P : UniqueProperty → Prop} : (∀ v ∈ s.properties, P v) ↔
      P (.addr s.addr) ∧ P (.keyIDOwner s.keyIDOwner) ∧ P (.pubKeyOperator s.pubKeyOperator) := by
  simp [properties]

omit hk in
lemma keysIn_state : keysIn s.properties =
    (addr s.addr).key.toList ++ ((keyIDOwner s.keyIDOwner).key.toList
      ++ (pubKeyOperator s.pubKeyOperator).key.toList) := by
  simp [keysIn, properties]

omit hk in
lemma updateUniqueProperties_error {e : Stop}
    (he : l.updateUniqueProperties h s s' = .error e) : e = .fault .assertion := by
  rcases bind_error.1 he with he | ⟨_, -, he⟩
  · exact updateUniqueProperty_error he
  · rcases bind_error.1 he with he | ⟨_, -, he⟩
    · exact updateUniqueProperty_error he
    · exact updateUniqueProperty_error he

omit hk [PropertyHash] in
lemma keys_perm (c a o k : List Uint256) : (c ++ (a ++ (o ++ k))).Perm (a ++ (c ++ (o ++ k))) ∧
    (a ++ (c ++ (o ++ k))).Perm (o ++ (a ++ (c ++ k))) ∧
    (o ++ (a ++ (c ++ k))).Perm (k ++ (o ++ (a ++ c))) ∧
    (k ++ (o ++ (a ++ c))).Perm (c ++ (a ++ (o ++ k))) := by
  simp only [perm_iff_count, count_append]
  grind

lemma updateUniqueProperties_spec (hc : cur = c ++ keysIn s.properties)
    (hf : ∀ v ∈ s'.properties, ∀ k, v.key = some k → ∀ h', h' ≠ h → k ∉ K h') :
    ∃ idx ks, l.updateUniqueProperties h s s' = .ok (l.withIndex idx) ∧
      ks.Perm (c ++ keysIn s'.properties) ∧ idx.Holds (Function.update K h ks) := by
  obtain ⟨fa, fo, fk⟩ := forall_mem_state_properties.1 hf
  rw [hc, keysIn_state] at hk
  obtain ⟨i1, e1, h1⟩ := updateUniqueProperty_spec hk (keys_perm ..).1 fa
  obtain ⟨i2, e2, h2⟩ := updateUniqueProperty_spec (l := l.withIndex i1) h1 (keys_perm ..).2.1 fo
  obtain ⟨i3, e3, h3⟩ := updateUniqueProperty_spec (l := l.withIndex i2) h2 (keys_perm ..).2.2.1 fk
  refine ⟨i3, _, ?_, ?_, h3⟩
  · simp only [updateUniqueProperties, e1, e2, e3, ok_bind, withIndex_withIndex]
  · rw [keysIn_state]
    exact (keys_perm ..).2.2.2

lemma updateUniqueProperties_ok (hc : cur = c ++ keysIn s.properties)
    (ho : l.updateUniqueProperties h s s' = .ok l') :
    ∀ v ∈ s'.properties, ∀ k, v.key = some k → ∀ h', h' ≠ h → k ∉ K h' := by
  rw [hc, keysIn_state] at hk
  obtain ⟨_, ho1, ho⟩ := bind_ok.1 ho
  obtain ⟨fa, i1, rfl, h1⟩ := updateUniqueProperty_ok hk (keys_perm ..).1 ho1
  obtain ⟨_, ho2, ho⟩ := bind_ok.1 ho
  obtain ⟨fo, i2, rfl, h2⟩ := updateUniqueProperty_ok (l := l.withIndex i1) h1
    (keys_perm ..).2.1 ho2
  obtain ⟨fk, -⟩ := updateUniqueProperty_ok (l := l.withIndex i2) h2 (keys_perm ..).2.2.1 ho
  exact forall_mem_state_properties.2 ⟨fa, fo, fk⟩

end Properties

structure Refines (l : DeterministicMNList) (r : Registry) : Prop where
  indexed : l.Indexed
  registry_eq : l.registry = r

variable {r : Registry} {dmn : DeterministicMN}

lemma Refines.mnMap (hR : l.Refines r) : l.mnMap = r.mnMap := by rw [← hR.registry_eq]; rfl

lemma key_free (hf : l.registry.Free dmn) {v : UniqueProperty} (hv : v ∈ dmn.properties) :
    ∀ k, v.key = some k → ∀ h', h' ≠ dmn.proTxHash → k ∉ keysOf l.mnMap h' := by
  intro k hk h' he hm
  obtain ⟨hn, rfl⟩ := key_eq_some.1 hk
  exact hf v h' ⟨hv, hn⟩ he (serializeHash_mem_keysOf.1 hm)

variable (dmn) in
lemma Indexed.insert (hI : l.Indexed) (hm : l'.mnMap = l.mnMap.insert dmn.proTxHash dmn)
    {ks : List Uint256} (hperm : ks.Perm dmn.keys)
    (hid : l'.mnUniquePropertyMap.Holds (Function.update (keysOf l.mnMap) dmn.proTxHash ks))
    (hi : ∀ (id : Nat) (h : Uint256), l'.mnInternalIdMap[id]? = some h ↔
      if h = dmn.proTxHash then dmn.internalId = id else l.mnInternalIdMap[id]? = some h) :
    l'.Indexed where
  proTxHash := by
    intro h d hd
    rw [hm, Maps.getElem?_insert] at hd
    split_ifs at hd with hh
    · rw [← some.inj hd, hh]
    · exact hI.proTxHash h d hd
  properties := by
    rw [hm, keysOf_insert]
    refine hid.perm fun h' => ?_
    rcases eq_or_ne h' dmn.proTxHash with rfl | hn
    · simpa using hperm
    · simp [hn]
  internalIds := by
    intro id h
    rw [hi, hm, Maps.getElem?_insert]
    split_ifs with hh
    · simp
    · exact hI.internalIds id h

lemma Indexed.properties_of_new (hI : l.Indexed) {h : Uint256} (hn : l.mnMap[h]? = none)
    (hl' : l'.mnUniquePropertyMap = l.mnUniquePropertyMap) :
    l'.mnUniquePropertyMap.Holds (Function.update (keysOf l.mnMap) h []) := by
  have hl : keysOf l.mnMap h = [] := by simp [keysOf, hn]
  rw [← hl, update_eq_self, hl']
  exact hI.properties

lemma addMN_spec (hR : l.Refines r) (hp : dmn.Proper) (hn : r.mnMap[dmn.proTxHash]? = none)
    (hi : ∀ (h : Uint256) (d : DeterministicMN), r.mnMap[h]? = some d →
      d.internalId ≠ dmn.internalId)
    (hf : r.Free dmn) : ∃ l', l.addMN dmn = .ok l' ∧ l'.Refines (r.insert dmn) := by
  obtain ⟨hI, rfl⟩ := hR
  rw [registry_mnMap] at hn
  obtain ⟨l1, hl1⟩ : ∃ l1, l1 = { l with
    mnMap := l.mnMap.insert dmn.proTxHash dmn
    mnInternalIdMap := l.mnInternalIdMap.insert dmn.internalId dmn.proTxHash } := ⟨_, rfl⟩
  have h0 := hI.properties_of_new hn (show l1.mnUniquePropertyMap = _ by rw [hl1])
  obtain ⟨fc, hf'⟩ := forall_mem_cons.1 fun v hv => key_free hf hv
  obtain ⟨fa, fo, fk⟩ := forall_mem_state_properties.1 hf'
  obtain ⟨i1, e1, h1⟩ := addIfSet_spec h0 fc
  obtain ⟨i2, e2, h2⟩ := addIfSet_spec (l := l1.withIndex i1) h1 fa
  obtain ⟨i3, e3, h3⟩ := addIfSet_spec (l := l1.withIndex i2) h2 fo
  obtain ⟨i4, e4, h4⟩ := addIfSet_spec (l := l1.withIndex i3) h3 fk
  obtain ⟨hc, ho⟩ := hp.isNull_eq_false
  refine ⟨l1.withIndex i4, ?_, hI.insert dmn (by rw [hl1]; rfl) ?_ h4 ?_, ?_⟩
  · simp only [addMN, ensure_pos hn, ok_bind, addUniqueProperty_of_set hc,
      addUniqueProperty_of_set ho]
    rw [← hl1]
    simp only [e1, e2, e3, e4, ok_bind, withIndex_withIndex]
  · rw [dmn.keys_eq, keysIn_state, append_nil]
    exact (keys_perm ..).2.2.2
  · intro id h
    have hr : l.mnInternalIdMap[dmn.internalId]? = none := by
      rw [eq_none_iff_forall_not_mem]
      intro h' hh'
      obtain ⟨d, hd, he⟩ := (hI.internalIds _ _).1 hh'
      exact hi h' d hd he
    have hold : l.mnInternalIdMap[id]? ≠ some dmn.proTxHash := by
      intro hs
      obtain ⟨d, hd, -⟩ := (hI.internalIds _ _).1 hs
      simp [hn] at hd
    simp only [hl1, withIndex, Maps.getElem?_insert]
    grind
  · simp [hl1, withIndex, registry, Registry.insert]

lemma free_of_key_free (hf : ∀ v ∈ dmn.properties, ∀ k, v.key = some k →
      ∀ h', h' ≠ dmn.proTxHash → k ∉ keysOf l.mnMap h') : l.registry.Free dmn := by
  intro v h' hv hn hh
  exact hf v hv.1 _ (key_eq_some.2 ⟨hv.2, rfl⟩) h' hn (serializeHash_mem_keysOf.2 hh)

lemma addMN_ok (hI : l.Indexed) (hok : l.addMN dmn = .ok l') :
    dmn.Proper ∧ l.mnMap[dmn.proTxHash]? = none ∧ l.registry.Free dmn := by
  obtain ⟨_, hn, hok⟩ := bind_ok.1 hok
  rw [ensure_ok] at hn
  obtain ⟨l1, hl1⟩ : ∃ l1, l1 = { l with
    mnMap := l.mnMap.insert dmn.proTxHash dmn
    mnInternalIdMap := l.mnInternalIdMap.insert dmn.internalId dmn.proTxHash } := ⟨_, rfl⟩
  have h0 := hI.properties_of_new hn (show l1.mnUniquePropertyMap = _ by rw [hl1])
  simp only [← hl1] at hok
  obtain ⟨l2, ho2, hok⟩ := bind_ok.1 hok
  have hc : (collateralOutpoint dmn.collateralOutpoint).isNull = false := by
    obtain ⟨_, he, -⟩ := bind_ok.1 ho2
    exact ensure_ok.1 he
  rw [addUniqueProperty_of_set hc] at ho2
  obtain ⟨fc, i2, rfl, h2⟩ := addIfSet_ok h0 ho2
  obtain ⟨l3, ho3, hok⟩ := bind_ok.1 hok
  obtain ⟨fa, i3, rfl, h3⟩ := addIfSet_ok (l := l1.withIndex i2) h2 ho3
  obtain ⟨l4, ho4, hok⟩ := bind_ok.1 hok
  have ho : (keyIDOwner dmn.pdmnState.keyIDOwner).isNull = false := by
    obtain ⟨_, he, -⟩ := bind_ok.1 ho4
    exact ensure_ok.1 he
  rw [addUniqueProperty_of_set ho] at ho4
  obtain ⟨fo, i4, rfl, h4⟩ := addIfSet_ok (l := l1.withIndex i3) h3 ho4
  obtain ⟨fk, -⟩ := addIfSet_ok (l := l1.withIndex i4) h4 hok
  refine ⟨⟨by simpa [isNull] using hc, by simpa [isNull] using ho⟩,
    hn, free_of_key_free (forall_mem_cons.2 ⟨fc, forall_mem_state_properties.2 ⟨fa, fo, fk⟩⟩)⟩

lemma addMN_error {e : Stop} (he : l.addMN dmn = .error e) : e = .fault .assertion := by
  rcases bind_error.1 he with he | ⟨_, -, he⟩
  · exact ensure_error he
  rcases bind_error.1 he with he | ⟨_, -, he⟩
  · exact addUniqueProperty_error he
  rcases bind_error.1 he with he | ⟨_, -, he⟩
  · exact addIfSet_error he
  rcases bind_error.1 he with he | ⟨_, -, he⟩
  · exact addUniqueProperty_error he
  · exact addIfSet_error he

section Update
variable (hI : l.Indexed) (hentry : l.mnMap[dmn.proTxHash]? = some dmn) {s : DeterministicMNState}
include hI hentry

lemma updateMNOf_cases : (l.registry.Free (dmn.withState s) ∧ ∃ l', l.updateMNOf dmn s = .ok l' ∧
      l'.Refines (l.registry.insert (dmn.withState s))) ∨ (¬ l.registry.Free (dmn.withState s) ∧
      l.updateMNOf dmn s = .error (.fault .assertion)) := by
  obtain ⟨l1, hl1⟩ : ∃ l1, l1 = { l with
    mnMap := l.mnMap.insert dmn.proTxHash (dmn.withState s) } := ⟨_, rfl⟩
  have h0 : l1.mnUniquePropertyMap.Holds
      (Function.update (keysOf l.mnMap) dmn.proTxHash dmn.keys) := by
    have hcr : keysOf l.mnMap dmn.proTxHash = dmn.keys := by simp [keysOf, hentry]
    rw [← hcr, update_eq_self, hl1]
    exact hI.properties
  have hr : l.updateMNOf dmn s =
      l1.updateUniqueProperties dmn.proTxHash dmn.pdmnState s := by rw [hl1]; rfl
  by_cases hf : l.registry.Free (dmn.withState s)
  · left
    obtain ⟨-, hf'⟩ := forall_mem_cons.1 fun v hv => key_free hf hv
    obtain ⟨idx, ks, hok, hks, hi⟩ := updateUniqueProperties_spec h0 dmn.keys_eq hf'
    refine ⟨hf, l1.withIndex idx, hr.trans hok,
      hI.insert (dmn.withState s) (by rw [hl1]; rfl) hks hi fun id h => ?_, ?_⟩
    · simp only [hl1, withIndex]
      split_ifs with hh
      · rw [hI.internalIds, hh]
        simp [hentry]
      · rfl
    · simp [hl1, withIndex, registry, Registry.insert]
  · right
    refine ⟨hf, ?_⟩
    cases hrs : l.updateMNOf dmn s with
    | error e => rw [updateUniqueProperties_error (hr.symm.trans hrs)]
    | ok l2 =>
      have hs := updateUniqueProperties_ok h0 dmn.keys_eq (hr.symm.trans hrs)
      -- the collateral is the masternode's own already
      have hc : ∀ k, (UniqueProperty.collateralOutpoint dmn.collateralOutpoint).key = some k →
          ∀ h', h' ≠ dmn.proTxHash → k ∉ keysOf l.mnMap h' := by
        intro k hk h' hn hm
        have ho : k ∈ keysOf l.mnMap dmn.proTxHash := by
          simp [keysOf, hentry, dmn.keys_eq, hk]
        exact hn (hI.properties.unique hm ho)
      refine absurd (free_of_key_free ?_) hf
      exact forall_mem_cons.2 ⟨hc, hs⟩

lemma updateMNOf_ok (ho : l.updateMNOf dmn s = .ok l') :
    l'.Refines (l.registry.insert (dmn.withState s)) := by
  rcases updateMNOf_cases hI hentry (s := s) with ⟨-, l2, ho2, hR⟩ | ⟨-, he⟩
  · rwa [Except.ok.inj (ho.symm.trans ho2)]
  · simp [he] at ho

end Update

variable {h : Uint256}

lemma updateMN_eq (hd : l.mnMap[h]? = some dmn) (s : DeterministicMNState) :
    l.updateMN h s = l.updateMNOf dmn s := by
  simp [updateMN, hd]

lemma removeMN_spec (hI : l.Indexed) (hd : l.mnMap[h]? = some dmn) (hp : dmn.Proper) :
    ∃ l', l.removeMN h = .ok l' ∧ l'.Refines (l.registry.erase h) := by
  obtain rfl := hI.proTxHash h dmn hd
  have h0 : l.mnUniquePropertyMap.Holds
      (Function.update (keysOf l.mnMap) dmn.proTxHash dmn.keys) := by
    have hr : keysOf l.mnMap dmn.proTxHash = dmn.keys := by simp [keysOf, hd]
    rw [← hr, update_eq_self]
    exact hI.properties
  rw [dmn.keys_eq, keysIn_state] at h0
  obtain ⟨i1, e1, h1⟩ := deleteIfSet_spec h0 (List.Perm.refl _)
  obtain ⟨i2, e2, h2⟩ := deleteIfSet_spec (l := l.withIndex i1) h1 (List.Perm.refl _)
  obtain ⟨i3, e3, h3⟩ := deleteIfSet_spec (l := l.withIndex i2) h2 (List.Perm.refl _)
  obtain ⟨i4, e4, h4⟩ := deleteIfSet_spec (l := l.withIndex i3) h3 (.of_eq (append_nil _).symm)
  obtain ⟨hc, ho⟩ := hp.isNull_eq_false
  refine ⟨{ l with
    mnMap := l.mnMap.erase dmn.proTxHash
    mnInternalIdMap := l.mnInternalIdMap.erase dmn.internalId
    mnUniquePropertyMap := i4 }, ?_, ⟨?_, ?_, ?_⟩, rfl⟩
  · simp only [removeMN, getMN, hd, demand_some, ok_bind, deleteUniqueProperty_of_set hc,
      deleteUniqueProperty_of_set ho, e1, e2, e3, e4, withIndex_withIndex, pure_eq]
    rfl
  · intro h d
    simp only [Maps.getElem?_erase]
    split_ifs with hh
    · nofun
    · exact hI.proTxHash h d
  · simpa only [keysOf_erase] using h4
  · intro id h
    simp only [Maps.getElem?_erase]
    rcases eq_or_ne h dmn.proTxHash with rfl | hn
    · have := hI.internalIds id dmn.proTxHash
      grind
    · have h1 := hI.internalIds id h
      have h2 := (hI.internalIds dmn.internalId dmn.proTxHash).2 ⟨dmn, hd, rfl⟩
      grind

lemma removeMN_ok (hok : l.removeMN h = .ok l') :
    ∃ dmn : DeterministicMN, l.mnMap[h]? = some dmn ∧ dmn.Proper := by
  obtain ⟨dmn, hd, hok⟩ := bind_ok.1 hok
  obtain ⟨_, hd1, hok⟩ := bind_ok.1 hok
  obtain ⟨_, -, hok⟩ := bind_ok.1 hok
  obtain ⟨_, hd3, -⟩ := bind_ok.1 hok
  obtain ⟨_, hc, -⟩ := bind_ok.1 hd1
  obtain ⟨_, ho, -⟩ := bind_ok.1 hd3
  refine ⟨dmn, demand_ok.1 hd, ?_, ?_⟩
  · simpa [isNull] using hc
  · simpa [isNull] using ho

end DeterministicMNList
end Trivechain.Evo
