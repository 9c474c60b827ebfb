import Trivechain.Evo.Refinement
import Trivechain.Mempool.ProTxIndexes

/-!
# Conflicts of registrations

A registration is refused when the pool has a key, a collateral or an address of it. The list of
masternodes takes any number of registrations without an address, but the pool only one: the empty
address is indexed as any other. And while the list lets a registration replace another one with the
same collateral, the pool refuses it.
-/

namespace Trivechain.Mempool
open Evo Bls Run Maps TxMemPool List
open Std (ExtTreeMap)
variable {K V : Type} [Ord K] [Std.TransOrd K] [Std.LawfulEqOrd K] [DecidableEq K]
  {Has : Transaction → K → Prop} {txs : List Transaction} {tx : Transaction} {m : ExtTreeMap K V}

/-- The keys of the map are those that the transactions have. -/
def Exact (Has : Transaction → K → Prop) (txs : List Transaction) (m : ExtTreeMap K V) : Prop :=
  ∀ k, k ∈ m ↔ ∃ tx ∈ txs, Has tx k

omit [DecidableEq K]

lemma Exact.insertIfNew {k : K} {v : V} (h : Exact Has txs m) (hk : ∀ a, Has tx a ↔ k = a) :
    Exact Has (tx :: txs) (m.insertIfNew k v) := by
  intro a
  simp [hk, h a]

lemma Exact.insertEach {v : V} {ks : List K} (h : Exact Has txs m) (hk : ∀ a, Has tx a ↔ a ∈ ks) :
    Exact Has (tx :: txs) (ks.foldl (fun m k => m.insertIfNew k v) m) := by
  have hm : ∀ (ks : List K) (m : ExtTreeMap K V) (a : K),
      a ∈ ks.foldl (fun m k => m.insertIfNew k v) m ↔ a ∈ ks ∨ a ∈ m := by
    intro ks
    induction ks with
    | nil => simp
    | cons k ks ih =>
      intro m a
      simp [ih, or_left_comm, or_assoc, eq_comm (a := a)]
  intro a
  simp [hm, hk, h a]

omit [Std.LawfulEqOrd K] in
lemma Exact.cons (h : Exact Has txs m) (hk : ∀ a, ¬ Has tx a) : Exact Has (tx :: txs) m := by
  intro a
  simp [h a, hk]

namespace TxMemPool
variable [ChainHash] [PropertyHash] {pool pool' : TxMemPool} {mnList : DeterministicMNList}
  {entry : TxMemPoolEntry} {setAncestors : SetEntries}

section Rules

omit [ChainHash] [PropertyHash]

variable {I : TxMemPool → Prop} (hI : ∀ {pool : TxMemPool} mapTx mapLinks, I pool →
  I { pool with mapTx, mapLinks }) {it : Uint256}
include hI

lemma modify_rule {f : TxMemPoolEntry → Run TxMemPoolEntry} (h : I pool)
    (ho : pool.modify it f = .ok pool') : I pool' := by
  obtain ⟨e, -, ho⟩ := bind_ok.1 ho
  obtain ⟨e', -, ho⟩ := bind_ok.1 ho
  cases ho
  exact hI _ _ h

lemma updateAncestorsOf_rule {add : Bool} (h : I pool)
    (ho : pool.updateAncestorsOf add it setAncestors = .ok pool') : I pool' := by
  obtain ⟨parents, -, ho⟩ := bind_ok.1 ho
  obtain ⟨e, -, ho⟩ := bind_ok.1 ho
  refine foldlM_invariant I (fun _ _ _ h => modify_rule hI h) _ _ _ ?_ ho
  exact foldlRecOn _ _ h fun _ h _ _ => hI _ _ h

lemma updateEntryForAncestors_rule (h : I pool)
    (ho : pool.updateEntryForAncestors it setAncestors = .ok pool') : I pool' := by
  obtain ⟨ancestors, -, ho⟩ := bind_ok.1 ho
  exact modify_rule hI h ho

lemma applyDelta_rule (h : I pool) (ho : pool.applyDelta it = .ok pool') : I pool' := by
  unfold applyDelta at ho
  split at ho
  · split_ifs at ho
    · exact modify_rule hI h ho
    · exact Except.ok.inj ho ▸ h
  · exact Except.ok.inj ho ▸ h

end Rules

/-- The indexes have the keys of some transactions, and the spent outputs of others. -/
structure Covered (txs txs' : List Transaction) (pool : TxMemPool) : Prop where
  addresses : Exact (fun tx k => addressOf tx = some k) txs pool.mapProTxAddresses
  ownerKeys : Exact (fun tx k => ownerKeyOf tx = some k) txs pool.mapProTxPubKeyIDs
  operatorKeys : Exact (fun tx k => operatorKeyOf tx = some k) txs pool.mapProTxBlsPubKeyHashes
  collaterals : Exact (fun tx k => collateralOf tx = some k) txs pool.mapProTxCollaterals
  spent : Exact (fun tx o => o ∈ tx.vin) txs' pool.mapNextTx

variable {txs' : List Transaction}

omit [ChainHash] in
lemma Covered.frame (mapTx : ExtTreeMap Uint256 TxMemPoolEntry)
    (mapLinks : ExtTreeMap Uint256 TxLinks) (h : Covered txs txs' pool) :
    Covered txs txs' { pool with mapTx, mapLinks } :=
  ⟨h.addresses, h.ownerKeys, h.operatorKeys, h.collaterals, h.spent⟩

section
variable (h : Covered txs txs' pool)
include h

lemma Covered.insertEntry (ho : pool.insertEntry entry = .ok pool') :
    Covered txs (entry.tx :: txs') pool' := by
  obtain ⟨pool1, h1, ho⟩ := bind_ok.1 ho
  cases ho
  have hd : Covered txs txs' pool1 := applyDelta_rule .frame (h.frame _ _) h1
  refine foldlRecOn _ _ ⟨hd.addresses, hd.ownerKeys, hd.operatorKeys, hd.collaterals, ?_⟩
    fun pool hp phash _ => ?_
  · exact hd.spent.insertEach fun a => Iff.rfl
  · split_ifs
    · exact hp.frame _ _
    · exact hp

lemma Covered.addProTx (ho : pool.addProTx mnList tx = .ok pool') :
    Covered (tx :: txs) txs' pool' := by
  unfold TxMemPool.addProTx at ho
  dsimp only at ho
  cases hp : tx.payload with
  | providerRegister ptx =>
    rw [hp] at ho
    obtain ⟨proTx, hd, ho⟩ := bind_ok.1 ho
    obtain rfl := demand_ok.1 hd
    cases ho
    refine ⟨h.addresses.insertIfNew fun a => ?_, h.ownerKeys.insertIfNew fun a => ?_,
      h.operatorKeys.insertIfNew fun a => ?_, ?_, h.spent⟩
    · simp [addressOf, hp]
    · simp [ownerKeyOf, hp]
    · simp [operatorKeyOf, hp]
    · dsimp only
      split_ifs with he
      · exact h.collaterals.insertIfNew fun a => by simp [collateralOf, hp, he]
      · exact h.collaterals.cons fun a => by simp [collateralOf, hp, he]
  | providerUpdateService ptx =>
    rw [hp] at ho
    obtain ⟨proTx, hd, ho⟩ := bind_ok.1 ho
    obtain rfl := demand_ok.1 hd
    cases ho
    exact ⟨h.addresses.insertIfNew fun a => by simp [addressOf, hp],
      h.ownerKeys.cons fun a => by simp [ownerKeyOf, hp],
      h.operatorKeys.cons fun a => by simp [operatorKeyOf, hp],
      h.collaterals.cons fun a => by simp [collateralOf, hp], h.spent⟩
  | providerUpdateRegistrar ptx =>
    rw [hp] at ho
    obtain ⟨proTx, hd, hk⟩ := bind_ok.1 ho
    obtain ⟨dmn, -, hk⟩ := bind_ok.1 hk
    obtain rfl := demand_ok.1 hd
    refine modify_rule .frame ?_ hk
    exact ⟨h.addresses.cons fun a => by simp [addressOf, hp],
      h.ownerKeys.cons fun a => by simp [ownerKeyOf, hp],
      h.operatorKeys.insertIfNew fun a => by simp [operatorKeyOf, hp],
      h.collaterals.cons fun a => by simp [collateralOf, hp], h.spent⟩
  | providerUpdateRevoke ptx =>
    rw [hp] at ho
    obtain ⟨proTx, -, ho⟩ := bind_ok.1 ho
    obtain ⟨dmn, -, ho⟩ := bind_ok.1 ho
    refine modify_rule .frame ?_ ho
    exact ⟨h.addresses.cons fun a => by simp [addressOf, hp],
      h.ownerKeys.cons fun a => by simp [ownerKeyOf, hp],
      h.operatorKeys.cons fun a => by simp [operatorKeyOf, hp],
      h.collaterals.cons fun a => by simp [collateralOf, hp], h.spent⟩
  | _ =>
    have hc : Covered (tx :: txs) txs' pool :=
      ⟨h.addresses.cons fun a => by simp [addressOf, hp],
        h.ownerKeys.cons fun a => by simp [ownerKeyOf, hp],
        h.operatorKeys.cons fun a => by simp [operatorKeyOf, hp],
        h.collaterals.cons fun a => by simp [collateralOf, hp], h.spent⟩
    rw [hp] at ho
    exact Except.ok.inj ho ▸ hc

end

lemma Covered.addUnchecked (h : Covered txs txs pool)
    (ho : pool.addUnchecked mnList entry setAncestors = .ok pool') :
    Covered (entry.tx :: txs) (entry.tx :: txs) pool' := by
  obtain ⟨pool1, h1, ho⟩ := bind_ok.1 ho
  obtain ⟨pool2, h2, ho⟩ := bind_ok.1 ho
  obtain ⟨pool3, h3, ho⟩ := bind_ok.1 ho
  have hs := updateAncestorsOf_rule .frame (h.insertEntry h1) h2
  exact (updateEntryForAncestors_rule .frame hs h3).addProTx ho

abbrev Entries := List (DeterministicMNList × TxMemPoolEntry × SetEntries)

def addAll (entries : Entries) : Run TxMemPool :=
  entries.foldlM (fun (pool : TxMemPool) e => pool.addUnchecked e.1 e.2.1 e.2.2) {}

lemma covered_addAll {entries : Entries} (hrun : addAll entries = .ok pool) :
    Covered (entries.map (·.2.1.tx)).reverse (entries.map (·.2.1.tx)).reverse pool := by
  induction entries using reverseRecOn generalizing pool with
  | nil =>
    cases hrun
    constructor <;> exact fun k => by simp
  | append_singleton entries e ih =>
    rw [addAll, foldlM_append] at hrun
    obtain ⟨pool1, h1, hrun⟩ := bind_ok.1 hrun
    rw [map_append, reverse_append]
    obtain ⟨pool2, h2, hrun⟩ := bind_ok.1 hrun
    cases hrun
    exact (ih h1).addUnchecked h2

/-- What the pool looks for. -/
def Meets (proTx : ProRegTx) (tx : Transaction) : Prop :=
  ownerKeyOf tx = some proTx.keyIDOwner ∨ operatorKeyOf tx = some (keyHash proTx.pubKeyOperator) ∨
    addressOf tx = some proTx.addr ∨ proTx.collateralOutpoint.hash ≠ 0 ∧
      (collateralOf tx = some proTx.collateralOutpoint ∨ proTx.collateralOutpoint ∈ tx.vin)

/-- What only one masternode can have. -/
def Shares (proTx : ProRegTx) (tx : Transaction) : Prop :=
  ownerKeyOf tx = some proTx.keyIDOwner ∨ operatorKeyOf tx = some (keyHash proTx.pubKeyOperator) ∨
    collateralOf tx = some proTx.collateralOutpoint ∨ proTx.collateralOutpoint ∈ tx.vin ∨
    addressOf tx = some proTx.addr ∧ proTx.addr ≠ .null

lemma conflict_iff_meets {entries : Entries} (hrun : addAll entries = .ok pool) {proTx : ProRegTx}
    (hp : tx.payload = .providerRegister (some proTx)) :
    pool.existsProviderTxConflict mnList tx ↔ ∃ e ∈ entries, Meets proTx e.2.1.tx := by
  have h := covered_addAll hrun
  have ha := h.addresses proTx.addr
  have ho := h.ownerKeys proTx.keyIDOwner
  have hk := h.operatorKeys (keyHash proTx.pubKeyOperator)
  have hc := h.collaterals proTx.collateralOutpoint
  have hs := h.spent proTx.collateralOutpoint
  simp only [mem_reverse, mem_map, exists_exists_and_eq_and] at ha ho hk hc hs
  have hm : (∃ e ∈ entries, Meets proTx e.2.1.tx) ↔
      (proTx.addr ∈ pool.mapProTxAddresses ∨ proTx.keyIDOwner ∈ pool.mapProTxPubKeyIDs ∨
        keyHash proTx.pubKeyOperator ∈ pool.mapProTxBlsPubKeyHashes) ∨
      proTx.collateralOutpoint.hash ≠ 0 ∧ (proTx.collateralOutpoint ∈ pool.mapProTxCollaterals ∨
        proTx.collateralOutpoint ∈ pool.mapNextTx) := by
    rw [ha, ho, hk, hc, hs]
    constructor
    · rintro ⟨e, he, h | h | h | ⟨hx, h | h⟩⟩
      exacts [.inl (.inr (.inl ⟨e, he, h⟩)), .inl (.inr (.inr ⟨e, he, h⟩)), .inl (.inl ⟨e, he, h⟩),
        .inr ⟨hx, .inl ⟨e, he, h⟩⟩, .inr ⟨hx, .inr ⟨e, he, h⟩⟩]
    · rintro ((⟨e, he, h⟩ | ⟨e, he, h⟩ | ⟨e, he, h⟩) | ⟨hx, ⟨e, he, h⟩ | ⟨e, he, h⟩⟩)
      exacts [⟨e, he, .inr (.inr (.inl h))⟩, ⟨e, he, .inl h⟩, ⟨e, he, .inr (.inl h)⟩,
        ⟨e, he, .inr (.inr (.inr ⟨hx, .inl h⟩))⟩, ⟨e, he, .inr (.inr (.inr ⟨hx, .inr h⟩))⟩]
  simp only [existsProviderTxConflict, hp, ExtTreeMap.isSome_getElem?_iff_mem, Bool.or_eq_true,
    or_assoc]
  rw [hm]
  split_ifs with h1 h2
  · exact iff_of_true rfl (.inl h1)
  · rw [or_iff_right h1, and_iff_right h2]
    simp
  · rw [or_iff_right h1]
    exact iff_of_false not_false fun h => h2 h.1

/-- The list takes both registrations in one block, where their own outputs cannot be collaterals
yet. -/
structure AcceptedTogether (getUTXOCoin : OutPoint → Option TxOut) (nHeight : Int)
    (l : DeterministicMNList) (tx tx' : Transaction) (proTx proTx' : ProRegTx) : Prop where
  tracks : ∃ r, l.Tracks r
  payload : tx.payload = .providerRegister (some proTx)
  payload' : tx'.payload = .providerRegister (some proTx')
  hash_ne : tx.getHash ≠ tx'.getHash
  created : ∀ o, o.hash = tx.getHash ∨ o.hash = tx'.getHash → getUTXOCoin o = none
  operator : proTx'.pubKeyOperator.isSome
  accepted : ∃ l1 l2, l.processProRegTx getUTXOCoin nHeight tx (some proTx) = .ok l1 ∧
    l1.processProRegTx getUTXOCoin nHeight tx' (some proTx') = .ok l2

namespace AcceptedTogether
variable {getUTXOCoin : OutPoint → Option TxOut} {nHeight : Int} {l : DeterministicMNList}
  {tx' : Transaction} {proTx proTx' : ProRegTx}
  (h : AcceptedTogether getUTXOCoin nHeight l tx tx' proTx proTx')
include h

/-- What the first registration holds is found when the second one is processed, unless that
replaces it. -/
lemma not_shared (hc : proTx.collateralOf tx ≠ proTx'.collateralOf tx') :
    proTx.keyIDOwner ≠ proTx'.keyIDOwner ∧ proTx.pubKeyOperator ≠ proTx'.pubKeyOperator ∧
      (proTx.addr = proTx'.addr → proTx.addr = .null) := by
  obtain ⟨r, hT⟩ := h.tracks
  obtain ⟨l1, l2, h1, h2⟩ := h.accepted
  obtain ⟨r1, hr1, hT1⟩ := (hT.processProRegTx_sim h.payload getUTXOCoin nHeight).of_ok_left h1
  obtain ⟨r2, hr2, -⟩ := (hT1.processProRegTx_sim h.payload' getUTXOCoin nHeight).of_ok_left h2
  simp only [Run.demand_some, ok_bind, Registry.register] at hr1 hr2
  obtain ⟨_, -, hr1⟩ := bind_ok.1 hr1
  obtain ⟨_, -, hr1⟩ := bind_ok.1 hr1
  obtain ⟨_, -, hr1⟩ := bind_ok.1 hr1
  obtain ⟨_, hz, hr1⟩ := bind_ok.1 hr1
  cases hr1
  obtain ⟨_, -, hr2⟩ := bind_ok.1 hr2
  obtain ⟨_, ha, hr2⟩ := bind_ok.1 hr2
  obtain ⟨_, hk, -⟩ := bind_ok.1 hr2
  rw [denyIf_ok] at ha hk
  rw [not_or] at hk
  have hs : ∀ v ∈ (proTx.newState nHeight).properties, v.isNull = false →
      ((((r.prepare tx proTx).insert (r.bare.registeredMN nHeight tx proTx)).prepare tx'
        proTx').holder v).isSome := by
    intro v hv hn
    refine Registry.isSome_holder.2 ⟨tx.getHash, r.bare.registeredMN nHeight tx proTx,
      (hT1.sound.count_succ.getElem?_release _).2 ⟨?_, ?_⟩, .tail _ hv, hn⟩
    · exact (Registry.getElem?_insert ..).trans (if_pos rfl)
    · rintro ⟨ho, -⟩
      simp [DeterministicMN.properties, DeterministicMNState.properties,
        DeterministicMNList.registeredMN] at ho
      exact hc ho.symm
  refine ⟨fun he => hk.1 (hs _ ?_ ?_), fun he => hk.2 (hs _ ?_ ?_), fun he => ?_⟩
  · simp [DeterministicMNState.properties, ProRegTx.newState, he]
  · simpa [UniqueProperty.isNull, ← he] using ensure_ok.1 hz
  · simp [DeterministicMNState.properties, ProRegTx.newState, he]
  · simpa [UniqueProperty.isNull] using h.operator
  · by_contra hn
    refine ha (hs _ ?_ ?_)
    · simp [DeterministicMNState.properties, ProRegTx.newState, he]
    · simpa [UniqueProperty.isNull, ← he] using hn

/-- Only external collaterals can be the same. -/
lemma collateral_eq (hc : proTx.collateralOf tx = proTx'.collateralOf tx') :
    proTx'.collateralOutpoint.hash ≠ 0 ∧ collateralOf tx = some proTx'.collateralOutpoint := by
  have hu : ∀ {l1 l2 : DeterministicMNList} {tx : Transaction} {proTx : ProRegTx},
      l1.processProRegTx getUTXOCoin nHeight tx (some proTx) = .ok l2 →
      proTx.internalCollateral = false → getUTXOCoin (proTx.collateralOf tx) ≠ none := by
    intro l1 l2 tx proTx ho hi hn
    obtain ⟨_, hd, ho⟩ := bind_ok.1 ho
    cases hd
    obtain ⟨_, ho, -⟩ := bind_ok.1 ho
    rw [denyIf_ok] at ho
    exact ho ⟨by simp [hi], by simp [DeterministicMNList.registeredMN, hn]⟩
  obtain ⟨l1, l2, h1, h2⟩ := h.accepted
  cases hi : proTx.internalCollateral <;> cases hi' : proTx'.internalCollateral
  · have hx : proTx'.collateralOutpoint.hash ≠ 0 := by simpa [ProRegTx.internalCollateral] using hi'
    replace hc : proTx.collateralOutpoint = proTx'.collateralOutpoint := by
      simpa [ProRegTx.collateralOf, hi, hi'] using hc
    refine ⟨hx, ?_⟩
    simp [collateralOf, h.payload, hc, hx]
  · refine absurd (h.created _ (.inr ?_)) (hu h1 hi)
    rw [hc, ProRegTx.collateralOf, if_pos hi']
  · refine absurd (h.created _ (.inl ?_)) (hu h2 hi')
    rw [← hc, ProRegTx.collateralOf, if_pos hi]
  · simp only [ProRegTx.collateralOf, hi, hi', if_true, OutPoint.mk.injEq] at hc
    exact absurd hc.1 h.hash_ne

lemma meets_iff : Meets proTx' tx ↔ proTx.addr = .null ∧ proTx'.addr = .null ∨
    proTx'.collateralOutpoint.hash ≠ 0 ∧ (collateralOf tx = some proTx'.collateralOutpoint ∨
      proTx'.collateralOutpoint ∈ tx.vin) := by
  have ho : ownerKeyOf tx = some proTx.keyIDOwner := by rw [ownerKeyOf, h.payload]
  have hk : operatorKeyOf tx = some (keyHash proTx.pubKeyOperator) := by
    rw [operatorKeyOf, h.payload]
  have ha : addressOf tx = some proTx.addr := by rw [addressOf, h.payload]
  simp only [Meets, ho, hk, ha, Option.some.injEq]
  constructor
  · intro hm
    by_cases hc : proTx.collateralOf tx = proTx'.collateralOf tx'
    · obtain ⟨hx, hc⟩ := h.collateral_eq hc
      exact .inr ⟨hx, .inl hc⟩
    obtain ⟨hno, hnk, hna⟩ := h.not_shared hc
    rcases hm with hm | hm | hm | hm
    · exact absurd hm hno
    · exact absurd (by simpa using PropertyHash.injective hm) hnk
    · exact .inl ⟨hna hm, hm ▸ hna hm⟩
    · exact .inr hm
  · rintro (⟨hn, hn'⟩ | hm)
    · exact .inr (.inr (.inl (hn.trans hn'.symm)))
    · exact .inr (.inr (.inr hm))

end AcceptedTogether

/-- The pool refuses a registration exactly for what a transaction in it has. This is something that
only one masternode can have, unless both have the empty address. The list takes it together with
one that it is refused for exactly if both have the empty address, or if the other one has or spends
its collateral. -/
theorem conflict_iff (entries : Entries) (pool : TxMemPool) (hrun : addAll entries = .ok pool)
    (mnList : DeterministicMNList) (tx : Transaction) (proTx : ProRegTx)
    (hp : tx.payload = .providerRegister (some proTx)) :
    (pool.existsProviderTxConflict mnList tx ↔ ∃ e ∈ entries, Meets proTx e.2.1.tx) ∧
    ((pool.existsProviderTxConflict mnList tx → ∃ e ∈ entries, Shares proTx e.2.1.tx) ↔
      (proTx.addr = .null → ∀ e ∈ entries, addressOf e.2.1.tx = some .null →
        ∃ e ∈ entries, Shares proTx e.2.1.tx)) ∧
    ∀ e ∈ entries, ∀ getUTXOCoin nHeight l proTx',
      AcceptedTogether getUTXOCoin nHeight l e.2.1.tx tx proTx' proTx →
      (Meets proTx e.2.1.tx ↔ proTx'.addr = .null ∧ proTx.addr = .null ∨
        proTx.collateralOutpoint.hash ≠ 0 ∧
          (collateralOf e.2.1.tx = some proTx.collateralOutpoint ∨
            proTx.collateralOutpoint ∈ e.2.1.tx.vin)) := by
  have hm : pool.existsProviderTxConflict mnList tx ↔ _ := conflict_iff_meets hrun hp
  refine ⟨hm, ?_, fun e _ _ _ _ _ h => h.meets_iff⟩
  rw [hm]
  constructor
  · intro h hn e he ha
    exact h ⟨e, he, .inr (.inr (.inl (hn ▸ ha)))⟩
  · rintro h ⟨e, he, hx | hx | hx | ⟨-, hx | hx⟩⟩
    · exact ⟨e, he, .inl hx⟩
    · exact ⟨e, he, .inr (.inl hx)⟩
    · by_cases hn : proTx.addr = .null
      · exact h hn e he (hn ▸ hx)
      · exact ⟨e, he, .inr (.inr (.inr (.inr ⟨hx, hn⟩)))⟩
    · exact ⟨e, he, .inr (.inr (.inl hx))⟩
    · exact ⟨e, he, .inr (.inr (.inr (.inl hx)))⟩

end TxMemPool

namespace Unaddressed

def proTx (addr : Service) (key : Nat) : ProRegTx where
  collateralOutpoint := ⟨0, 0⟩
  addr
  keyIDOwner := key
  pubKeyOperator := some key
  keyIDVoting := key
  scriptPayout := .pubKeyHash 40
  inputsHash := 0

def register (addr : Service) (key : Nat) : Transaction where
  nVersion := 3
  payload := .providerRegister (some (proTx addr key))
  vin := [⟨50, key⟩]
  vout := []

local instance chainHash : ChainHash := tableHash [register .null 1, register ⟨10, 1⟩ 1] []
local instance propertyHash : PropertyHash := encodingHash

def add (addr : Service) : Run TxMemPool :=
  addAll [({}, .new (register addr 1) 100 0 1 ⟨1, Nat.one_pos⟩, ∅)]

lemma conflict {a : Service} (h : ((add a).toOption.map
      (existsProviderTxConflict · {} (register a 2))) = some true) :
    ∃ pool, add a = .ok pool ∧ pool.existsProviderTxConflict {} (register a 2) :=
  Run.exists_of_map_toOption h

/-- Two registrations without an address, and with nothing else in common. -/
theorem conflict_of_unaddressed : ∃ pool, add .null = .ok pool ∧
    pool.existsProviderTxConflict {} (register .null 2) ∧
    ¬ Shares (proTx .null 2) (register .null 1) := by
  obtain ⟨pool, hp, hc⟩ := conflict (a := .null) (by decide +kernel)
  exact ⟨pool, hp, hc, by unfold Shares; decide +kernel⟩

theorem conflict_of_address : ∃ pool, add ⟨10, 1⟩ = .ok pool ∧
    Meets (proTx ⟨10, 1⟩ 2) (register ⟨10, 1⟩ 1) := by
  obtain ⟨pool, hp, hc⟩ := conflict (a := ⟨10, 1⟩) (by decide +kernel)
  obtain ⟨e, he, hs⟩ := (conflict_iff _ pool hp {} (register ⟨10, 1⟩ 2) (proTx ⟨10, 1⟩ 2) rfl).1.1 hc
  rw [mem_singleton.1 he] at hs
  exact ⟨pool, hp, hs⟩

end Unaddressed
end Trivechain.Mempool
