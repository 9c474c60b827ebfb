import Trivechain.Evo.Refinement

/-!
# The roll of a registry

The part of a registry that updates leave alone: the registered transactions with their internal ids
and collaterals. On it a block has a plain effect: registrations enter, and whoever has a collateral
that is registered again or spent leaves.
-/

namespace Trivechain.Evo
open Bls Llmq DeterministicMNList Function
open Std (ExtTreeMap)
open Run
open List DeterministicMN Option Except

structure Entry where
  internalId : Nat
  collateralOutpoint : OutPoint
  nOperatorReward : Nat
deriving DecidableEq

def DeterministicMN.entry (dmn : DeterministicMN) : Entry :=
  ⟨dmn.internalId, dmn.collateralOutpoint, dmn.nOperatorReward⟩

@[simp] lemma DeterministicMN.entry_withState (dmn : DeterministicMN) (s : DeterministicMNState) :
    (dmn.withState s).entry = dmn.entry := rfl

@[ext]
structure Roll where
  count : Nat
  entry : Uint256 → Option Entry

/-- The registration of a transaction that the loop over a block recognizes. -/
def Transaction.registration (tx : Transaction) : Option ProRegTx :=
  if tx.nVersion = 3 then
    match tx.payload with
    | .providerRegister payload => payload
    | _ => none
  else none

namespace Roll

def release (R : Roll) (o : OutPoint) : Roll :=
  { R with entry := fun h => (R.entry h).filter fun e => e.collateralOutpoint ≠ o }

lemma entry_release {R : Roll} {o : OutPoint} {h : Uint256} {e : Entry} :
    (R.release o).entry h = some e ↔ R.entry h = some e ∧ e.collateralOutpoint ≠ o := by
  simp [release, filter_eq_some_iff]

variable [ChainHash]

def register (R : Roll) (tx : Transaction) (proTx : ProRegTx) : Roll where
  count := R.count + 1
  entry := update (R.release (proTx.collateralOf tx)).entry tx.getHash
    (some ⟨R.count, proTx.collateralOf tx, proTx.nOperatorReward⟩)

@[simp] lemma count_register (R : Roll) (tx : Transaction) (proTx : ProRegTx) :
    (R.register tx proTx).count = R.count + 1 := rfl

def applyTx (R : Roll) (tx : Transaction) : Roll :=
  match tx.registration with
  | some proTx => R.register tx proTx
  | none => R

def applyBlock (R : Roll) (block : Block) : Roll :=
  block.spent.foldl release (block.txs.foldl applyTx R)

/-! ## Registrations -/

def registrations (txs : List Transaction) : List (Transaction × ProRegTx) :=
  txs.filterMap fun tx => tx.registration.map (tx, ·)

def collateral (x : Transaction × ProRegTx) : OutPoint := x.2.collateralOf x.1

variable {x : Transaction × ProRegTx} {R : Roll} {h : Uint256} {e : Entry}

omit [ChainHash] in
lemma registration_of_mem {txs : List Transaction} (hx : x ∈ registrations txs) :
    x.1 ∈ txs ∧ x.1.registration = some x.2 := by
  obtain ⟨tx, ht, hr⟩ := mem_filterMap.1 hx
  obtain ⟨proTx, hp, rfl⟩ := map_eq_some_iff.1 hr
  exact ⟨ht, hp⟩

lemma foldl_applyTx (txs : List Transaction) (R : Roll) : txs.foldl applyTx R =
    (registrations txs).foldl (fun R x => R.register x.1 x.2) R := by
  induction txs generalizing R with
  | nil => rfl
  | cons tx txs ih =>
    rw [foldl_cons, ih]
    unfold applyTx registrations
    cases hr : tx.registration <;> simp [hr]

lemma count_foldl_register (regs : List (Transaction × ProRegTx)) (R : Roll) :
    (regs.foldl (fun R x => R.register x.1 x.2) R).count = R.count + regs.length := by
  induction regs generalizing R with
  | nil => rfl
  | cons x regs ih =>
    rw [foldl_cons, ih, length_cons, count_register]
    omega

lemma entry_register : (R.register x.1 x.2).entry h = some e ↔
      if x.1.getHash = h then e = ⟨R.count, collateral x, x.2.nOperatorReward⟩
      else R.entry h = some e ∧ e.collateralOutpoint ≠ collateral x := by
  simp only [register, update_apply, eq_comm (a := h)]
  split_ifs
  · rw [some.injEq, eq_comm]
    rfl
  · exact entry_release

/-- Nothing from place `i` on takes the hash `h` or the collateral of `e`. -/
def Undisturbed (regs : List (Transaction × ProRegTx)) (i : Nat) (h : Uint256) (e : Entry) : Prop :=
  ∀ j, i ≤ j → ∀ y, regs[j]? = some y → y.1.getHash ≠ h ∧ e.collateralOutpoint ≠ collateral y

lemma undisturbed_cons {regs : List (Transaction × ProRegTx)} {i : Nat} :
    Undisturbed (x :: regs) (i + 1) h e ↔ Undisturbed regs i h e := by
  constructor
  · intro hu j hi y hy
    exact hu (j + 1) (by omega) y (by simpa using hy)
  · intro hu j hi y hy
    obtain ⟨j, rfl⟩ : ∃ j', j = j' + 1 := ⟨j - 1, by omega⟩
    exact hu j (by omega) y (by simpa using hy)

lemma undisturbed_zero_cons {regs : List (Transaction × ProRegTx)} : Undisturbed (x :: regs) 0 h e ↔
      (x.1.getHash ≠ h ∧ e.collateralOutpoint ≠ collateral x) ∧ Undisturbed regs 0 h e := by
  constructor
  · intro hu
    exact ⟨hu 0 le_rfl x rfl, fun j _ y hy => hu (j + 1) (by omega) y (by simpa using hy)⟩
  · rintro ⟨hx, hu⟩ j - y hy
    cases j with
    | zero => exact (some.inj hy) ▸ hx
    | succ j => exact hu j (by omega) y (by simpa using hy)

lemma entry_foldl_register (regs : List (Transaction × ProRegTx)) :
    (regs.foldl (fun R x => R.register x.1 x.2) R).entry h = some e ↔
      (R.entry h = some e ∧ Undisturbed regs 0 h e) ∨
      ∃ i x, regs[i]? = some x ∧ x.1.getHash = h ∧
        e = ⟨R.count + i, collateral x, x.2.nOperatorReward⟩ ∧ Undisturbed regs (i + 1) h e := by
  induction regs generalizing R with
  | nil => simp [Undisturbed]
  | cons x regs ih =>
    rw [foldl_cons, ih, entry_register, undisturbed_zero_cons]
    constructor
    · rintro (⟨hx, hu⟩ | ⟨i, y, hy, hh, he, hu⟩)
      · split_ifs at hx with hh
        · exact .inr ⟨0, x, rfl, hh, by simpa using hx, undisturbed_cons.2 hu⟩
        · exact .inl ⟨hx.1, ⟨hh, hx.2⟩, hu⟩
      · refine .inr ⟨i + 1, y, by simpa using hy, hh, ?_, undisturbed_cons.2 hu⟩
        rw [he, count_register]
        congr 1
        omega
    · rintro (⟨hR, ⟨hh, hc⟩, hu⟩ | ⟨i, y, hy, hh, he, hu⟩)
      · exact .inl ⟨by rw [if_neg hh]; exact ⟨hR, hc⟩, hu⟩
      · cases i with
        | zero =>
          obtain rfl : x = y := by simpa using hy
          exact .inl ⟨by rw [if_pos hh]; simpa using he, undisturbed_cons.1 hu⟩
        | succ i =>
          refine .inr ⟨i, y, by simpa using hy, hh, ?_, undisturbed_cons.1 hu⟩
          rw [he, count_register]
          congr 1
          omega

omit [ChainHash] in
lemma entry_foldl_release (os : List OutPoint) :
    (os.foldl release R).entry h = some e ↔ R.entry h = some e ∧ e.collateralOutpoint ∉ os := by
  induction os generalizing R with
  | nil => simp
  | cons o os ih =>
    rw [foldl_cons, ih, entry_release, mem_cons, not_or, and_assoc]

omit [ChainHash] in
lemma count_foldl_release (os : List OutPoint) (R : Roll) :
    (os.foldl release R).count = R.count := by
  induction os generalizing R with
  | nil => rfl
  | cons o os ih => rw [foldl_cons, ih, release]

section Block
variable (R : Roll) (block : Block)

lemma count_applyBlock :
    (R.applyBlock block).count = R.count + (registrations block.txs).length := by
  rw [applyBlock, count_foldl_release, foldl_applyTx, count_foldl_register]

variable {R block}

lemma entry_applyBlock {h : Uint256} {e : Entry} :
    (R.applyBlock block).entry h = some e ↔ ((R.entry h = some e ∧
      Undisturbed (registrations block.txs) 0 h e) ∨ ∃ i x, (registrations block.txs)[i]? = some x ∧
        x.1.getHash = h ∧ e = ⟨R.count + i, collateral x, x.2.nOperatorReward⟩ ∧
        Undisturbed (registrations block.txs) (i + 1) h e) ∧ e.collateralOutpoint ∉ block.spent := by
  rw [applyBlock, entry_foldl_release, foldl_applyTx, entry_foldl_register]

variable (R block)

structure Lasting : Prop where
  unregistered : ∀ x ∈ registrations block.txs, R.entry x.1.getHash = none
  distinct : ((registrations block.txs).map collateral).Nodup
  unspent : ∀ x ∈ registrations block.txs, collateral x ∉ block.spent

variable {R block}

lemma eq_of_getHash_eq {txs : List Transaction} {x y : Transaction × ProRegTx}
    (hx : x ∈ registrations txs) (hy : y ∈ registrations txs)
    (hh : x.1.getHash = y.1.getHash) : x = y := by
  have ht : x.1 = y.1 := ChainHash.txHash_injective hh
  have hr := (registration_of_mem hx).2
  rw [ht, (registration_of_mem hy).2] at hr
  exact Prod.ext ht (some.inj hr).symm

lemma isSome_entry_of_lasting (hL : R.Lasting block) {x : Transaction × ProRegTx}
    (hx : x ∈ registrations block.txs) : ((R.applyBlock block).entry x.1.getHash).isSome := by
  obtain ⟨i, hi⟩ := getElem?_of_mem hx
  refine isSome_iff_exists.2 ⟨_, entry_applyBlock.2
    ⟨.inr ⟨i, x, hi, rfl, rfl, fun j hj y hy => ?_⟩, hL.unspent x hx⟩⟩
  have hc : collateral x ≠ collateral y := by
    intro he
    have := (nodup_iff_getElem?_ne_getElem?.1 hL.distinct) i j (by omega)
      (by simpa using (List.getElem?_eq_some_iff.1 hy).1)
    simp [hi, hy, he] at this
  refine ⟨fun hh => hc ?_, hc⟩
  rw [eq_of_getHash_eq hx (mem_of_getElem? hy) hh.symm]

lemma mem_registrations_of_new {h : Uint256} (hold : R.entry h = none)
    (hn : ((R.applyBlock block).entry h).isSome) :
    ∃ (i : Nat) (x : _), (registrations block.txs)[i]? = some x ∧ x.1.getHash = h ∧
      collateral x ∉ block.spent ∧ ∀ j, i < j → ∀ y, (registrations block.txs)[j]? = some y →
        collateral x ≠ collateral y := by
  obtain ⟨e, he⟩ := isSome_iff_exists.1 hn
  obtain ⟨⟨hR, -⟩ | ⟨i, x, hx, hh, rfl, hu⟩, hs⟩ := entry_applyBlock.1 he
  · simp [hold] at hR
  · exact ⟨i, x, hx, hh, hs, fun j hi y hy => (hu j hi y hy).2⟩

lemma length_added_iff {added : List Uint256} (hn : added.Nodup)
    (ha : ∀ h, h ∈ added ↔ ((R.applyBlock block).entry h).isSome ∧ R.entry h = none) :
    added.length = (registrations block.txs).length ↔ R.Lasting block := by
  have hb : added ⊆ (registrations block.txs).map fun x => x.1.getHash := by
    intro h hh
    obtain ⟨hw, hold⟩ := (ha h).1 hh
    obtain ⟨i, x, hx, rfl, -⟩ := mem_registrations_of_new hold hw
    exact mem_map_of_mem (mem_of_getElem? hx)
  constructor
  · intro hln
    have hp : added.Perm ((registrations block.txs).map fun x => x.1.getHash) :=
      (subperm_of_subset hn hb).perm_of_length_le (by simp [hln])
    have hm : ∀ x ∈ registrations block.txs,
        ((R.applyBlock block).entry x.1.getHash).isSome ∧ R.entry x.1.getHash = none := fun x hx =>
      (ha _).1 (hp.mem_iff.2 (mem_map_of_mem hx))
    refine ⟨fun x hx => (hm x hx).2, ?_, fun x hx => ?_⟩
    · refine nodup_iff_getElem?_ne_getElem?.2 fun i j hi hj => ?_
      rw [length_map] at hj
      have hx := getElem_mem (hi.trans hj)
      -- the entry of registration `i` comes from that registration
      obtain ⟨i', x, hi', hhs, -, hl⟩ := mem_registrations_of_new (hm _ hx).2 (hm _ hx).1
      obtain rfl := eq_of_getHash_eq (mem_of_getElem? hi') hx hhs
      obtain ⟨ht, he⟩ := List.getElem?_eq_some_iff.1 hi'
      obtain rfl : i' = i := (List.Nodup.getElem_inj_iff (.of_map _ (hp.nodup hn))).1 he
      simpa [hi.trans hj, hj] using hl j hi _ (getElem?_eq_getElem hj)
    · obtain ⟨i, y, hy, hhs, hs, -⟩ := mem_registrations_of_new (hm x hx).2 (hm x hx).1
      rwa [eq_of_getHash_eq (mem_of_getElem? hy) hx hhs] at hs
  · intro hL
    have hn' : ((registrations block.txs).map fun x => x.1.getHash).Nodup := by
      refine List.Pairwise.map _ (fun _ _ h => h) ?_
      refine (pairwise_map.1 hL.distinct).imp_of_mem fun hx hy hne hhs => ?_
      exact hne (by rw [eq_of_getHash_eq hx hy hhs])
    have hp : added.Perm ((registrations block.txs).map fun x => x.1.getHash) := by
      refine (perm_ext_iff_of_nodup hn hn').2 fun h => ⟨fun hh => hb hh, fun hh => ?_⟩
      obtain ⟨x, hx, rfl⟩ := mem_map.1 hh
      exact (ha _).2 ⟨isSome_entry_of_lasting hL hx, hL.unregistered x hx⟩
    simpa using hp.length_eq

end Block
end Roll

namespace Registry

def roll (r : Registry) : Roll where
  count := r.nTotalRegisteredCount
  entry h := (r.mnMap[h]?).map entry

variable {r : Registry} {dmn : DeterministicMN} {h : Uint256}

lemma roll_entry {e : Entry} :
    r.roll.entry h = some e ↔ ∃ dmn : DeterministicMN, r.mnMap[h]? = some dmn ∧ dmn.entry = e :=
  map_eq_some_iff

lemma roll_insert_withState (hd : r.mnMap[h]? = some dmn) (hy : dmn.proTxHash = h)
    (s : DeterministicMNState) : (r.insert (dmn.withState s)).roll = r.roll := by
  refine Roll.ext rfl (funext fun k => ?_)
  simp only [roll, getElem?_insert, withState_proTxHash, hy]
  split_ifs with hk
  · simp [hk, hd]
  · rfl

lemma roll_mapStates (f : DeterministicMN → DeterministicMNState) :
    (r.mapStates f).roll = r.roll := by
  refine Roll.ext rfl (funext fun k => ?_)
  simp only [roll, getElem?_mapStates]
  cases r.mnMap[k]? <;> rfl

lemma roll_setLastPaid (keyed : ∀ (h : Uint256) (dmn : DeterministicMN),
    r.mnMap[h]? = some dmn → dmn.proTxHash = h) (nHeight : Int) (payee : Option DeterministicMN) :
    (r.setLastPaid nHeight payee).roll = r.roll := by
  unfold setLastPaid
  split
  · rename_i d hd
    obtain ⟨p, -, hp⟩ := bind_eq_some_iff.1 hd
    exact roll_insert_withState hp (keyed _ d hp) _
  · rfl

variable [ChainHash]

lemma roll_release (hS : r.Sound) (o : OutPoint) : (r.release o).roll = r.roll.release o := by
  refine Roll.ext (release_nTotalRegisteredCount ..) (funext fun k => ext fun e => ?_)
  rw [Roll.entry_release, roll_entry, roll_entry]
  simp only [hS.getElem?_release]
  constructor
  · rintro ⟨d, ⟨hd, hn⟩, rfl⟩
    refine ⟨⟨d, hd, rfl⟩, fun he => hn ⟨?_, ?_⟩⟩
    · simp [properties, ← he, entry]
    · simpa [UniqueProperty.isNull, ← he, entry] using (hS.proper k d hd).1
  · rintro ⟨⟨d, hd, rfl⟩, hne⟩
    refine ⟨d, ⟨hd, fun hv => hne ?_⟩, rfl⟩
    simpa [properties, DeterministicMNState.properties, entry, eq_comm] using hv.1

lemma roll_releaseAll : ∀ (os : List OutPoint) {r : Registry}, r.Sound →
    (os.foldl release r).roll = os.foldl Roll.release r.roll ∧ (os.foldl release r).Sound
  | [], _, hS => ⟨rfl, hS⟩
  | o :: os, r, hS => by
    rw [foldl_cons, foldl_cons, ← roll_release hS]
    exact roll_releaseAll os (hS.release o)

variable {nHeight : Int} {r' : Registry}

lemma roll_register (hS : r.Sound) {getUTXOCoin : OutPoint → Option TxOut} {tx : Transaction}
    {proTx : ProRegTx} (ho : r.register getUTXOCoin nHeight tx proTx = .ok r') :
    r'.roll = r.roll.register tx proTx := by
  obtain ⟨_, -, h1⟩ := bind_ok.1 ho
  obtain ⟨_, -, h2⟩ := bind_ok.1 h1
  obtain ⟨_, -, h3⟩ := bind_ok.1 h2
  obtain ⟨_, -, h4⟩ := bind_ok.1 h3
  obtain rfl := ok.inj h4
  have hp := roll_release hS.count_succ (proTx.collateralOf tx)
  refine Roll.ext (release_nTotalRegisteredCount ..) (funext fun k => ?_)
  have hk := congrFun (congrArg Roll.entry hp) k
  simp only [roll, getElem?_insert, Roll.register, update_apply, registeredMN] at hk ⊢
  split_ifs with he
  · rfl
  · exact hk

lemma roll_updateService (hS : r.Sound) {proTx : ProUpServTx}
    (ho : r.updateService nHeight proTx = .ok r') : r'.roll = r.roll := by
  obtain ⟨_, -, h1⟩ := bind_ok.1 ho
  obtain ⟨dmn, hd, h2⟩ := bind_ok.1 h1
  obtain rfl := ok.inj h2
  rw [orDeny_ok] at hd
  exact roll_insert_withState hd (hS.keyed _ dmn hd) _

lemma roll_updateRegistrar (hS : r.Sound) {proTx : ProUpRegTx}
    (ho : r.updateRegistrar nHeight proTx = .ok r') : r'.roll = r.roll := by
  obtain ⟨dmn, hd, h1⟩ := bind_ok.1 ho
  obtain ⟨_, -, h2⟩ := bind_ok.1 h1
  obtain rfl := ok.inj h2
  rw [orDeny_ok] at hd
  exact roll_insert_withState hd (hS.keyed _ dmn hd) _

lemma roll_updateRevoke (hS : r.Sound) {proTx : ProUpRevTx}
    (ho : r.updateRevoke nHeight proTx = .ok r') : r'.roll = r.roll := by
  obtain ⟨dmn, hd, h1⟩ := bind_ok.1 ho
  obtain rfl := ok.inj h1
  rw [orDeny_ok] at hd
  exact roll_insert_withState hd (hS.keyed _ dmn hd) _

lemma roll_punishMember (hS : r.Sound) {qc : FinalCommitment} {member : DeterministicMN × Nat}
    (ho : punishMember qc r member = .ok r') : r'.Sound ∧ r'.roll = r.roll := by
  unfold Registry.punishMember at ho
  cases hd : r.mnMap[member.1.proTxHash]? with
  | none =>
    simp only [hd] at ho
    cases ho
    exact ⟨hS, rfl⟩
  | some dmn =>
    simp only [hd] at ho
    obtain ⟨bit, -, ho⟩ := bind_ok.1 ho
    cases bit with
    | true =>
      cases ho
      exact ⟨hS, rfl⟩
    | false =>
      cases ho
      exact ⟨hS.update_of_properties_eq hd (Tracks.properties_punishedState ..),
        roll_insert_withState hd (hS.keyed _ dmn hd) _⟩

lemma roll_punishAll {qc : FinalCommitment} (members : List (DeterministicMN × Nat))
    {r : Registry} (hS : r.Sound) (ho : members.foldlM (punishMember qc) r = .ok r') :
    r'.roll = r.roll := by
  have hn := foldlM_invariant (fun r' : Registry => r'.Sound ∧ r'.roll = r.roll)
    (fun _ _ _ ⟨hS', hr⟩ ht => by
      obtain ⟨hS'', hs⟩ := roll_punishMember hS' ht
      exact ⟨hS'', hs.trans hr⟩) members r r' ⟨hS, rfl⟩ ho
  exact hn.2

section Block
variable (env : Env) (view : ChainView) (prev : BlockIndex)

lemma roll_punishMembers (hS : r.Sound) {qc : FinalCommitmentTxPayload} {r' : Registry}
    (ho : r.punishMembers env view prev qc = .ok r') : r'.roll = r.roll := by
  unfold punishMembers at ho
  split_ifs at ho
  · rw [ok.inj ho]
  · obtain ⟨_, -, h1⟩ := bind_ok.1 ho
    obtain ⟨members, -, h2⟩ := bind_ok.1 h1
    exact roll_punishAll _ hS h2

lemma roll_applyTx (hS : r.Sound) {tx : Transaction} {r' : Registry}
    (ho : applyTx env view prev r tx = .ok r') : r'.roll = r.roll.applyTx tx := by
  unfold applyTx at ho
  unfold Roll.applyTx Transaction.registration
  dsimp only at ho
  split_ifs at ho with hv
  · rw [if_neg hv, ok.inj ho]
  rw [if_pos (not_not.1 hv)]
  cases hp : tx.payload with
  | normal => simp only [hp] at ho; rw [ok.inj ho]
  | coinbase _ => simp only [hp] at ho; rw [ok.inj ho]
  | unknown _ => simp only [hp] at ho; rw [ok.inj ho]
  | providerRegister payload =>
    simp only [hp] at ho
    obtain ⟨proTx, hd, ho⟩ := bind_ok.1 ho
    obtain rfl := demand_ok.1 hd
    exact roll_register hS ho
  | providerUpdateService payload =>
    simp only [hp] at ho
    obtain ⟨proTx, -, ho⟩ := bind_ok.1 ho
    exact roll_updateService hS ho
  | providerUpdateRegistrar payload =>
    simp only [hp] at ho
    obtain ⟨proTx, -, ho⟩ := bind_ok.1 ho
    exact roll_updateRegistrar hS ho
  | providerUpdateRevoke payload =>
    simp only [hp] at ho
    obtain ⟨proTx, -, ho⟩ := bind_ok.1 ho
    exact roll_updateRevoke hS ho
  | quorumCommitment payload =>
    simp only [hp] at ho
    obtain ⟨qc, -, ho⟩ := bind_ok.1 ho
    exact roll_punishMembers env view prev hS ho

variable [PropertyHash]

lemma roll_foldlM_applyTx : ∀ (txs : List Transaction) {l : DeterministicMNList}
    {r r' : Registry}, l.Tracks r → txs.foldlM (applyTx env view prev) r = .ok r' →
    (∃ l', DeterministicMNList.Tracks l' r') ∧ r'.roll = txs.foldl Roll.applyTx r.roll
  | [], l, r, r', hT, ho => by
    cases ho
    exact ⟨⟨l, hT⟩, rfl⟩
  | tx :: txs, l, r, r', hT, ho => by
    obtain ⟨r1, ho1, ho⟩ := bind_ok.1 ((foldlM_cons ..).symm.trans ho)
    obtain ⟨l1, -, hT1⟩ := (processTx_sim env view prev hT tx).of_ok_right ho1
    rw [foldl_cons, ← roll_applyTx env view prev hT.sound ho1]
    exact roll_foldlM_applyTx txs hT1 ho

variable {l : DeterministicMNList}

lemma exists_tracks_atNextBlock (hT : l.Tracks r) :
    ∃ l', DeterministicMNList.Tracks l' (r.atNextBlock env prev) := by
  obtain ⟨l1, -, hT1⟩ := (hT.atBlock 0 (prev.nHeight + 1)).confirmMNs env prev
    hT.refines.mnMap
  obtain ⟨l2, -, hT2⟩ := hT1.decreasePoSePenalties
  exact ⟨l2, hT2⟩

lemma roll_applyTxs (hT : l.Tracks r) {txs : List Transaction} {r' : Registry}
    (ho : r.applyTxs env view prev txs = .ok r') :
    r'.Sound ∧ r'.roll = txs.foldl Roll.applyTx r.roll := by
  obtain ⟨l1, hT1⟩ := exists_tracks_atNextBlock env prev hT
  obtain ⟨⟨l2, hT2⟩, hr⟩ := roll_foldlM_applyTx env view prev txs hT1 ho
  refine ⟨hT2.sound, hr.trans ?_⟩
  rw [atNextBlock, roll_mapStates, roll_mapStates]
  rfl

lemma roll_applyBlock (hT : l.Tracks r) {block : Block} {r' : Registry}
    (ho : r.applyBlock env view prev block = .ok r') :
    r'.roll = r.roll.applyBlock block := by
  obtain ⟨r1, ho1, ho2⟩ := bind_ok.1 ho
  obtain ⟨hS1, hr1⟩ := roll_applyTxs env view prev hT ho1
  obtain ⟨hr2, hS2⟩ := roll_releaseAll block.spent hS1
  rw [← ok.inj ho2, roll_setLastPaid hS2.keyed, hr2, hr1]
  rfl

end Block
end Registry
end Trivechain.Evo
