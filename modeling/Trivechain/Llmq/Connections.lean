import Trivechain.Evo.ListRuns

/-!
# Connections within a quorum

`GetQuorumConnections` picks the members a member keeps connections to. The members form a ring,
and the picked ones are `1, 2, 4, …` places further on it.
-/

namespace Trivechain.Llmq
open Evo Nat Relation List Option
open Std (ExtTreeSet)

/-- The loop of `GetQuorumConnections` for `dmn`, the member with index `i`. Every evaluation of the
condition halves `gapMax`; a round that meets `dmn` does nothing else. -/
def connectionLoop (mns : List DeterministicMN) (dmn : DeterministicMN) (i : Nat) :
    (fuel gap gapMax k : Nat) → ExtTreeSet Uint256 → Option (ExtTreeSet Uint256)
  | 0, _, _, _, _ => none
  | fuel + 1, gap, gapMax, k, result =>
    if gapMax / 2 ≠ 0 ∨ k ≤ 1 then
      mns[(i + gap) % mns.length]?.bind fun otherDmn =>
        if otherDmn = dmn then connectionLoop mns dmn i fuel gap (gapMax / 2) k result
        else connectionLoop mns dmn i fuel (gap * 2) (gapMax / 2) (k + 1)
          (result.insert otherDmn.proTxHash)
    else some result

/-- `CLLMQUtils::GetQuorumConnections` for the members `mns` of the quorum. -/
def getQuorumConnections (fuel : Nat) (mns : List DeterministicMN) (forMember : Uint256) :
    Option (ExtTreeSet Uint256) :=
  match mns.zipIdx.find? (·.1.proTxHash = forMember) with
  | none => some ∅
  | some (dmn, i) => connectionLoop mns dmn i fuel 1 (mns.length - 1) 0 ∅

/-- The member with the hash `a` connects to the one with the hash `b`. -/
def Connects (fuel : Nat) (mns : List DeterministicMN) (a b : Uint256) : Prop :=
  ∃ result, getQuorumConnections fuel mns a = some result ∧ b ∈ result

/-- The hash of the member `a` places after the index `i` on the ring. -/
def ringHash (mns : List DeterministicMN) (i a : Nat) : Option Uint256 :=
  mns[(i + a) % mns.length]?.map (·.proTxHash)

/-- What the loop has picked after `k` rounds. -/
structure Picked (mns : List DeterministicMN) (i k : Nat) (result : ExtTreeSet Uint256) : Prop where
  mem : ∀ h, h ∈ result ↔ ∃ j < k, ringHash mns i (2 ^ j) = some h
  size : result.size = k

lemma goes_on_iff {n k : Nat} : (n / 2 ^ k / 2 ≠ 0 ∨ k ≤ 1) ↔ k < max 2 (log 2 n) := by
  have hl : n / 2 ^ k / 2 ≠ 0 ↔ k + 1 ≤ log 2 n := by
    rw [Nat.div_div_eq_div_mul, ← Nat.pow_succ, Ne, Nat.div_eq_zero_iff]
    rcases n.eq_zero_or_pos with rfl | hn
    · simp
    · rw [le_log_iff_pow_le (by decide) hn.ne']
      have := Nat.two_pow_pos (k + 1)
      omega
  omega

section
variable {mns : List DeterministicMN} {i k fuel : Nat} (hn : 3 ≤ mns.length)
  (hd : (mns.map (·.proTxHash)).Nodup) (hi : i < mns.length)

lemma ringHash_zero : ringHash mns i 0 = some mns[i].proTxHash := by
  rw [ringHash, add_zero, mod_eq_of_lt hi, getElem?_eq_getElem hi, map_some]
include hn

lemma exists_ringHash (a : Nat) :
    ∃ dmn, mns[(i + a) % mns.length]? = some dmn ∧ ringHash mns i a = some dmn.proTxHash := by
  have hp : (i + a) % mns.length < mns.length := mod_lt _ (by omega)
  exact ⟨_, getElem?_eq_getElem hp, by rw [ringHash, getElem?_eq_getElem hp, map_some]⟩

lemma two_pow_lt (hk : k < max 2 (log 2 (mns.length - 1))) : 2 ^ k < mns.length := by
  have hl : 2 ^ k ≤ mns.length - 1 := by
    rcases Nat.lt_or_ge k 2 with h2 | h2
    · interval_cases k <;> omega
    · exact Nat.pow_le_of_le_log (by omega) (by omega)
  omega
include hd

lemma ringHash_inj {a b : Nat} (ha : a < mns.length) (hb : b < mns.length)
    (he : ringHash mns i a = ringHash mns i b) : a = b := by
  have hm : ∀ c, (i + c) % mns.length < (mns.map (·.proTxHash)).length := fun c => by
    rw [length_map]
    exact mod_lt _ (by omega)
  rw [ringHash, ringHash, ← getElem?_map, ← getElem?_map, getElem?_eq_getElem (hm a),
    getElem?_eq_getElem (hm b), some_inj, hd.getElem_inj_iff] at he
  exact (ModEq.add_left_cancel' i he).eq_of_lt_of_lt ha hb

lemma Picked.insert {result : ExtTreeSet Uint256} {dmn : DeterministicMN}
    (hk : k < max 2 (log 2 (mns.length - 1))) (hr : Picked mns i k result)
    (he : ringHash mns i (2 ^ k) = some dmn.proTxHash) :
    Picked mns i (k + 1) (result.insert dmn.proTxHash) where
  mem h := by
    rw [Maps.mem_insert, hr.mem]
    constructor
    · rintro (rfl | ⟨j, hj, hh⟩)
      · exact ⟨k, k.lt_succ_self, he⟩
      · exact ⟨j, hj.trans k.lt_succ_self, hh⟩
    · rintro ⟨j, hj, hh⟩
      rcases Nat.lt_succ_iff_lt_or_eq.1 hj with hj | rfl
      · exact .inr ⟨j, hj, hh⟩
      · exact .inl (some_inj.1 (hh.symm.trans he))
  size := by
    have hm : dmn.proTxHash ∉ result := fun hm => by
      obtain ⟨j, hj, hh⟩ := (hr.mem _).1 hm
      have := ringHash_inj hn hd (two_pow_lt hn (hj.trans hk)) (two_pow_lt hn hk) (hh.trans he.symm)
      exact hj.ne (Nat.pow_right_injective le_rfl this)
    rw [ExtTreeSet.size_insert, if_neg (by simpa using hm), hr.size]
include hi

lemma own_not_picked (hk : k < max 2 (log 2 (mns.length - 1))) :
    ringHash mns i (2 ^ k) ≠ some mns[i].proTxHash := fun he =>
  (Nat.two_pow_pos k).ne' (ringHash_inj hn hd (two_pow_lt hn hk) (by omega)
    (he.trans (ringHash_zero hi).symm))

lemma connectionLoop_picked (r : Nat) :
    ∀ fuel k result, k + r = max 2 (log 2 (mns.length - 1)) → r < fuel → Picked mns i k result →
      ∃ result', connectionLoop mns mns[i] i fuel (2 ^ k) ((mns.length - 1) / 2 ^ k) k result =
        some result' ∧ Picked mns i (k + r) result' := by
  induction r with
  | zero =>
    intro fuel k result hk hf hr
    obtain ⟨fuel, rfl⟩ := exists_eq_add_one_of_ne_zero hf.ne'
    exact ⟨result, by rw [connectionLoop, if_neg (goes_on_iff.not.2 (by omega))], hr⟩
  | succ r ih =>
    intro fuel k result hk hf hr
    obtain ⟨fuel, rfl⟩ := exists_eq_add_one_of_ne_zero (ne_zero_of_lt hf)
    have hl : k < max 2 (log 2 (mns.length - 1)) := by omega
    obtain ⟨dmn, hg, he⟩ := exists_ringHash (i := i) hn (2 ^ k)
    have hne : dmn ≠ mns[i] := fun h => own_not_picked hn hd hi hl (h ▸ he)
    obtain ⟨result', ho, hp⟩ := ih fuel (k + 1) _ (by omega) (by omega) (hr.insert hn hd hl he)
    refine ⟨result', ?_, by rwa [Nat.add_right_comm] at hp⟩
    rw [connectionLoop, if_pos (goes_on_iff.2 hl), hg, Nat.div_div_eq_div_mul, ← Nat.pow_succ]
    simpa only [bind_some, if_neg hne] using ho

lemma getQuorumConnections_picked (hf : max 2 (log 2 (mns.length - 1)) < fuel) :
    ∃ result, getQuorumConnections fuel mns mns[i].proTxHash = some result ∧
      Picked mns i (max 2 (log 2 (mns.length - 1))) result := by
  have hfi : mns.zipIdx.find? (·.1.proTxHash = mns[i].proTxHash) = some (mns[i], i) := by
    refine find?_eq_some_iff_getElem.2 ⟨by simp, i, by simpa using hi, by simp, fun j hj => ?_⟩
    simpa using pairwise_iff_getElem.1 (pairwise_map.1 hd) j i (hj.trans hi) hi hj
  obtain ⟨result, ho, hp⟩ := connectionLoop_picked hn hd hi _ fuel 0 ∅ (zero_add _) hf
    ⟨by simp, ExtTreeSet.size_empty⟩
  rw [zero_add] at hp
  rw [getQuorumConnections, hfi]
  exact ⟨result, by simpa using ho, hp⟩

omit hn hd hi

lemma ring_reaches {R : Uint256 → Uint256 → Prop} (hR : ∀ i (hi : i < mns.length) (b : Uint256),
      ringHash mns i 1 = some b → R mns[i].proTxHash b) (s : Nat) :
    ∀ i (hi : i < mns.length) (b : Uint256), ringHash mns i s = some b →
      ReflTransGen R mns[i].proTxHash b := by
  induction s with
  | zero =>
    intro i hi b hb
    rw [some_inj.1 ((ringHash_zero hi).symm.trans hb)]
  | succ s ih =>
    intro i hi b hb
    have hm : (i + 1) % mns.length < mns.length := mod_lt _ (by omega)
    have hs : ringHash mns ((i + 1) % mns.length) s = some b := by
      rw [← hb, ringHash, ringHash, mod_add_mod, Nat.add_right_comm, Nat.add_assoc]
    refine (ih _ hm b hs).head (hR i hi _ ?_)
    rw [ringHash, getElem?_eq_getElem hm, map_some]

end

/-- Of `n` members, each connects to those `2 ^ k` places further on the ring, for `k` up to `max 1
(log2 (n - 1) - 1)`, and along the connections every member reaches all others. -/
theorem getQuorumConnections_ring (mns : List DeterministicMN) (hn : 3 ≤ mns.length)
    (hd : (mns.map (·.proTxHash)).Nodup) (fuel : Nat)
    (hf : max 2 (Nat.log 2 (mns.length - 1)) < fuel) :
    (∀ i (hi : i < mns.length), ∃ result,
      getQuorumConnections fuel mns mns[i].proTxHash = some result ∧
      (∀ h, h ∈ result ↔ ∃ k ≤ max 1 (Nat.log 2 (mns.length - 1) - 1),
        mns[(i + 2 ^ k) % mns.length]?.map (·.proTxHash) = some h) ∧
      result.size = max 2 (Nat.log 2 (mns.length - 1)) ∧ mns[i].proTxHash ∉ result) ∧
    ∀ a ∈ mns, ∀ b ∈ mns, ReflTransGen (Connects fuel mns) a.proTxHash b.proTxHash := by
  constructor
  · intro i hi
    obtain ⟨result, ho, hp⟩ := getQuorumConnections_picked hn hd hi hf
    refine ⟨result, ho, fun h => ?_, hp.size, fun hm => ?_⟩
    · have hk : ∀ k, k < max 2 (log 2 (mns.length - 1)) ↔
          k ≤ max 1 (log 2 (mns.length - 1) - 1) := by omega
      simp only [hp.mem, hk, ringHash]
    · obtain ⟨k, hk, hh⟩ := (hp.mem _).1 hm
      exact own_not_picked hn hd hi hk hh
  · intro a ha b hb
    obtain ⟨p, hp, rfl⟩ := getElem_of_mem ha
    obtain ⟨q, hq, rfl⟩ := getElem_of_mem hb
    refine ring_reaches (fun i hi c hc => ?_) (mns.length - p + q) p hp _ ?_
    · obtain ⟨result, ho, hr⟩ := getQuorumConnections_picked hn hd hi hf
      exact ⟨result, ho, (hr.mem c).2 ⟨0, by omega, hc⟩⟩
    · rw [ringHash, show p + (mns.length - p + q) = q + mns.length by omega, add_mod_right,
        mod_eq_of_lt hq, getElem?_eq_getElem hq, map_some]

theorem getQuorumConnections_three : ReflTransGen (Connects 3 ([1, 2, 3].map (sampleMN · 0))) 3 1 :=
  (getQuorumConnections_ring ([1, 2, 3].map (sampleMN · 0)) (by decide) (by decide) 3
    (by norm_num)).2 (sampleMN 3 0) (by decide) (sampleMN 1 0) (by decide)

end Trivechain.Llmq
