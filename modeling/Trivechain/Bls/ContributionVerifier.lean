import Trivechain.Bls.Basic

/-!
# Verification of secret key contributions

`CBLSWorker::AsyncVerifyContributionShares` checks the secret key shares that a quorum member
received against the verification vectors of their senders: one by one or, with aggregation, in
batches of eight, where only a batch whose sum does not verify is taken apart.

Keys are read in the linear model: secret keys are elements of a field, public keys of a module over
it, and the public key of a secret key is a linear map. Each piece of work runs at once, as in the
code if `parallel` is not set.
-/

namespace Trivechain.Bls
open Run (demand)
open Std (ExtTreeSet)
open Run Function List
variable {F G : Type} [Field F] [AddCommGroup G] [Module F G]

/-- The value at `x` of the polynomial with the coefficients, by the rule of Horner. -/
def evaluate (x : F) (coefficients : List G) : G :=
  coefficients.foldr (fun c acc => c + x • acc) 0

def publicKeyShare (mpk : List (Option G)) (id : Option F) : Option G := do
  let id ← id
  let keys ← mpk.mapM fun key => key
  return evaluate id keys

def getPublicKey (pk : F →ₗ[F] G) (sk : Option F) : Option G := sk.map pk

lemma evaluate_eq_sum (x : F) (coeffs : List G) : evaluate x coeffs =
      ∑ j ∈ Finset.range coeffs.length, x ^ j • coeffs.getD j 0 := by
  induction coeffs with
  | nil => rfl
  | cons c cs ih =>
    have ht : x • evaluate x cs = ∑ j ∈ Finset.range cs.length, x ^ (j + 1) • cs.getD j 0 := by
      rw [ih, Finset.smul_sum]
      exact Finset.sum_congr rfl fun j _ => by rw [smul_smul, pow_succ']
    calc evaluate x (c :: cs) = c + x • evaluate x cs := rfl
      _ = _ := by
        rw [ht, length_cons, Finset.sum_range_succ']
        simp [add_comm]

lemma evaluate_columns (x : F) (n : Nat) (vecs : List (List G)) (h : ∀ v ∈ vecs, v.length = n) :
    evaluate x ((range n).map fun i => (vecs.map fun v => v.getD i 0).sum) =
      (vecs.map (evaluate x)).sum := by
  rw [evaluate_eq_sum]
  simp only [length_map, length_range]
  induction vecs with
  | nil =>
    simp only [map_nil, sum_nil]
    refine Finset.sum_eq_zero fun j hj => ?_
    simp [getD]
  | cons v vecs ih =>
    have hv : v.length = n := h v (by simp)
    rw [map_cons, sum_cons, ← ih (fun w hw => h w (by simp [hw])), evaluate_eq_sum, hv,
      ← Finset.sum_add_distrib]
    refine Finset.sum_congr rfl fun j hj => ?_
    simp [getD, getElem?_range (Finset.mem_range.1 hj), smul_add]

lemma publicKeyShare_some (x : F) (keys : List G) :
    publicKeyShare (keys.map some) (some x) = some (evaluate x keys) := by
  have hk : (keys.map some).mapM (fun key => key) = some keys := by
    induction keys with
    | nil => rfl
    | cons k keys ih => simp [ih]
  simp [publicKeyShare, hk]

section Aggregator
variable {α : Type} [AddCommGroup α]

def aggregateInsecure : Option α → Option α → Run (Option α)
  | some a, some b => .ok (some (a + b))
  | _, _ => .error (.fault .assertion)

def syncAggregate : List (Option α) → Run (Option α)
  | [] => .error (.fault .undefined)
  | key :: keys => keys.foldlM aggregateInsecure key

/-- An `Aggregator` that has at most one batch of work. -/
def aggregate : List (Option α) → Run (Option α)
  | [key] => .ok key
  | keys => syncAggregate keys

/-- A `VectorAggregator` for a batch, with the size of the first vector. It never calls back if the
vectors are empty. -/
def aggregateVectors (vecSize : Nat) (vecs : List (Option (List (Option α)))) :
    Run (Option (List (Option α))) := do
  let result ← (List.range vecSize).mapM fun i => do
    let keys ← vecs.mapM fun vec => do
      let vec ← demand .undefined vec
      demand .undefined vec[i]?
    aggregate keys
  return if vecSize = 0 then none else some result

lemma foldlM_aggregateInsecure (a : α) (keys : List α) :
    (keys.map some).foldlM aggregateInsecure (some a) = .ok (some (a + keys.sum)) := by
  induction keys generalizing a with
  | nil => simp
  | cons k keys ih =>
    simp only [map_cons, foldlM_cons, aggregateInsecure, ok_bind, sum_cons]
    rw [ih, add_assoc]

lemma aggregate_some {keys : List α} (h : keys ≠ []) :
    aggregate (keys.map some) = .ok (some keys.sum) := by
  cases keys with
  | nil => exact absurd rfl h
  | cons k keys =>
    have hs : syncAggregate ((k :: keys).map some) = .ok (some (k :: keys).sum) := by
      rw [map_cons, syncAggregate, foldlM_aggregateInsecure, sum_cons]
    cases keys with
    | nil => simp [aggregate]
    | cons k' keys => exact hs

lemma foldlM_aggregateInsecure_none {keys : List (Option α)} {key : Option α}
    (h : none ∈ keys ∨ key = none ∧ keys ≠ []) :
    keys.foldlM aggregateInsecure key = .error (.fault .assertion) := by
  induction keys generalizing key with
  | nil => simp at h
  | cons k keys ih =>
    rw [foldlM_cons]
    cases key with
    | none => rfl
    | some a =>
      cases k with
      | none => rfl
      | some b =>
        rw [aggregateInsecure, ok_bind]
        exact ih (.inl (by simpa using h))

lemma aggregate_none {keys : List (Option α)} (h : none ∈ keys) (hl : 1 < keys.length) :
    aggregate keys = .error (.fault .assertion) := by
  obtain ⟨k, k', keys, rfl⟩ : ∃ k k' l, keys = k :: k' :: l := by
    cases keys with
    | nil => simp at h
    | cons k l =>
      cases l with
      | nil => simp at hl
      | cons k' l => exact ⟨k, k', l, rfl⟩
  refine foldlM_aggregateInsecure_none ?_
  rcases mem_cons.1 h with h | h
  · exact .inr ⟨h.symm, by simp⟩
  · exact .inl h

end Aggregator

/-- A verification vector is `none` if its pointer is null. -/
abbrev VerificationVector (G : Type) := Option (List (Option G))

def seeKeys (getHash : G → Uint256) :
    ExtTreeSet Uint256 → List (Option G) → Option (ExtTreeSet Uint256)
  | seen, [] => some seen
  | _, none :: _ => none
  | seen, some key :: keys =>
    if getHash key ∈ seen then none else seeKeys getHash (seen.insert (getHash key)) keys

/-- The loop of `VerifyVerificationVectors`, with the hashes seen so far. -/
def verifyVectors (getHash : G → Uint256) (size : Nat) :
    ExtTreeSet Uint256 → List (VerificationVector G) → Bool
  | _, [] => true
  | _, none :: _ => false
  | seen, some vvec :: vvecs =>
    if vvec.length ≠ size then false
    else match seeKeys getHash seen vvec with
      | none => false
      | some seen => verifyVectors getHash size seen vvecs

def verifyVerificationVectors (getHash : G → Uint256) (vvecs : List (VerificationVector G)) :
    Bool :=
  verifyVectors getHash ((vvecs.head?.join.getD []).length) ∅ vvecs

abbrev Received (F G : Type) := VerificationVector G × Option F

namespace ContributionVerifier
variable [DecidableEq G] (pk : F →ₗ[F] G) (forId : Option F)

def verify (vvec : VerificationVector G) (skShare : Option F) : Run Bool := do
  let vvec ← demand .undefined vvec
  match publicKeyShare vvec forId with
  | none => return false
  | some pk1 => return some pk1 = getPublicKey pk skShare

def verifyBatchOneByOne (batch : List (Received F G)) : Run (List Bool) :=
  batch.mapM fun c => verify pk forId c.1 c.2

def aggregatedVerifyBatch (batch : List (Received F G)) (vvec : List (Option G))
    (skShare : Option F) : Run (List Bool) := do
  if ← verify pk forId (some vvec) skShare then return .replicate batch.length true
  else verifyBatchOneByOne pk forId batch

def handleAggDone (batch : List (Received F G)) (vvec : List (Option G)) (skShare : Option F) :
    Run (List Bool) :=
  if vvec = [] ∨ skShare = none then .ok (.replicate batch.length false)
  else aggregatedVerifyBatch pk forId batch vvec skShare

/-- The `verifyResults` of a batch, if its aggregation comes to an end. -/
def asyncAggregate (vecSize : Nat) (batch : List (Received F G)) : Run (Option (List Bool)) := do
  let vvec ← aggregateVectors vecSize (batch.map Prod.fst)
  let skShare ← aggregate (batch.map Prod.snd)
  match vvec with
  | none => return none
  | some vvec => return some (← handleAggDone pk forId batch vvec skShare)

/-- Batches of `batchSize`, the last one with what is left. -/
def batches {α : Type} (batchSize : Nat) (cs : List α) : List (List α) :=
  (List.range ((cs.length + batchSize - 1) / batchSize)).map fun k =>
    (cs.drop (k * batchSize)).take batchSize

/-- `Start`, and what `doneCallback` is called with by the batch that is done last. -/
def start (vvecs : List (VerificationVector G)) (skShares : List (Option F)) (batchSize : Nat)
    (aggregated : Bool) : Run (Option (List Bool)) := do
  -- shares are read for all vectors
  if skShares.length < vvecs.length then .error (.fault .undefined)
  let results ←
    if aggregated then
      (batches batchSize (vvecs.zip skShares)).mapM
        (asyncAggregate pk forId (vvecs.head?.join.getD []).length)
    else (verifyBatchOneByOne pk forId (vvecs.zip skShares)).map fun r => [some r]
  return if vvecs = [] ∨ none ∈ results then none else some results.reduceOption.flatten

end ContributionVerifier

section Worker
variable [DecidableEq G] (pk : F →ₗ[F] G) (getHash : G → Uint256)

def asyncVerifyContributionShares (forId : Option F) (vvecs : List (VerificationVector G))
    (skShares : List (Option F)) (aggregated : Bool) : Run (Option (List Bool)) :=
  if forId = none ∨ !verifyVerificationVectors getHash vvecs then
    .ok (some (.replicate vvecs.length false))
  else ContributionVerifier.start pk forId vvecs skShares 8 aggregated

def verifyContributionShare (forId : Option F) (vvec : VerificationVector G)
    (skContribution : Option F) : Run Bool :=
  ContributionVerifier.verify pk forId vvec skContribution

end Worker

omit [AddCommGroup G] in
lemma seeKeys_valid {getHash : G → Uint256} {seen seen' : ExtTreeSet Uint256}
    {vvec : List (Option G)} (h : seeKeys getHash seen vvec = some seen') :
    ∃ keys : List G, vvec = keys.map some := by
  fun_induction seeKeys getHash seen vvec with
  | case1 => exact ⟨[], rfl⟩
  | case2 => cases h
  | case3 => cases h
  | case4 seen key vvec _ ih =>
    obtain ⟨keys, rfl⟩ := ih h
    exact ⟨key :: keys, rfl⟩

omit [AddCommGroup G] in
lemma verifyVectors_valid {getHash : G → Uint256} {size : Nat} {seen : ExtTreeSet Uint256}
    {vvecs : List (VerificationVector G)} (h : verifyVectors getHash size seen vvecs) :
    ∃ vecs : List (List G), vvecs = vecs.map (fun keys => some (keys.map some)) ∧
      ∀ keys ∈ vecs, keys.length = size := by
  fun_induction verifyVectors getHash size seen vvecs with
  | case1 => exact ⟨[], rfl, by simp⟩
  | case2 => cases h
  | case3 => cases h
  | case4 => cases h
  | case5 seen vvec vvecs hs seen' he ih =>
    obtain ⟨vecs, rfl, hv⟩ := ih h
    obtain ⟨keys, rfl⟩ := seeKeys_valid he
    refine ⟨keys :: vecs, rfl, fun w hw => ?_⟩
    rcases mem_cons.1 hw with rfl | hw
    · simpa using hs
    · exact hv w hw

abbrev Contribution (F G : Type) := List G × Option F

namespace Contribution
variable [DecidableEq G] (pk : F →ₗ[F] G) (x : F)

def verifies (c : Contribution F G) : Bool := some (evaluate x c.1) = getPublicKey pk c.2

/-- By how much a share misses the value of its verification vector. -/
def error (c : Contribution F G) : G := pk (c.2.getD 0) - evaluate x c.1

def received (c : Contribution F G) : Received F G := (some (c.1.map some), c.2)

def batchOutcome (batch : List (Contribution F G)) : Run (List Bool) :=
  if 1 < batch.length ∧ ∃ c ∈ batch, c.2 = none then .error (.fault .assertion)
  else if (∀ c ∈ batch, c.2 ≠ none) ∧ (batch.map (error pk x)).sum = 0 then
    .ok (.replicate batch.length true)
  else .ok (batch.map (verifies pk x))

lemma verifies_iff {c : Contribution F G} (h : c.2 ≠ none) :
    verifies pk x c = true ↔ error pk x c = 0 := by
  obtain ⟨s, hs⟩ := Option.ne_none_iff_exists'.1 h
  have he : error pk x c = pk s - evaluate x c.1 := by simp [error, hs]
  rw [he, sub_eq_zero]
  simp [verifies, hs, getPublicKey, eq_comm]

lemma verify_received (c : Contribution F G) :
    ContributionVerifier.verify pk (some x) c.received.1 c.received.2 = .ok (verifies pk x c) := by
  simp only [ContributionVerifier.verify, received, demand_some, ok_bind, publicKeyShare_some]
  rfl

lemma verifyBatchOneByOne_received (batch : List (Contribution F G)) :
    ContributionVerifier.verifyBatchOneByOne pk (some x) (batch.map received) =
      .ok (batch.map (verifies pk x)) := by
  rw [ContributionVerifier.verifyBatchOneByOne, mapM_map]
  exact mapM_eq_ok fun c _ => verify_received pk x c

variable {size : Nat} {batch : List (Contribution F G)} {α : Type}

omit [Field F] [Module F G] [DecidableEq G] in
lemma aggregateVectors_received (hn : batch ≠ []) (hs : ∀ c ∈ batch, c.1.length = size) :
    aggregateVectors size ((batch.map received).map Prod.fst) = .ok (if size = 0 then none else
      some (((range size).map fun i => (batch.map fun c => c.1.getD i 0).sum).map some)) := by
  have hl : ∀ i ∈ range size, (do
      let keys ← ((batch.map received).map Prod.fst).mapM fun vec => do
        let vec ← demand .undefined vec
        demand .undefined vec[i]?
      aggregate keys) = .ok (some (batch.map fun c => c.1.getD i 0).sum) := by
    intro i hi
    have hk : (((batch.map received).map Prod.fst).mapM fun vec => do
        let vec ← demand .undefined vec
        demand .undefined vec[i]?) = .ok ((batch.map fun c => c.1.getD i 0).map some) := by
      rw [map_map, mapM_map, map_map]
      refine mapM_eq_ok fun c hc => ?_
      have ht : i < c.1.length := by rw [hs c hc]; exact mem_range.1 hi
      simp [received, ht]
    rw [hk, ok_bind, aggregate_some (by simpa using hn)]
  rw [aggregateVectors, mapM_eq_ok hl, ok_bind, map_map]
  rfl

omit [DecidableEq G] in
lemma sum_error (batch : List (Contribution F G)) : (batch.map (error pk x)).sum =
      pk (batch.map fun c => c.2.getD 0).sum - (batch.map fun c => evaluate x c.1).sum := by
  induction batch with
  | nil => simp
  | cons c batch ih =>
    simp only [map_cons, sum_cons, ih, error, map_add]
    abel

lemma verify_sum (hs : ∀ c ∈ batch, c.1.length = size) :
    ContributionVerifier.verify pk (some x) (some (((range size).map fun i =>
        (batch.map fun c => c.1.getD i 0).sum).map some))
      (some (batch.map fun c => c.2.getD 0).sum) =
      .ok (decide ((batch.map (error pk x)).sum = 0)) := by
  have hl := evaluate_columns x size (batch.map Prod.fst) (by
    intro vec hv
    obtain ⟨c, hc, rfl⟩ := mem_map.1 hv
    exact hs c hc)
  simp only [map_map, comp_def] at hl
  refine (verify_received pk x (_, _)).trans ?_
  rw [verifies, hl, sum_error, getPublicKey, Except.ok.injEq, decide_eq_decide, sub_eq_zero]
  simp [eq_comm]

omit [AddCommGroup G] [Module F G] [DecidableEq G] in
lemma map_getD_of_valid (h : ∀ c ∈ batch, c.2 ≠ none) :
    (batch.map received).map Prod.snd = (batch.map fun c => c.2.getD 0).map some := by
  rw [map_map, map_map]
  refine map_congr_left fun c hc => ?_
  obtain ⟨s, hs⟩ := Option.ne_none_iff_exists'.1 (h c hc)
  simp [received, hs]

lemma asyncAggregate_received (he : batch ≠ []) (hcs : ∀ c ∈ batch, c.1.length = size)
    (hz : size ≠ 0) : ContributionVerifier.asyncAggregate pk (some x) size (batch.map received) =
      (batchOutcome pk x batch).map some := by
  rw [ContributionVerifier.asyncAggregate, aggregateVectors_received he hcs, if_neg hz, ok_bind]
  have hk : (((range size).map fun i =>
      (batch.map fun c => c.1.getD i 0).sum).map some) ≠ [] := by simpa using hz
  by_cases hv : ∀ c ∈ batch, c.2 ≠ none
  · have hn : ¬ (1 < batch.length ∧ ∃ c ∈ batch, c.2 = none) := by
      rintro ⟨-, c, hc, h0⟩
      exact hv c hc h0
    rw [map_getD_of_valid hv, aggregate_some (by simpa using he), ok_bind]
    dsimp only
    rw [batchOutcome, if_neg hn, ContributionVerifier.handleAggDone,
      if_neg (not_or.2 ⟨hk, by simp⟩), ContributionVerifier.aggregatedVerifyBatch,
        verify_sum pk x hcs, ok_bind]
    by_cases hs : (batch.map (error pk x)).sum = 0
    · rw [if_pos (by simpa using hs), if_pos ⟨hv, hs⟩, length_map]
      rfl
    · rw [if_neg (by simpa using hs), if_neg (fun h => hs h.2), verifyBatchOneByOne_received]
      rfl
  · push Not at hv
    obtain ⟨c, hc, hn⟩ := hv
    by_cases hl : 1 < batch.length
    · have hm : none ∈ (batch.map received).map Prod.snd := by
        rw [map_map]
        exact mem_map.2 ⟨c, hc, hn⟩
      rw [aggregate_none hm (by simpa using hl), batchOutcome, if_pos ⟨hl, c, hc, hn⟩]
      rfl
    · -- an invalid share that is a batch of its own is refused
      obtain ⟨c', rfl⟩ := length_eq_one_iff.1
        (show batch.length = 1 by have := length_pos_of_mem hc; omega)
      obtain rfl := mem_singleton.1 hc
      have hr : verifies pk x c = false := by simp [verifies, hn, getPublicKey]
      rw [batchOutcome, if_neg (by simp), if_neg (by simp [hn])]
      simp only [map_cons, map_nil, received, aggregate, ok_bind, hn, hr]
      rw [ContributionVerifier.handleAggDone, if_pos (.inr rfl)]
      rfl

lemma flatten_batches (cs : List α) : (ContributionVerifier.batches 8 cs).flatten = cs := by
  have hf : ∀ m k, cs.length ≤ (k + m) * 8 →
      ((range' k m).map fun k => (cs.drop (k * 8)).take 8).flatten = cs.drop (k * 8) := by
    intro m
    induction m with
    | zero => exact fun k hk => (drop_eq_nil_of_le hk).symm
    | succ m ih =>
      intro k hk
      rw [range'_succ, map_cons, flatten_cons, ih (k + 1) (by omega), Nat.add_mul,
        ← drop_drop]
      exact take_append_drop 8 _
  rw [ContributionVerifier.batches, range_eq_range', hf _ 0 (by omega)]
  rfl

lemma ne_nil_of_mem_batches {cs b : List α} (hb : b ∈ ContributionVerifier.batches 8 cs) :
    b ≠ [] ∧ b ⊆ cs := by
  obtain ⟨k, hk, rfl⟩ := mem_map.1 hb
  rw [mem_range] at hk
  refine ⟨fun h0 => ?_, fun c hc => mem_of_mem_drop (mem_of_mem_take hc)⟩
  have hz := congrArg length h0
  simp only [length_take, length_drop, length_nil] at hz
  omega

lemma batches_map {β : Type} (f : α → β) (cs : List α) : ContributionVerifier.batches 8 (cs.map f) =
      (ContributionVerifier.batches 8 cs).map (map f) := by
  simp [ContributionVerifier.batches, comp_def]

lemma length_of_batchOutcome {r : List Bool} (h : batchOutcome pk x batch = .ok r) :
    r.length = batch.length := by
  unfold batchOutcome at h
  split_ifs at h <;> cases h <;> simp

/-- Aggregation does not change the results of a batch: alone, or with valid shares only and errors
that do not cancel out. -/
def Sound (batch : List (Contribution F G)) : Prop :=
  1 < batch.length → (∀ c ∈ batch, c.2 ≠ none) ∧
    ((batch.map (error pk x)).sum = 0 → ∀ c ∈ batch, error pk x c = 0)

lemma map_verifies_eq_replicate (hv : ∀ c ∈ batch, c.2 ≠ none) :
    batch.map (verifies pk x) = .replicate batch.length true ↔ ∀ c ∈ batch, error pk x c = 0 := by
  rw [eq_replicate_iff]
  simp only [length_map, true_and, forall_mem_map]
  exact forall₂_congr fun c hc => verifies_iff pk x (hv c hc)

lemma batchOutcome_iff :
    batchOutcome pk x batch = .ok (batch.map (verifies pk x)) ↔ Sound pk x batch := by
  by_cases hv : ∀ c ∈ batch, c.2 ≠ none
  · have hn : ¬ (1 < batch.length ∧ ∃ c ∈ batch, c.2 = none) := by
      rintro ⟨-, c, hc, h0⟩
      exact hv c hc h0
    rw [batchOutcome, if_neg hn]
    by_cases hs : (batch.map (error pk x)).sum = 0
    · rw [if_pos ⟨hv, hs⟩, Except.ok.injEq, eq_comm, map_verifies_eq_replicate pk x hv]
      refine ⟨fun h _ => ⟨hv, fun _ => h⟩, fun h => ?_⟩
      by_cases hl : 1 < batch.length
      · exact (h hl).2 hs
      · -- the sum over one contribution is its own error
        intro c hc
        obtain ⟨c', rfl⟩ : ∃ c', batch = [c'] := by
          refine length_eq_one_iff.1 ?_
          have := length_pos_of_mem hc
          omega
        rw [mem_singleton.1 hc]
        simpa using hs
    · rw [if_neg (fun h => hs h.2)]
      exact ⟨fun _ _ => ⟨hv, fun h => absurd h hs⟩, fun _ => rfl⟩
  · have hn : ∃ c ∈ batch, c.2 = none := by push Not at hv; exact hv
    by_cases hl : 1 < batch.length
    · rw [batchOutcome, if_pos ⟨hl, hn⟩]
      exact ⟨(fun h => by cases h), fun h => absurd (h hl).1 hv⟩
    · rw [batchOutcome, if_neg (fun h => hl h.1), if_neg (fun h => hv h.1)]
      exact ⟨fun _ h => absurd h hl, fun _ => rfl⟩

lemma mapM_batchOutcome_iff (bs : List (List (Contribution F G))) :
    (bs.mapM (batchOutcome pk x)).map flatten = .ok (bs.flatten.map (verifies pk x)) ↔
      ∀ b ∈ bs, Sound pk x b := by
  induction bs with
  | nil => simp [Except.map]
  | cons b bs ih =>
    rw [forall_mem_cons, ← ih, ← batchOutcome_iff, mapM_cons, flatten_cons, map_append]
    cases hr : batchOutcome pk x b with
    | error e => simp [Except.map]
    | ok r =>
      have hl := length_of_batchOutcome pk x hr
      cases bs.mapM (batchOutcome pk x) with
      | error e => simp [Except.map]
      | ok rs =>
        simp only [ok_bind, pure_eq, Except.map, flatten_cons, Except.ok.injEq]
        constructor
        · intro h
          exact append_inj h (by simpa using hl)
        · rintro ⟨h1, h2⟩
          rw [h1, h2]

lemma mapM_map_some {β : Type} {f : α → Run (Option β)} {g : α → Run β} {l : List α}
    (h : ∀ a ∈ l, f a = (g a).map some) : l.mapM f = (l.mapM g).map (map some) := by
  induction l with
  | nil => rfl
  | cons a l ih =>
    rw [mapM_cons, mapM_cons, h a (by simp), ih fun b hb => h b (by simp [hb])]
    cases g a with
    | error e => rfl
    | ok b => cases l.mapM g <;> rfl

variable {cs : List (Contribution F G)}

def report (x : F) (cs : List (Contribution F G)) (aggregated : Bool) : Run (Option (List Bool)) :=
  ContributionVerifier.start pk (some x) (cs.map fun c => c.received.1)
    (cs.map fun c => c.received.2) 8 aggregated

omit [Field F] [AddCommGroup G] [Module F G] [DecidableEq G] in
lemma zip_received (cs : List (Contribution F G)) :
    (cs.map fun c => c.received.1).zip (cs.map fun c => c.received.2) = cs.map received :=
  zip_map' ..

lemma report_false (hn : cs ≠ []) : report pk x cs false = .ok (some (cs.map (verifies pk x))) := by
  rw [report, ContributionVerifier.start, if_neg (by simp), zip_received,
    verifyBatchOneByOne_received]
  simp [Except.map, hn, reduceOption]

lemma report_true {size : Nat} (hcs : ∀ c ∈ cs, c.1.length = size) (hs : size ≠ 0)
    (hn : cs ≠ []) : report pk x cs true =
      ((ContributionVerifier.batches 8 cs).mapM (batchOutcome pk x)).map
        fun rs => some rs.flatten := by
  have hh : ((cs.map fun c => c.received.1).head?.join.getD []).length = size := by
    obtain ⟨c, cs', rfl⟩ := exists_cons_of_ne_nil hn
    simpa [received] using hcs c (by simp)
  have hm := mapM_map_some (l := ContributionVerifier.batches 8 cs)
    (f := ContributionVerifier.asyncAggregate pk (some x) size ∘ map received)
    (g := batchOutcome pk x) fun b hb => by
      obtain ⟨hb, hsb⟩ := ne_nil_of_mem_batches hb
      exact asyncAggregate_received pk x hb (fun c hc => hcs c (hsb hc)) hs
  rw [report, ContributionVerifier.start, if_neg (by simp), zip_received, hh, batches_map,
    if_pos rfl, mapM_map, hm]
  cases (ContributionVerifier.batches 8 cs).mapM (batchOutcome pk x) with
  | error e => rfl
  | ok rs => simp [Except.map, hn, reduceOption, filterMap_map]

lemma not_reported_of_empty (hc : ∀ c ∈ cs, c.1.length = 0) (result : List Bool) :
    report pk x cs true ≠ .ok (some result) := by
  intro h
  rw [report, ContributionVerifier.start, if_neg (by simp), zip_received, if_pos rfl] at h
  obtain ⟨results, hs, h⟩ := bind_ok.1 h
  by_cases he : cs = []
  · simp [he] at h
  have hh : ((cs.map fun c => c.received.1).head?.join.getD []).length = 0 := by
    obtain ⟨c, cs', rfl⟩ := exists_cons_of_ne_nil he
    simpa [received] using hc c (by simp)
  rw [hh] at hs
  have hn : ∀ r ∈ results, r = none := by
    intro r hr
    obtain ⟨b, -, hb⟩ := exists_of_mem_mapM hs hr
    obtain ⟨vvec, hv, hb⟩ := bind_ok.1 hb
    obtain ⟨share, -, hb⟩ := bind_ok.1 hb
    cases hv
    exact (Except.ok.inj hb).symm
  cases results with
  | nil =>
    have ht : ContributionVerifier.batches 8 (cs.map received) = [] := by
      cases hb : ContributionVerifier.batches 8 (cs.map received) with
      | nil => rfl
      | cons b bs =>
        rw [hb, mapM_cons] at hs
        obtain ⟨r, -, hs⟩ := bind_ok.1 hs
        obtain ⟨rs, -, hs⟩ := bind_ok.1 hs
        cases hs
    have hf := flatten_batches (cs.map received)
    rw [ht, flatten_nil] at hf
    exact absurd (map_eq_nil_iff.1 hf.symm) he
  | cons r results =>
    simp [hn r (by simp)] at h

end Contribution

section Worker

open Contribution (Sound)
open ContributionVerifier (batches)
variable [DecidableEq G] (pk : F →ₗ[F] G) (getHash : G → Uint256)

def contributions (vvecs : List (VerificationVector G)) (skShares : List (Option F)) :
    List (Contribution F G) :=
  (vvecs.zip skShares).map fun c => ((c.1.getD []).map fun key => key.getD 0, c.2)

/-- Both ways report, and entry by entry they report what `verifyContributionShare` says. -/
def SameReport (forId : Option F) (vvecs : List (VerificationVector G))
    (skShares : List (Option F)) : Prop :=
  ∃ result, asyncVerifyContributionShares pk getHash forId vvecs skShares true =
      .ok (some result) ∧
    asyncVerifyContributionShares pk getHash forId vvecs skShares false = .ok (some result) ∧
    (vvecs.zip skShares).mapM (fun c => verifyContributionShare pk forId c.1 c.2) = .ok result

variable {getHash} {forId : Option F} {vvecs : List (VerificationVector G)}
  {skShares : List (Option F)}

omit [Field F] [Module F G] [DecidableEq G] in
lemma contributions_spec (hv : verifyVerificationVectors getHash vvecs)
    (hl : skShares.length = vvecs.length) :
    (∃ size, ∀ c ∈ contributions vvecs skShares, c.1.length = size) ∧
      vvecs = (contributions vvecs skShares).map (fun c => c.received.1) ∧
      skShares = (contributions vvecs skShares).map (fun c => c.received.2) := by
  obtain ⟨vecs, rfl, hs⟩ := verifyVectors_valid hv
  rw [length_map] at hl
  have hcs : contributions (vecs.map fun keys => some (keys.map some)) skShares =
      vecs.zip skShares := by
    rw [contributions, zip_map_left, map_map]
    refine (map_congr_left fun c _ => ?_).trans (map_id _)
    simp [comp_def]
  rw [hcs]
  refine ⟨⟨_, fun c hc => hs c.1 (of_mem_zip hc).1⟩, ?_, (map_snd_zip hl.le).symm⟩
  conv_lhs => rw [← map_fst_zip hl.ge]
  rw [map_map]
  rfl

/-- **When aggregation is the same as verification one by one.** There are vectors, none is empty,
and in no batch errors cancel out or a share is not valid. -/
theorem sameReport_iff (hvecs : verifyVerificationVectors getHash vvecs = true)
    (hlen : skShares.length = vvecs.length) : SameReport pk getHash forId vvecs skShares ↔
      ∀ x, forId = some x → vvecs ≠ [] ∧ some [] ∉ vvecs ∧
        ∀ batch ∈ batches 8 (contributions vvecs skShares), Sound pk x batch := by
  obtain ⟨⟨size, hs⟩, hv, hh⟩ := contributions_spec hvecs hlen
  generalize contributions vvecs skShares = cs at *
  subst hv hh
  cases forId with
  | none =>
    -- everything is refused
    simp only [reduceCtorEq, false_implies, implies_true, iff_true]
    refine ⟨.replicate cs.length false, by simp [asyncVerifyContributionShares],
      by simp [asyncVerifyContributionShares], ?_⟩
    rw [Contribution.zip_received, mapM_map, ← map_const']
    exact Run.mapM_eq_ok fun c _ => rfl
  | some x =>
    have ha : ∀ aggregated, asyncVerifyContributionShares pk getHash (some x)
        (cs.map fun c => c.received.1) (cs.map fun c => c.received.2) aggregated =
        Contribution.report pk x cs aggregated := fun aggregated => if_neg (by simp [hvecs])
    have hsn : ((cs.map fun c => c.received.1).zip (cs.map fun c => c.received.2)).mapM
        (fun c => verifyContributionShare pk (some x) c.1 c.2) =
        .ok (cs.map (Contribution.verifies pk x)) := by
      rw [Contribution.zip_received]
      exact Contribution.verifyBatchOneByOne_received pk x cs
    simp only [Option.some.injEq, forall_eq', SameReport, ha, hsn, Except.ok.injEq]
    by_cases hn : cs = []
    · -- there is no batch, and nothing calls back
      subst hn
      refine ⟨?_, fun h => absurd rfl h.1⟩
      rintro ⟨result, hr, -⟩
      exact absurd hr (Contribution.not_reported_of_empty pk x (by simp) result)
    have hm : (some [] ∈ cs.map fun c => c.received.1) ↔ size = 0 := by
      simp only [Contribution.received, mem_map, Option.some.injEq, map_eq_nil_iff]
      constructor
      · rintro ⟨c, hc, he⟩
        rw [← hs c hc, he, length_nil]
      · intro h0
        obtain ⟨c, hc⟩ := exists_mem_of_ne_nil cs hn
        exact ⟨c, hc, length_eq_zero_iff.1 ((hs c hc).trans h0)⟩
    rw [hm, Contribution.report_false pk x hn]
    by_cases h0 : size = 0
    · refine ⟨?_, fun h => absurd h0 h.2.1⟩
      rintro ⟨result, hr, -⟩
      exact absurd hr (Contribution.not_reported_of_empty pk x (by rwa [h0] at hs) result)
    have hi := Contribution.mapM_batchOutcome_iff pk x (batches 8 cs)
    rw [Contribution.flatten_batches] at hi
    rw [Contribution.report_true pk x hs h0 hn, ← hi]
    cases (batches 8 cs).mapM (Contribution.batchOutcome pk x) with
    | error e => simp [Except.map]
    | ok rs => simp [Except.map, hn, h0]

end Worker
end Trivechain.Bls

namespace Trivechain.Bls.CancellingErrors

/-! ### Two shares whose errors cancel out

Secret and public keys are rationals, and a secret key is its own public key. -/

def getHash (key : ℚ) : Uint256 := key.num.natAbs

def vvecs : List (VerificationVector ℚ) := [some [some 1, some 2], some [some 3, some 4]]

def skShares : List (Option ℚ) := [some 4, some 6]

/-- Both contributions are wrong, and both are accepted. -/
theorem wrong_shares_accepted : verifyVerificationVectors getHash vvecs = true ∧
    skShares.length = vvecs.length ∧
    asyncVerifyContributionShares LinearMap.id getHash (some 1) vvecs skShares true =
      .ok (some [true, true]) ∧
    asyncVerifyContributionShares LinearMap.id getHash (some 1) vvecs skShares false =
      .ok (some [false, false]) ∧ ¬ SameReport LinearMap.id getHash (some 1) vvecs skShares := by
  have ht : asyncVerifyContributionShares LinearMap.id getHash (some 1) vvecs skShares true =
      .ok (some [true, true]) := by decide +kernel
  have hf : asyncVerifyContributionShares LinearMap.id getHash (some 1) vvecs skShares false =
      .ok (some [false, false]) := by decide +kernel
  refine ⟨by decide +kernel, rfl, ht, hf, ?_⟩
  rintro ⟨result, h1, h2, -⟩
  have he := (ht.symm.trans h1).trans (hf.symm.trans h2).symm
  simp at he

theorem same_report_of_other_shares :
    SameReport LinearMap.id getHash (some (1 : ℚ)) vvecs [some 3, some 8] := by
  have hv : verifyVerificationVectors getHash vvecs = true := by decide +kernel
  have hl : [some (3 : ℚ), some 8].length = vvecs.length := rfl
  refine (sameReport_iff (F := ℚ) (G := ℚ) LinearMap.id hv hl).2 ?_
  rintro x ⟨⟩
  refine ⟨by decide, by decide +kernel, fun batch hb _ => ?_⟩
  have ht : ContributionVerifier.batches 8 (contributions vvecs [some (3 : ℚ), some 8]) =
      [[([1, 2], some 3), ([3, 4], some 8)]] := by decide +kernel
  rw [ht, List.mem_singleton] at hb
  subst hb
  refine ⟨by simp, fun hs => ?_⟩
  norm_num [Contribution.error, evaluate] at hs

end Trivechain.Bls.CancellingErrors
