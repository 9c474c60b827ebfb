import Trivechain.Serialize.VarInt

/-!
# Compressed amounts

The value of a stored coin is written as the number of its trailing zeros, at most nine, and the
digits before them, of which the last one is not zero unless all nine are used up.
-/

open Nat

namespace Trivechain.Serialize

/-- The loop of `CompressAmount` with `k` rounds to go, and how many it makes. -/
def stripZeros : Nat → Nat → Nat × Nat
  | 0, n => (n, 0)
  | k + 1, n =>
    if n % 10 = 0 then
      let (m, e) := stripZeros k (n / 10)
      (m, e + 1)
    else (n, 0)

/-- `CompressAmount`, none if the assertion fails. -/
def compressAmount (n : Nat) : Option Nat :=
  if n = 0 then some 0 else
    let (n, e) := stripZeros 9 n
    if e < 9 then
      let d := n % 10
      if 1 ≤ d ∧ d ≤ 9 then some ((1 + (n / 10 * 9 + d - 1) * 10 + e) % 2 ^ 64) else none
    else some ((1 + (n - 1) * 10 + 9) % 2 ^ 64)

def decompressAmount (x : Nat) : Nat :=
  if x = 0 then 0 else
    let e := (x - 1) % 10
    let x := (x - 1) / 10
    (if e < 9 then x / 9 * 10 + (x % 9 + 1) else x + 1) * 10 ^ e % 2 ^ 64

/-- The value of a `CTxOutCompressor`. -/
def serializeValue (nValue : Nat) : Option (List UInt8) := (compressAmount nValue).map writeVarInt

def deserializeValue (s : List UInt8) : Option (Nat × List UInt8) :=
  (readVarInt 64 s).map fun (nVal, s) => (decompressAmount nVal, s)

section
variable {k m n e : Nat}

lemma stripZeros_spec (h : stripZeros k n = (m, e)) :
    n = m * 10 ^ e ∧ e ≤ k ∧ (e < k → m % 10 ≠ 0) := by
  induction k generalizing n e with
  | zero =>
    cases h
    simp
  | succ k ih =>
    rw [stripZeros] at h
    split_ifs at h with hz
    · cases h
      obtain ⟨hm, hk, hd⟩ := ih (n := n / 10) rfl
      refine ⟨?_, by omega, fun h => hd (by omega)⟩
      rw [pow_succ, ← mul_assoc, ← hm]
      omega
    · cases h
      simpa using hz

lemma decompressAmount_digit (he : e < 9) (hm : m % 10 ≠ 0) :
    decompressAmount (1 + (m / 10 * 9 + m % 10 - 1) * 10 + e) = m * 10 ^ e % 2 ^ 64 := by
  have hx : 1 + (m / 10 * 9 + m % 10 - 1) * 10 + e - 1 = (m / 10 * 9 + m % 10 - 1) * 10 + e := by
    omega
  have hr : ((m / 10 * 9 + m % 10 - 1) * 10 + e) % 10 = e := by omega
  have hq : ((m / 10 * 9 + m % 10 - 1) * 10 + e) / 10 = m / 10 * 9 + m % 10 - 1 := by omega
  simp only [decompressAmount, hx, hr, hq, if_pos he]
  rw [if_neg (by omega), show _ / 9 * 10 + (_ % 9 + 1) = m by omega]

lemma decompressAmount_nine (hm : m ≠ 0) :
    decompressAmount (1 + (m - 1) * 10 + 9) = m * 10 ^ 9 % 2 ^ 64 := by
  have hr : (1 + (m - 1) * 10 + 9 - 1) % 10 = 9 := by omega
  simp only [decompressAmount, hr, lt_irrefl, if_false]
  rw [if_neg (by omega), show _ / 10 + 1 = m by omega]

/-- An assertion never fails, and codes below the bound do not overflow. -/
lemma compressAmount_spec (hn : n < 2 ^ 64) : ∃ x < 2 ^ 64, compressAmount n = some x ∧
    (n ≤ 2 * 10 ^ 18 → decompressAmount x = n) := by
  obtain rfl | h0 := eq_or_ne n 0
  · exact ⟨0, by decide, rfl, fun _ => rfl⟩
  obtain ⟨m, e, hs⟩ : ∃ m e, stripZeros 9 n = (m, e) := ⟨_, _, rfl⟩
  obtain ⟨hm, he, hd⟩ := stripZeros_spec hs
  have hle : m ≤ n := hm ▸ Nat.le_mul_of_pos_right m (by positivity)
  simp only [compressAmount, if_neg h0, hs]
  rw [← mod_eq_of_lt hn]
  split_ifs with h9 h1
  · refine ⟨_, mod_lt _ (by positivity), rfl, fun hb => ?_⟩
    rw [mod_eq_of_lt (by omega), decompressAmount_digit h9 (hd h9), ← hm]
  · have := hd h9
    omega
  · obtain rfl : e = 9 := by omega
    refine ⟨_, mod_lt _ (by positivity), rfl, fun hb => ?_⟩
    rw [mod_eq_of_lt (by omega), decompressAmount_nine (by omega), ← hm]

end

/-- Every value can be written, and those up to 200 times `MAX_MONEY` are read back. -/
theorem value_roundTrip : (∀ nValue < 2 ^ 64, (serializeValue nValue).isSome) ∧
    ∀ nValue ≤ 2 * 10 ^ 18, ∀ bs rest, serializeValue nValue = some bs →
      deserializeValue (bs ++ rest) = some (nValue, rest) := by
  refine ⟨fun n hn => ?_, fun n hn bs rest h => ?_⟩
  · obtain ⟨x, -, hx, -⟩ := compressAmount_spec hn
    rw [serializeValue, hx]
    rfl
  · obtain ⟨x, hlt, hx, hd⟩ := compressAmount_spec (n := n) (by omega)
    rw [serializeValue, hx] at h
    cases h
    rw [deserializeValue, readVarInt_writeVarInt hlt]
    simp only [Option.map_some, hd hn]

end Trivechain.Serialize
