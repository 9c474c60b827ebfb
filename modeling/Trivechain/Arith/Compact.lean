import Mathlib.Data.Nat.Bitwise
import Mathlib.Data.Nat.Size
import Mathlib.Tactic

/-!
# Compact targets

A target is stored as a mantissa of 23 bits and a number of bytes. Encoding only clears the bits
below the mantissa, so it keeps the order of targets.
-/

open Nat

namespace Trivechain.Arith

/-- What `SetCompact` returns: the number, `pfNegative` and `pfOverflow`. -/
@[ext]
structure SetResult where
  value : Nat
  negative : Bool
  overflow : Bool

/-- `SetCompact`; shifting to the left is modulo the size of the type. -/
def setCompact (nCompact : Nat) : SetResult :=
  let nSize := nCompact >>> 24
  let nWord := nCompact &&& 0x007fffff
  let nWord := if nSize ≤ 3 then nWord >>> (8 * (3 - nSize)) else nWord
  { value := if nSize ≤ 3 then nWord else nWord <<< (8 * (nSize - 3)) % 2 ^ 256
    negative := nWord ≠ 0 ∧ nCompact &&& 0x00800000 ≠ 0
    overflow := nWord ≠ 0 ∧ (34 < nSize ∨ (0xff < nWord ∧ 33 < nSize) ∨
      (0xffff < nWord ∧ 32 < nSize)) }

/-- `GetCompact`, none if an assertion fails. The results of `GetLow64` are cut to 32 bits. -/
def getCompact (x : Nat) (fNegative : Bool) : Option Nat :=
  let nSize := (x.size + 7) / 8
  let nCompact := (if nSize ≤ 3 then (x % 2 ^ 64) <<< (8 * (3 - nSize))
    else x >>> (8 * (nSize - 3)) % 2 ^ 64) % 2 ^ 32
  let sign := nCompact &&& 0x00800000 ≠ 0
  let nCompact' := if sign then nCompact >>> 8 else nCompact
  let nSize' := if sign then nSize + 1 else nSize
  if nCompact' &&& 0xff800000 = 0 ∧ nSize' < 256 then
    let result := nCompact' ||| nSize' <<< 24
    some (result ||| if fNegative ∧ result &&& 0x007fffff ≠ 0 then 0x00800000 else 0)
  else none

def exponent (x : Nat) : Nat := if x = 0 then 0 else x.size / 8 + 1

def mantissa (x : Nat) : Nat := x * 2 ^ 24 / 2 ^ (8 * exponent x)

def unit (x : Nat) : Nat := 2 ^ (8 * exponent x - 24)

section
variable {x y n : Nat}

lemma exponent_le {k : Nat} : exponent x ≤ k ↔ x < 2 ^ (8 * k - 1) := by
  rw [← size_le, exponent]
  split_ifs with hx
  · simp [hx]
  · have hs := size_pos.2 (pos_of_ne_zero hx)
    omega

lemma lt_of_exponent (x : Nat) : x < 2 ^ (8 * exponent x - 1) := exponent_le.1 le_rfl

lemma le_of_exponent (h : x ≠ 0) : 2 ^ (8 * exponent x - 9) ≤ x := by
  have he : 0 < exponent x := by simp [exponent, h]
  have hl := mt exponent_le.2 (show ¬exponent x ≤ exponent x - 1 by omega)
  rwa [Nat.mul_sub, Nat.sub_sub, not_lt] at hl

lemma two_pow_mul {a b c : Nat} (h : a + b = c) : 2 ^ a * 2 ^ b = 2 ^ c := by
  rw [← h, pow_add]

lemma scale_eq (x e : Nat) : x * 2 ^ 24 / 2 ^ (8 * e) =
    if e ≤ 3 then x * 2 ^ (8 * (3 - e)) else x / 2 ^ (8 * (e - 3)) := by
  split_ifs with he
  · rw [← two_pow_mul (show 8 * (3 - e) + 8 * e = 24 by omega), ← mul_assoc,
      Nat.mul_div_cancel _ (by positivity)]
  · rw [← two_pow_mul (show 8 * (e - 3) + 24 = 8 * e by omega),
      Nat.mul_div_mul_right _ _ (by positivity)]

lemma scale_lt {e k : Nat} (h : x < 2 ^ k) (hk : k + 24 ≤ 8 * e + n) :
    x * 2 ^ 24 / 2 ^ (8 * e) < 2 ^ n := by
  rw [div_lt_iff_lt_mul (by positivity), two_pow_mul (add_comm n (8 * e))]
  calc x * 2 ^ 24 < 2 ^ k * 2 ^ 24 := mul_lt_mul_of_pos_right h (by positivity)
    _ = 2 ^ (k + 24) := two_pow_mul rfl
    _ ≤ 2 ^ (8 * e + n) := Nat.pow_le_pow_right (by decide) hk

lemma mantissa_lt (x : Nat) : mantissa x < 2 ^ 23 := by
  rcases eq_or_ne x 0 with rfl | h
  · simp [mantissa]
  · refine scale_lt (lt_of_exponent x) ?_
    rw [exponent, if_neg h]
    omega

/-- The mantissa of a number with 33 bytes has at most 16 bits. -/
lemma exponent_bound (hx : x < 2 ^ 256) :
    exponent x ≤ 33 ∧ (32 < exponent x → mantissa x < 2 ^ 16) := by
  have hs := size_le.2 hx
  refine ⟨?_, fun he => scale_lt hx (by omega)⟩
  rw [exponent]
  split_ifs <;> omega

lemma and_sign (hn : n < 2 ^ 24) : n &&& 0x00800000 ≠ 0 ↔ 2 ^ 23 ≤ n := by
  have ht := and_two_pow n 23
  rw [testBit_eq_decide_div_mod_eq] at ht
  rw [show 0x00800000 = 2 ^ 23 from rfl, ht]
  by_cases hb : n / 2 ^ 23 % 2 = 1 <;> simp <;> omega

lemma and_high (hn : n < 2 ^ 23) : n &&& 0xff800000 = 0 := by
  refine eq_of_testBit_eq fun i => ?_
  rw [testBit_and, show 0xff800000 = 511 <<< 23 from rfl, testBit_shiftLeft]
  by_cases hi : 23 ≤ i
  · have hp := Nat.pow_le_pow_right (n := 2) (by decide) hi
    simp [testBit_lt_two_pow (hn.trans_le hp)]
  · simp [hi]

lemma mantissa_of_sign (hx : x ≠ 0) :
    let nSize := (x.size + 7) / 8
    let word := x * 2 ^ 24 / 2 ^ (8 * nSize)
    word < 2 ^ 24 ∧ (if 2 ^ 23 ≤ word then word / 2 ^ 8 else word) = mantissa x ∧
      (if 2 ^ 23 ≤ word then nSize + 1 else nSize) = exponent x := by
  intro nSize word
  have hs := size_pos.2 (pos_of_ne_zero hx)
  have hb : 2 ^ 23 ≤ word ↔ x.size = 8 * nSize := by
    rw [le_div_iff_mul_le (by positivity), ← two_pow_mul (show 8 * nSize - 1 + 1 = 8 * nSize by
      omega), show 2 ^ 23 * (2 ^ (8 * nSize - 1) * 2 ^ 1) = 2 ^ (8 * nSize - 1) * 2 ^ 24 by ring,
      Nat.mul_le_mul_right_iff (by positivity), ← lt_size]
    omega
  refine ⟨scale_lt x.lt_size_self (by omega), ?_⟩
  rw [mantissa, exponent, if_neg hx]
  split_ifs with h
  · have he : nSize + 1 = x.size / 8 + 1 := by omega
    refine ⟨?_, he⟩
    rw [Nat.div_div_eq_div_mul, two_pow_mul rfl, ← he]
    rfl
  · have he : nSize = x.size / 8 + 1 := by omega
    exact ⟨by rw [← he], he⟩

lemma getCompact_eq (hx : x < 2 ^ 256) :
    getCompact x false = some (mantissa x + exponent x * 2 ^ 24) := by
  rcases eq_or_ne x 0 with rfl | h
  · simp [getCompact, mantissa, exponent]
  obtain ⟨hw, hm, he⟩ := mantissa_of_sign h
  unfold getCompact
  generalize hn : (x.size + 7) / 8 = nSize at hw hm he ⊢
  have hc : (if nSize ≤ 3 then (x % 2 ^ 64) <<< (8 * (3 - nSize))
      else x >>> (8 * (nSize - 3)) % 2 ^ 64) % 2 ^ 32 = x * 2 ^ 24 / 2 ^ (8 * nSize) := by
    rw [scale_eq] at hw ⊢
    split_ifs at hw ⊢ with hz
    · have hx' : x < 2 ^ 64 := x.lt_size_self.trans_le (Nat.pow_le_pow_right (by decide) (by omega))
      rw [mod_eq_of_lt hx', shiftLeft_eq, mod_eq_of_lt (by omega)]
    · rw [shiftRight_eq_div_pow, mod_eq_of_lt (hw.trans (by decide)),
        mod_eq_of_lt (hw.trans (by decide))]
  have hm' := mantissa_lt x
  have he' : exponent x < 256 := (exponent_bound hx).1.trans_lt (by decide)
  dsimp only
  rw [hc]
  simp only [and_sign hw, shiftRight_eq_div_pow, hm, he, and_high hm', he', and_self,
    if_true, Bool.false_eq_true, false_and, if_false, or_zero]
  rw [Nat.or_comm, ← shiftLeft_add_eq_or_of_lt (by omega), shiftLeft_eq, add_comm]

lemma unscale_eq (w e : Nat) : w * 2 ^ (8 * e) / 2 ^ 24 =
    if e ≤ 3 then w / 2 ^ (8 * (3 - e)) else w * 2 ^ (8 * (e - 3)) := by
  split_ifs with he
  · rw [← two_pow_mul (show 8 * (3 - e) + 8 * e = 24 by omega),
      Nat.mul_div_mul_right _ _ (by positivity)]
  · rw [← two_pow_mul (show 8 * (e - 3) + 24 = 8 * e by omega), ← mul_assoc,
      Nat.mul_div_cancel _ (by positivity)]

/-- The number without the bits below the mantissa. -/
def round (x : Nat) : Nat := x / unit x * unit x

lemma mantissa_mul (x : Nat) : mantissa x * 2 ^ (8 * exponent x) / 2 ^ 24 = round x := by
  rw [mantissa, scale_eq, unscale_eq, round, unit]
  split_ifs with he
  · rw [Nat.mul_div_cancel _ (by positivity), show 8 * exponent x - 24 = 0 by omega]
    simp
  · rw [Nat.mul_sub]

lemma round_le (x : Nat) : round x ≤ x := div_mul_le_self x (unit x)

lemma round_of_le (h : exponent x ≤ 3) : round x = x := by
  rw [round, unit, show 8 * exponent x - 24 = 0 by omega]
  simp

lemma le_round_of_dvd (hd : unit x ∣ n) (hn : n ≤ x) : n ≤ round x := by
  obtain ⟨c, rfl⟩ := hd
  rw [mul_comm] at hn ⊢
  exact mul_le_mul_right _ ((le_div_iff_mul_le (Nat.two_pow_pos _)).2 hn)

lemma le_round (h : x ≠ 0) : 2 ^ (8 * exponent x - 9) ≤ round x :=
  le_round_of_dvd (pow_dvd_pow 2 (by omega)) (le_of_exponent h)

lemma exponent_round (x : Nat) : exponent (round x) = exponent x := by
  rcases eq_or_ne x 0 with rfl | h
  · rfl
  refine le_antisymm (exponent_le.2 ((round_le x).trans_lt (lt_of_exponent x))) ?_
  by_contra hlt
  have hl := (lt_of_exponent (round x)).trans_le (pow_le_pow_right₀ one_le_two
    (show 8 * exponent (round x) - 1 ≤ 8 * exponent x - 9 by omega))
  exact hl.not_ge (le_round h)

lemma mantissa_round (x : Nat) : mantissa (round x) = mantissa x := by
  by_cases he : exponent x ≤ 3
  · rw [round_of_le he]
  · have hu : 0 < unit x := Nat.two_pow_pos _
    rw [mantissa, mantissa, exponent_round, scale_eq, scale_eq, if_neg he, if_neg he, Nat.mul_sub]
    exact Nat.mul_div_cancel (x / unit x) hu

lemma round_mono (h : x ≤ y) : round x ≤ round y := by
  rcases eq_or_ne y 0 with rfl | hy
  · rw [le_zero.1 h]
  rcases (exponent_le.2 (h.trans_lt (lt_of_exponent y))).eq_or_lt with he | hlt
  · refine le_round_of_dvd ?_ ((round_le x).trans h)
    rw [unit, ← he]
    exact dvd_mul_left _ _
  · -- the number with fewer bytes is smaller than the mantissa of the other one allows
    calc round x ≤ x := round_le x
      _ ≤ 2 ^ (8 * exponent x - 1) := (lt_of_exponent x).le
      _ ≤ 2 ^ (8 * exponent y - 9) := Nat.pow_le_pow_right (by decide) (by omega)
      _ ≤ round y := le_round hy

lemma sub_round_mul_le (x : Nat) : (x - round x) * 2 ^ 15 ≤ x := by
  by_cases he : exponent x ≤ 3
  · simp [round_of_le he]
  · have h : x ≠ 0 := by
      rintro rfl
      exact he (zero_le 3)
    have hm : x < round x + unit x := lt_div_mul_add (Nat.two_pow_pos _)
    calc (x - round x) * 2 ^ 15 ≤ unit x * 2 ^ 15 := mul_le_mul_right _ (by omega)
      _ = 2 ^ (8 * exponent x - 9) := two_pow_mul (by omega)
      _ ≤ x := le_of_exponent h

lemma value_setCompact (n : Nat) : (setCompact n).value =
    n % 2 ^ 23 * 2 ^ (8 * (n / 2 ^ 24)) / 2 ^ 24 % 2 ^ 256 := by
  have hw := and_two_pow_sub_one_eq_mod n 23
  have hl : n % 2 ^ 23 < 2 ^ 23 := mod_lt n (by positivity)
  simp only [setCompact, shiftRight_eq_div_pow, shiftLeft_eq]
  rw [show 0x007fffff = 2 ^ 23 - 1 from rfl, hw, unscale_eq]
  split_ifs with hs
  · exact (mod_eq_of_lt ((div_le_self _ _).trans_lt (hl.trans (by decide)))).symm
  · rfl

lemma setCompact_eq (hx : x < 2 ^ 256) :
    setCompact (mantissa x + exponent x * 2 ^ 24) = ⟨round x, false, false⟩ := by
  have hm := mantissa_lt x
  obtain ⟨he, hb⟩ := exponent_bound hx
  have hs : (mantissa x + exponent x * 2 ^ 24) / 2 ^ 24 = exponent x := by omega
  have hw : (mantissa x + exponent x * 2 ^ 24) % 2 ^ 23 = mantissa x := by omega
  ext
  · rw [value_setCompact, hs, hw, mantissa_mul, mod_eq_of_lt ((round_le x).trans_lt hx)]
  · have ha : (mantissa x + exponent x * 2 ^ 24) &&& 0x00800000 = 0 := by
      rw [show 0x00800000 = 2 ^ 23 from rfl, and_two_pow, testBit_eq_decide_div_mod_eq,
        decide_eq_false (by omega)]
      rfl
    exact decide_eq_false fun h => h.2 ha
  · have ha := and_two_pow_sub_one_eq_mod (mantissa x + exponent x * 2 ^ 24) 23
    simp only [setCompact, shiftRight_eq_div_pow, hs, decide_eq_false_iff_not]
    rw [show 0x007fffff = 2 ^ 23 - 1 from rfl, ha, hw]
    split_ifs <;> omega

lemma round_of_mul {w k : Nat} (hw : w < 2 ^ 23) : round (w * 2 ^ (8 * k)) = w * 2 ^ (8 * k) := by
  have hl : w * 2 ^ (8 * k) < 2 ^ (8 * (k + 3) - 1) := by
    rw [← two_pow_mul (show 23 + 8 * k = 8 * (k + 3) - 1 by omega)]
    exact mul_lt_mul_of_pos_right hw (by positivity)
  have he := exponent_le.2 hl
  exact Nat.div_mul_cancel (dvd_mul_of_dvd_right (pow_dvd_pow 2 (by omega)) w)

lemma mul_two_pow_mod (w j k : Nat) : w * 2 ^ j % 2 ^ k = w % 2 ^ (k - j) * 2 ^ j := by
  rcases le_total j k with h | h
  · rw [← two_pow_mul (Nat.sub_add_cancel h), mul_mod_mul_right]
  · rw [Nat.sub_eq_zero_of_le h, pow_zero, mod_one, zero_mul]
    exact mod_eq_zero_of_dvd (dvd_mul_of_dvd_right (pow_dvd_pow 2 h) w)

/-- Also with an overflow, the number is a small word that is shifted. -/
lemma round_value (n : Nat) : round (setCompact n).value = (setCompact n).value := by
  have hl : n % 2 ^ 23 < 2 ^ 23 := mod_lt n (by positivity)
  rw [value_setCompact, unscale_eq]
  split_ifs
  · refine round_of_le (exponent_le.2 ?_)
    exact (mod_le _ _).trans_lt ((div_le_self _ _).trans_lt hl)
  · rw [mul_two_pow_mod]
    exact round_of_mul ((mod_le _ _).trans_lt hl)

end

/-- Encoding rounds down, by little and monotonically, and loses nothing of what was decoded. -/
theorem compact_roundTrip :
    (∀ x < 2 ^ 256, ∃ nCompact < 2 ^ 32, getCompact x false = some nCompact ∧
      ∃ y, setCompact nCompact = ⟨y, false, false⟩ ∧ y ≤ x ∧ (x - y) * 2 ^ 15 ≤ x ∧
        getCompact y false = some nCompact) ∧
    (∀ x y, x ≤ y → y < 2 ^ 256 → ∀ c c', getCompact x false = some c →
      getCompact y false = some c' → (setCompact c).value ≤ (setCompact c').value) ∧
    ∀ nCompact < 2 ^ 32, (setCompact nCompact).negative = false →
      (setCompact nCompact).overflow = false →
      ∃ c, getCompact (setCompact nCompact).value false = some c ∧
        setCompact c = ⟨(setCompact nCompact).value, false, false⟩ := by
  refine ⟨fun x hx => ?_, fun x y hxy hy c c' hc hc' => ?_, fun n _ _ _ => ?_⟩
  · have hm := mantissa_lt x
    have he := (exponent_bound hx).1
    have hr : round x < 2 ^ 256 := (round_le x).trans_lt hx
    refine ⟨_, ?_, getCompact_eq hx, round x, setCompact_eq hx, round_le x, sub_round_mul_le x, ?_⟩
    · omega
    · rw [getCompact_eq hr, mantissa_round, exponent_round]
  · rw [getCompact_eq (hxy.trans_lt hy)] at hc
    rw [getCompact_eq hy] at hc'
    cases hc
    cases hc'
    rw [setCompact_eq (hxy.trans_lt hy), setCompact_eq hy]
    exact round_mono hxy
  · have hv : (setCompact n).value < 2 ^ 256 := by
      rw [value_setCompact]
      exact mod_lt _ (by positivity)
    exact ⟨_, getCompact_eq hv, by rw [setCompact_eq hv, round_value]⟩

end Trivechain.Arith
