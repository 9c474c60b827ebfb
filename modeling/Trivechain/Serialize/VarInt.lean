import Mathlib.Tactic

/-!
# Variable-length integers

Digits in base 128, the last one first in the buffer and all but the last one lowered by one. Every
number has one such encoding; a reader for a type of some bits also accepts encodings of numbers
that are too large for the type, and returns them modulo its size.
-/

open List Nat

namespace Trivechain.Serialize

def getSizeOfVarInt (n : Nat) : Nat :=
  if n ≤ 0x7F then 1 else getSizeOfVarInt ((n >>> 7) - 1) + 1
termination_by n
decreasing_by omega

/-- The buffer of `WriteVarInt` from some index on. The flag is 0x80 but for the index zero. -/
def varIntBuffer (flag n : Nat) : List UInt8 :=
  let digit := UInt8.ofNat ((n &&& 0x7F) ||| flag)
  if n ≤ 0x7F then [digit] else digit :: varIntBuffer 0x80 ((n >>> 7) - 1)
termination_by n
decreasing_by omega

def writeVarInt (n : Nat) : List UInt8 := (varIntBuffer 0x00 n).reverse

/-- The loop of `ReadVarInt`, with the bytes that are left. Numbers are stored by `wrap`. -/
def readDigits (wrap : Nat → Nat) (n : Nat) : List UInt8 → Option (Nat × List UInt8)
  | [] => none
  | chData :: s =>
    let n := wrap ((n <<< 7) ||| (chData.toNat &&& 0x7F))
    if chData.toNat &&& 0x80 ≠ 0 then readDigits wrap (wrap (n + 1)) s else some (n, s)

/-- `ReadVarInt` for an unsigned type of `width` bits. -/
def readVarInt (width : Nat) : List UInt8 → Option (Nat × List UInt8) :=
  readDigits (· % 2 ^ width) 0

def readNumber : List UInt8 → Option (Nat × List UInt8) := readDigits id 0

/-- The digits that lead a reader to the number `n` with more to come. -/
def leading (n : Nat) : List UInt8 := if n = 0 then [] else (varIntBuffer 0x80 (n - 1)).reverse

section
variable {n m k width : Nat} {bs rest : List UInt8}

lemma low_bits (n : Nat) : n &&& 0x7F = n % 128 := and_two_pow_sub_one_eq_mod n 7

lemma reverse_varIntBuffer (flag n : Nat) : (varIntBuffer flag n).reverse =
    leading (n / 128) ++ [UInt8.ofNat (n % 128 ||| flag)] := by
  rw [varIntBuffer, low_bits]
  by_cases hn : n ≤ 0x7F
  · rw [if_pos hn, leading, if_pos (div_eq_of_lt (by omega))]
    rfl
  · have hq : n / 128 ≠ 0 := by omega
    rw [if_neg hn, leading, if_neg hq, reverse_cons, shiftRight_eq_div_pow]

lemma leading_succ (n : Nat) :
    leading (n + 1) = leading (n / 128) ++ [UInt8.ofNat (n % 128 + 128)] := by
  have hd := two_pow_add_eq_or_of_lt (i := 7) (mod_lt n (by decide)) 1
  rw [add_comm (n % 128), leading, if_neg n.succ_ne_zero]
  rw [Nat.or_comm] at hd
  exact (reverse_varIntBuffer 0x80 n).trans (hd ▸ rfl)

lemma writeVarInt_eq (n : Nat) : writeVarInt n = leading (n / 128) ++ [UInt8.ofNat (n % 128)] := by
  rw [writeVarInt, reverse_varIntBuffer, or_zero]

lemma readDigits_cons (wrap : Nat → Nat) (n : Nat) (c : UInt8) (s : List UInt8) :
    readDigits wrap n (c :: s) = if 128 ≤ c.toNat
      then readDigits wrap (wrap (wrap (128 * n + c.toNat % 128) + 1)) s
      else some (wrap (128 * n + c.toNat % 128), s) := by
  have hb : c.toNat &&& 0x80 ≠ 0 ↔ 128 ≤ c.toNat := by
    have hc : ∀ c < 256, c &&& 0x80 ≠ 0 ↔ 128 ≤ c := by decide +kernel
    exact hc _ c.toNat_lt
  have hn : (n <<< 7) ||| (c.toNat &&& 0x7F) = 128 * n + c.toNat % 128 := by
    rw [low_bits, shiftLeft_eq, mul_comm]
    exact (two_pow_add_eq_or_of_lt (i := 7) (mod_lt _ (by decide)) n).symm
  rw [readDigits, hn]
  exact if_congr hb rfl rfl

lemma readNumber_leading (n : Nat) (s : List UInt8) :
    readNumber (leading n ++ s) = readDigits id n s := by
  induction n using Nat.strongRecOn generalizing s with
  | ind n ih =>
    cases n with
    | zero => rfl
    | succ n =>
      have hc : (UInt8.ofNat (n % 128 + 128)).toNat = n % 128 + 128 :=
        UInt8.toNat_ofNat_of_lt' (by show _ < 256; omega)
      rw [leading_succ, append_assoc, ih (n / 128) (by omega), singleton_append,
        readDigits_cons, hc, if_pos (by omega)]
      congr 1
      simp only [id]
      omega

lemma readNumber_writeVarInt (n : Nat) (rest : List UInt8) :
    readNumber (writeVarInt n ++ rest) = some (n, rest) := by
  have hc : (UInt8.ofNat (n % 128)).toNat = n % 128 :=
    UInt8.toNat_ofNat_of_lt' (by show _ < 256; omega)
  rw [writeVarInt_eq, append_assoc, readNumber_leading, singleton_append,
    readDigits_cons, hc, if_neg (by omega)]
  simp only [id, Option.some.injEq, Prod.mk.injEq, and_true]
  omega

/-- What has been read and what is left are the encoding with the rest. -/
lemma eq_of_readDigits (h : readDigits id n bs = some (m, rest)) :
    leading n ++ bs = writeVarInt m ++ rest := by
  induction bs generalizing n with
  | nil => cases h
  | cons c s ih =>
    have hc := c.toNat_lt
    rw [readDigits_cons] at h
    simp only [id] at h
    split_ifs at h with hb
    · have hi := ih h
      rw [leading_succ, show (128 * n + c.toNat % 128) / 128 = n by omega,
        show (128 * n + c.toNat % 128) % 128 + 128 = c.toNat by omega, UInt8.ofNat_toNat,
        append_assoc] at hi
      exact hi
    · obtain ⟨rfl, rfl⟩ := Prod.mk.inj (Option.some.inj h)
      rw [writeVarInt_eq, show (128 * n + c.toNat % 128) / 128 = n by omega,
        show (128 * n + c.toNat % 128) % 128 = c.toNat by omega, UInt8.ofNat_toNat,
        append_assoc]
      rfl

lemma readDigits_mod (width n : Nat) (s : List UInt8) :
    readDigits (· % 2 ^ width) (n % 2 ^ width) s =
      (readDigits id n s).map (Prod.map (· % 2 ^ width) id) := by
  induction s generalizing n with
  | nil => rfl
  | cons c s ih =>
    have hm : (128 * (n % 2 ^ width) + c.toNat % 128) % 2 ^ width =
        (128 * n + c.toNat % 128) % 2 ^ width := by simp [add_mod, mul_mod]
    rw [readDigits_cons, readDigits_cons, hm]
    split_ifs with hb
    · rw [mod_add_mod, ih]
      rfl
    · rfl

/-- A reader returns what the bytes stand for modulo the size of its type. -/
lemma readVarInt_eq (width : Nat) (s : List UInt8) :
    readVarInt width s = (readNumber s).map (Prod.map (· % 2 ^ width) id) := by
  have h := readDigits_mod width 0 s
  rw [zero_mod] at h
  exact h

lemma readVarInt_writeVarInt (hn : n < 2 ^ width) (rest : List UInt8) :
    readVarInt width (writeVarInt n ++ rest) = some (n, rest) := by
  rw [readVarInt_eq, readNumber_writeVarInt]
  simp only [Option.map_some, Prod.map_apply, id, mod_eq_of_lt hn]

lemma length_varIntBuffer (flag n : Nat) : (varIntBuffer flag n).length = getSizeOfVarInt n := by
  induction n using Nat.strongRecOn generalizing flag with
  | ind n ih =>
    rw [varIntBuffer, getSizeOfVarInt]
    by_cases hn : n ≤ 0x7F
    · rw [if_pos hn, if_pos hn]
      rfl
    · rw [if_neg hn, if_neg hn, length_cons, ih _ (by omega)]

lemma getSizeOfVarInt_le (h : n < 2 ^ (7 * (k + 1))) : getSizeOfVarInt n ≤ k + 1 := by
  induction k generalizing n with
  | zero =>
    rw [getSizeOfVarInt, if_pos (by omega)]
  | succ k ih =>
    rw [getSizeOfVarInt]
    split_ifs with hn
    · omega
    · have hp : 2 ^ (7 * (k + 1 + 1)) = 128 * 2 ^ (7 * (k + 1)) := by ring
      have hs := @ih ((n >>> 7) - 1) (by omega)
      omega

end

/-- Numbers of a type are read back from their encodings, which fit into the buffer. Accepted bytes
are the encoding of the number returned exactly if they stand for a number of the type. -/
theorem varInt_roundTrip (width : Nat) (hw : 0 < width) :
    (∀ n < 2 ^ width, ∀ rest, (writeVarInt n).length = getSizeOfVarInt n ∧
      getSizeOfVarInt n ≤ (width + 6) / 7 ∧
      readVarInt width (writeVarInt n ++ rest) = some (n, rest)) ∧
    ∀ bs n rest, readVarInt width bs = some (n, rest) →
      (bs = writeVarInt n ++ rest ↔ ∃ v < 2 ^ width, readNumber bs = some (v, rest)) := by
  refine ⟨fun n hn rest => ⟨?_, ?_, ?_⟩, fun bs n rest h => ⟨?_, ?_⟩⟩
  · rw [writeVarInt, length_reverse, length_varIntBuffer]
  · obtain ⟨k, hk⟩ : ∃ k, (width + 6) / 7 = k + 1 := ⟨(width + 6) / 7 - 1, by omega⟩
    rw [hk]
    exact getSizeOfVarInt_le (hn.trans_le (Nat.pow_le_pow_right (by decide) (by omega)))
  · rw [readVarInt_eq, readNumber_writeVarInt]
    simp [mod_eq_of_lt hn]
  · rintro rfl
    rw [readVarInt_eq, readNumber_writeVarInt] at h
    simp only [Option.map_some, Prod.map_apply, Option.some.injEq, Prod.mk.injEq] at h
    exact ⟨n, h.1 ▸ mod_lt n (by positivity), readNumber_writeVarInt n rest⟩
  · rintro ⟨v, hv, hr⟩
    rw [readVarInt_eq, hr] at h
    simp only [Option.map_some, Prod.map_apply, mod_eq_of_lt hv, Option.some.injEq,
      Prod.mk.injEq] at h
    obtain ⟨rfl, -⟩ := h
    exact eq_of_readDigits hr

theorem varInt_roundTrip_byte : readVarInt 8 (writeVarInt 200 ++ []) = some (200, []) :=
  ((varInt_roundTrip 8 (by decide)).1 200 (by decide) []).2.2

/-- These bytes stand for 256. -/
theorem zero_of_two_bytes : readVarInt 8 [0x81, 0x00] = some (0, []) ∧
    [0x81, 0x00] ≠ writeVarInt 0 ++ [] := by
  refine ⟨by decide, ?_⟩
  rw [writeVarInt_eq]
  decide

end Trivechain.Serialize
