import Trivechain.Serialize.VarInt

/-!
# Bit sets as distances

`CFixedVarIntsBitSet` writes the distance of each set bit to the one before, and a zero at the end.
-/

open List

namespace Trivechain.Serialize

/-- The loop of `Serialize`, at a distance to the last set bit. -/
def writeOffsets : Nat → List Bool → List UInt8
  | _, [] => writeVarInt 0
  | d, true :: vec => writeVarInt d ++ writeOffsets 1 vec
  | d, false :: vec => writeOffsets (d + 1) vec

def serializeBits : List Bool → List UInt8 := writeOffsets 1

/-- The loop of `Unserialize`, none if it throws. Every round takes a byte, which bounds their
number. -/
def readOffsets (size : Nat) : Nat → Int → List Bool → List UInt8 → Option (List Bool × List UInt8)
  | 0, _, _, _ => none
  | rounds + 1, last, vec, s => do
    let (offset, s) ← readVarInt 32 s
    if offset = 0 then return (vec, s)
    let idx := (last + offset).bmod (2 ^ 32)
    -- a negative index is a large one in the comparison
    if idx < 0 ∨ size ≤ idx then none
    else if last ≠ -1 ∧ idx ≤ last then none
    else readOffsets size rounds idx (vec.set idx.toNat true) s

def unserializeBits (size : Nat) (s : List UInt8) : Option (List Bool × List UInt8) :=
  readOffsets size (s.length + 1) (-1) (replicate size false) s

section
variable {size rounds d : Nat} {pre vec vec' : List Bool} {s rest : List UInt8}

/-- The bits before are right, and those to come are false. -/
lemma readOffsets_write (hs : size < 2 ^ 31) (hl : pre.length + vec.length = size) (hd : 0 < d)
    (hp : d ≤ pre.length + 1) (hr : (writeOffsets d vec ++ rest).length < rounds) :
    readOffsets size rounds (pre.length - d) (pre ++ replicate vec.length false)
      (writeOffsets d vec ++ rest) = some (pre ++ vec, rest) := by
  obtain ⟨rounds, rfl⟩ := Nat.exists_eq_succ_of_ne_zero (Nat.ne_zero_of_lt hr)
  induction vec generalizing rounds d pre with
  | nil => simp [readOffsets, writeOffsets, readVarInt_writeVarInt]
  | cons b vec ih =>
    rw [length_cons] at hl
    cases b with
    | false =>
      have h := @ih (d + 1) (pre ++ [false]) (by simp; omega) (by omega) (by simp; omega) rounds hr
      simpa [writeOffsets, replicate_succ] using h
    | true =>
      have hpos : 0 < (writeVarInt d).length := by simp [writeVarInt_eq]
      rw [writeOffsets, append_assoc, length_append] at hr
      obtain ⟨rounds, rfl⟩ := Nat.exists_eq_succ_of_ne_zero (show rounds ≠ 0 by omega)
      have h := @ih 1 (pre ++ [true]) (by simp; omega) (by omega) (by simp) rounds (by omega)
      have hi : ((pre.length : Int) - d + d).bmod (2 ^ 32) = pre.length := by
        rw [sub_add_cancel]
        exact Int.bmod_eq_of_le (by omega) (by omega)
      rw [readOffsets, writeOffsets, append_assoc, readVarInt_writeVarInt (by omega)]
      simp only [Option.bind_eq_bind, Option.bind_some, hi]
      rw [if_neg (by omega), if_neg (by omega), if_neg (by omega)]
      simpa [replicate_succ] using h

lemma length_readOffsets {last : Int} (h : readOffsets size rounds last vec s = some (vec', rest)) :
    vec'.length = vec.length := by
  induction rounds generalizing last vec s with
  | zero => cases h
  | succ rounds ih =>
    obtain ⟨⟨offset, s'⟩, -, h⟩ := Option.bind_eq_some_iff.1 h
    simp only at h
    split_ifs at h
    · cases h
      rfl
    · simpa using ih h

end

/-- Bit sets are read back from what is written, and what is read has the right size. -/
theorem bits_roundTrip : (∀ vec : List Bool, vec.length < 2 ^ 31 → ∀ rest,
      unserializeBits vec.length (serializeBits vec ++ rest) = some (vec, rest)) ∧
    ∀ size s vec rest, unserializeBits size s = some (vec, rest) → vec.length = size := by
  refine ⟨fun vec hs rest => ?_, fun size s vec rest h => ?_⟩
  · exact @readOffsets_write vec.length _ 1 [] vec rest hs (by simp) (by decide) (by simp)
      (Nat.lt_succ_self _)
  · simpa using length_readOffsets h

end Trivechain.Serialize
