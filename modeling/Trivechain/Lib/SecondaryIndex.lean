import Mathlib

/-!
# Secondary indexes

A store holds records under primary keys, and an index leads from the keys that a record has
to its primary key. The index is *exact* if its entries are the ones of the stored records.
Then no two records share a key. Removals keep an exact index exact; an addition does
exactly when no stored record has a key of the new one.
-/

namespace Trivechain
variable {P R K : Type}

/-- The entries of the index are the keys of the stored records. -/
def ExactIndex (Has : R → K → Prop) (stored : P → Option R) (index : K → Option P) : Prop :=
  ∀ k p, index k = some p ↔ ∃ r, stored p = some r ∧ Has r k

namespace ExactIndex
variable {Has : R → K → Prop} {st stored' : P → Option R} {index index' : K → Option P}

section
variable (h : ExactIndex Has st index)
include h

lemma eq_of_has {p p' : P} {r r' : R} {k : K}
    (hp : st p = some r) (hr : Has r k) (hp' : st p' = some r') (hr' : Has r' k) :
    p = p' := by
  have h1 := (h k p).2 ⟨r, hp, hr⟩
  have h2 := (h k p').2 ⟨r', hp', hr'⟩
  exact Option.some.inj (h1.symm.trans h2)

lemma remove {gone : P → R → Prop} (hgn : ∀ p r, gone p r → st p = some r)
    (hs : ∀ p r, stored' p = some r ↔ st p = some r ∧ ∀ r', ¬ gone p r')
    (hi : ∀ k p, index' k = some p ↔ index k = some p ∧ ∀ p' r', gone p' r' → ¬ Has r' k) :
    ExactIndex Has stored' index' := by
  intro k p
  rw [hi, h k p]
  constructor
  · rintro ⟨⟨r, hr, hk⟩, hn⟩
    refine ⟨r, (hs p r).2 ⟨hr, fun r' hg => ?_⟩, hk⟩
    obtain rfl := Option.some.inj (hr.symm.trans (hgn p r' hg))
    exact hn p r hg hk
  · rintro ⟨r, hr, hk⟩
    obtain ⟨hr, hn⟩ := (hs p r).1 hr
    refine ⟨⟨r, hr, hk⟩, fun p' r' hg hk' => ?_⟩
    obtain rfl := h.eq_of_has hr hk (hgn p' r' hg) hk'
    exact hn r' hg

lemma add {p0 : P} {r0 : R} (hn : st p0 = none) (hf : ∀ p r k, st p = some r → Has r0 k → ¬ Has r k)
    (hs : ∀ p r, stored' p = some r ↔ (p = p0 ∧ r = r0) ∨ (p ≠ p0 ∧ st p = some r))
    (hi : ∀ k p, index' k = some p ↔ (Has r0 k ∧ p = p0) ∨ (¬ Has r0 k ∧ index k = some p)) :
    ExactIndex Has stored' index' := by
  intro k p
  rw [hi, h k p]
  constructor
  · rintro (⟨hk, rfl⟩ | ⟨-, r, hr, hk⟩)
    · exact ⟨r0, (hs p r0).2 (.inl ⟨rfl, rfl⟩), hk⟩
    · refine ⟨r, (hs p r).2 (.inr ⟨?_, hr⟩), hk⟩
      rintro rfl
      rw [hn] at hr
      cases hr
  · rintro ⟨r, hr, hk⟩
    rcases (hs p r).1 hr with ⟨rfl, rfl⟩ | ⟨-, hr⟩
    · exact .inl ⟨hk, rfl⟩
    · exact .inr ⟨fun hk0 => hf p r k hr hk0 hk, r, hr, hk⟩

end

variable [DecidableEq P] {p0 : P} {r0 : R}

lemma update_some (h : ExactIndex Has st index) (hn : st p0 = none)
    (hf : ∀ p r k, st p = some r → Has r0 k → ¬ Has r k) (hi : ∀ k p, index' k = some p ↔
      (Has r0 k ∧ p = p0) ∨ (¬ Has r0 k ∧ index k = some p)) :
    ExactIndex Has (Function.update st p0 (some r0)) index' := by
  refine h.add hn hf (fun p r => ?_) hi
  by_cases hp : p = p0
  · simp [hp, eq_comm]
  · simp [hp]

lemma update_none (h : ExactIndex Has st index) (hold : st p0 = some r0)
    (hi : ∀ k p, index' k = some p ↔ index k = some p ∧ ¬ Has r0 k) :
    ExactIndex Has (Function.update st p0 none) index' := by
  have hg : ∀ p r, p = p0 ∧ r = r0 → st p = some r := by
    rintro p r ⟨rfl, rfl⟩
    exact hold
  refine h.remove hg (fun p r => ?_) fun k p => ?_
  · by_cases hp : p = p0
    · simp [hp]
    · simp [hp]
  · simp [hi]

end ExactIndex
end Trivechain
