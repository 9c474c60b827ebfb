import Mathlib

/-!
# Loops that may not end

A loop is given by what one round does: it goes on with another state, or it finishes with a
result. It *yields* a result if it finishes with it after some number of rounds. A loop that gets
into a set of states which no round leaves yields nothing.
-/

namespace Trivechain.Loop
variable {σ α : Type} {round : σ → σ ⊕ α} {s s' : σ} {a b : α}

def runFor (round : σ → σ ⊕ α) : Nat → σ → Option α
  | 0, _ => none
  | n + 1, s =>
    match round s with
    | .inl s' => runFor round n s'
    | .inr a => some a

def Yields (round : σ → σ ⊕ α) (s : σ) (a : α) : Prop := ∃ n, runFor round n s = some a

lemma yields_iff_of_continue (h : round s = .inl s') : Yields round s a ↔ Yields round s' a := by
  constructor
  · rintro ⟨n, hn⟩
    cases n with
    | zero => cases hn
    | succ n =>
      rw [runFor, h] at hn
      exact ⟨n, hn⟩
  · rintro ⟨n, hn⟩
    refine ⟨n + 1, ?_⟩
    rw [runFor, h]
    exact hn

lemma yields_iff_of_finish (h : round s = .inr a) : Yields round s b ↔ b = a := by
  constructor
  · rintro ⟨n, hn⟩
    cases n with
    | zero => cases hn
    | succ n =>
      rw [runFor, h] at hn
      exact (Option.some.inj hn).symm
  · rintro rfl
    refine ⟨1, ?_⟩
    rw [runFor, h]

lemma not_yields_of_closed (I : σ → Prop)
    (hc : ∀ s, I s → ∃ s', round s = .inl s' ∧ I s') (hs : I s) : ¬ Yields round s a := by
  rintro ⟨n, hn⟩
  induction n generalizing s with
  | zero => cases hn
  | succ n ih =>
    obtain ⟨s', hr, hs'⟩ := hc s hs
    rw [runFor, hr] at hn
    exact ih hs' hn

end Trivechain.Loop
