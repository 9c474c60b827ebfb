import Trivechain.Lib.Run

/-!
# Simulation of runs

`Sim R x y`: the runs `x` and `y` end in the same way, and when they end in values these
are related by `R`. Sequences and loops of runs that simulate each other do so as well.
-/

namespace Trivechain.Run
variable {α β γ δ ι : Type} {R : α → β → Prop} {S : γ → δ → Prop}

def Sim (R : α → β → Prop) : Run α → Run β → Prop
  | .ok a, .ok b => R a b
  | .error e, .error e' => e = e'
  | _, _ => False

namespace Sim

lemma ok {a : α} {b : β} (h : R a b) : Sim R (.ok a) (.ok b) := h

lemma error (e : Stop) : Sim R (.error e) (.error e) := rfl

variable {x : Run α} {y : Run β}

section
variable (h : Sim R x y)
include h

lemma of_ok_left {a : α} (hx : x = .ok a) : ∃ b, y = .ok b ∧ R a b := by
  subst hx
  cases y with
  | ok b => exact ⟨b, rfl, h⟩
  | error e => exact h.elim

lemma of_ok_right {b : β} (hy : y = .ok b) : ∃ a, x = .ok a ∧ R a b := by
  subst hy
  cases x with
  | ok a => exact ⟨a, rfl, h⟩
  | error e => exact h.elim

lemma error_iff {e : Stop} : x = .error e ↔ y = .error e := by
  cases x <;> cases y <;> simp_all [Sim]

lemma returns_iff : Returns x ↔ Returns y := by
  simp only [Returns, ne_eq, h.error_iff]

lemma bind {f : α → Run γ} {g : β → Run δ} (hf : ∀ a b, R a b → Sim S (f a) (g b)) :
    Sim S (x >>= f) (y >>= g) := by
  cases x <;> cases y
  · exact h
  · exact h.elim
  · exact h.elim
  · exact hf _ _ h

end

lemma bind_same {x : Run ι} {f : ι → Run γ} {g : ι → Run δ}
    (hf : ∀ i, x = .ok i → Sim S (f i) (g i)) : Sim S (x >>= f) (x >>= g) := by
  cases x with
  | error e => exact rfl
  | ok i => exact hf i rfl

lemma foldlM {f : α → ι → Run α} {g : β → ι → Run β} :
    ∀ (l : List ι), (∀ a b, ∀ i ∈ l, R a b → Sim R (f a i) (g b i)) →
      ∀ a b, R a b → Sim R (l.foldlM f a) (l.foldlM g b) := by
  intro l
  induction l with
  | nil => exact fun _ a b h => h
  | cons i l ih =>
    intro hs a b ha
    simp only [List.foldlM_cons]
    refine (hs a b i (by simp) ha).bind fun a' b' ha' => ?_
    exact ih (fun a b j hj => hs a b j (by simp [hj])) a' b' ha'

end Sim
end Trivechain.Run
