import Trivechain.Lib.Maps

/-!
# Reachability in a changing graph

A relation from children to parents on finitely many nodes. What can be reached from a node is
computed with a *stage* of nodes that are still to be visited; what is reachable afterwards is known
when a node without children is added, and when a set of nodes is removed that is closed in one of
the two directions.
-/

namespace Trivechain.Dag
open Relation (TransGen ReflTransGen)
open Std (ExtTreeSet TransOrd LawfulEqOrd)

section Search
variable {α : Type} [Ord α] [TransOrd α] [LawfulEqOrd α] {R : α → α → Prop}
  {start : α → Prop} {stage stage' seen : ExtTreeSet α} {x y : α}

structure Front (R : α → α → Prop) (start : α → Prop) (stage seen : ExtTreeSet α) : Prop where
  fresh : ∀ x, x ∈ stage → x ∉ seen
  started : ∀ x, start x → x ∈ seen ∨ x ∈ stage
  closed : ∀ x y, x ∈ seen → R x y → y ∈ seen ∨ y ∈ stage
  reached : ∀ y, y ∈ seen ∨ y ∈ stage → ∃ x, start x ∧ ReflTransGen R x y

namespace Front

omit [LawfulEqOrd α] in
lemma initial (h : ∀ x, x ∈ stage ↔ start x) : Front R start stage ∅ where
  fresh _ _ := ExtTreeSet.not_mem_empty
  started x hx := .inr ((h x).2 hx)
  closed _ _ hx _ := absurd hx ExtTreeSet.not_mem_empty
  reached y hy := ⟨y, (h y).1 (hy.resolve_left ExtTreeSet.not_mem_empty), .refl⟩

variable (h : Front R start stage seen)
include h

lemma visit (hx : x ∈ stage)
    (ht : ∀ y, y ∈ stage' ↔ (y ∈ stage ∧ y ≠ x) ∨ (R x y ∧ y ∉ seen.insert x)) :
    Front R start stage' (seen.insert x) := by
  have hm : ∀ y, y ∈ seen.insert x ↔ y = x ∨ y ∈ seen := fun _ => Maps.mem_insert
  refine ⟨fun y hy => ?_, fun y hy => ?_, fun y z hy hyz => ?_, fun y hy => ?_⟩
  · rcases (ht y).1 hy with ⟨hy, hn⟩ | ⟨-, hy⟩
    · rw [hm]
      exact fun ho => ho.elim hn (h.fresh y hy)
    · exact hy
  · rw [hm, ht]
    by_cases hyx : y = x
    · exact .inl (.inl hyx)
    · exact (h.started y hy).imp .inr fun hy => .inl ⟨hy, hyx⟩
  · rw [ht]
    by_cases hz : z ∈ seen.insert x
    · exact .inl hz
    · rw [hm, not_or] at hz
      rcases (hm y).1 hy with rfl | hy
      · exact .inr (.inr ⟨hyz, by rw [hm]; tauto⟩)
      · exact .inr (.inl ⟨(h.closed y z hy hyz).resolve_left hz.2, hz.1⟩)
  · rw [hm, ht] at hy
    rcases hy with (rfl | hy) | ⟨hy, -⟩ | ⟨hxy, -⟩
    · exact h.reached y (.inr hx)
    · exact h.reached y (.inl hy)
    · exact h.reached y (.inr hy)
    · obtain ⟨s, hs, hp⟩ := h.reached x (.inr hx)
      exact ⟨s, hs, hp.tail hxy⟩

omit [LawfulEqOrd α] in
lemma mem_iff (he : ∀ x, x ∉ stage) : y ∈ seen ↔ ∃ x, start x ∧ ReflTransGen R x y := by
  constructor
  · exact fun hy => h.reached y (.inl hy)
  · rintro ⟨x, hx, hp⟩
    induction hp with
    | refl => exact (h.started x hx).resolve_right (he x)
    | tail _ hs ih => exact (h.closed _ _ ih hs).resolve_right (he _)

lemma card_lt [DecidableEq α] (hx : x ∈ stage) {nodes : Finset α} (hn : x ∈ nodes) :
    {y ∈ nodes | y ∉ seen.insert x}.card < {y ∈ nodes | y ∉ seen}.card := by
  refine Finset.card_lt_card (Finset.ssubset_iff_of_subset ?_ |>.2 ⟨x, ?_, ?_⟩)
  · intro y hy
    rw [Finset.mem_filter, ExtTreeSet.mem_insert] at hy
    exact Finset.mem_filter.2 ⟨hy.1, fun hs => hy.2 (.inr hs)⟩
  · exact Finset.mem_filter.2 ⟨hn, h.fresh x hx⟩
  · simp

end Front
end Search

section Change
variable {α : Type} {R R' : α → α → Prop} {x y n : α}

lemma transGen_insert {P : α → Prop} (hf : ∀ x, ¬ R x n) (hP : ¬ P n)
    (hR : ∀ x y, R' x y ↔ R x y ∨ (x = n ∧ P y)) :
    TransGen R' x y ↔ TransGen R x y ∨ (x = n ∧ ∃ p, P p ∧ ReflTransGen R p y) := by
  have hold : ∀ a b, R a b → R' a b := fun a b ha => (hR a b).2 (.inl ha)
  constructor
  · intro h
    induction h with
    | single h =>
      rcases (hR x _).1 h with h | ⟨rfl, hp⟩
      · exact .inl (.single h)
      · exact .inr ⟨rfl, _, hp, .refl⟩
    | @tail b c _ hb ih =>
      -- the new node is nobody's parent, so the last step is an old one
      have hl : R b c := by
        rcases (hR b c).1 hb with h | ⟨rfl, -⟩
        · exact h
        · exfalso
          rcases ih with h | ⟨-, p, hp, ht⟩
          · obtain ⟨c, -, hc⟩ := TransGen.tail'_iff.1 h
            exact hf c hc
          · rcases ht.cases_tail with rfl | ⟨c, -, hc⟩
            · exact hP hp
            · exact hf c hc
      rcases ih with h | ⟨rfl, p, hp, ht⟩
      · exact .inl (h.tail hl)
      · exact .inr ⟨rfl, p, hp, ht.tail hl⟩
  · rintro (h | ⟨rfl, p, hp, ht⟩)
    · exact TransGen.mono hold _ _ h
    · exact TransGen.head' ((hR x p).2 (.inr ⟨rfl, hp⟩)) (ReflTransGen.mono hold _ _ ht)

/-- A set that contains the children of its members, or their parents. -/
def OneSided (R : α → α → Prop) (S : α → Prop) : Prop :=
  (∀ x y, R x y → S y → S x) ∨ (∀ x y, R x y → S x → S y)

lemma transGen_remove {S : α → Prop} (hS : OneSided R S)
    (hR : ∀ x y, R' x y ↔ R x y ∧ ¬ S x ∧ ¬ S y) :
    TransGen R' x y ↔ TransGen R x y ∧ ¬ S x ∧ ¬ S y := by
  constructor
  · intro h
    induction h with
    | single h => exact ⟨.single ((hR x _).1 h).1, ((hR x _).1 h).2⟩
    | tail _ h ih => exact ⟨ih.1.tail ((hR _ _).1 h).1, ih.2.1, ((hR _ _).1 h).2.2⟩
  · rintro ⟨h, hx, hy⟩
    induction h with
    | single h => exact .single ((hR x _).2 ⟨h, hx, hy⟩)
    | @tail b c hxb hc ih =>
      have hb : ¬ S b := by
        intro hb
        rcases hS with hd | hu
        · have ha : ∀ {a}, TransGen R a b → S a := fun hab => by
            induction hab using TransGen.head_induction_on with
            | single h => exact hd _ _ h hb
            | head h _ ih => exact hd _ _ h ih
          exact hx (ha hxb)
        · exact hy (hu _ _ hc hb)
      exact (ih hb).tail ((hR b c).2 ⟨hc, hb, hy⟩)

end Change
end Trivechain.Dag
