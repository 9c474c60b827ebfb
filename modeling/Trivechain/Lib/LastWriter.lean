import Mathlib

/-!
# Registers in which the last writer wins

A register keeps one value. A write replaces it if it is strictly newer, so among writes of the same
time the first one stays. What a register holds after all writes have arrived depends on their order
exactly when there are several latest ones.
-/

namespace Trivechain.LastWriter
open List
variable {α T : Type} [LinearOrder T] (time : α → T)

def keep (old : Option α) (m : α) : Option α :=
  match old with
  | none => some m
  | some a => if time m ≤ time a then some a else some m

/-- A write that nothing is newer than, and that is newer than what is there. -/
def Latest (old : Option α) (l : List α) (m : α) : Prop :=
  m ∈ l ∧ (∀ x ∈ l, time x ≤ time m) ∧ ∀ a, old = some a → time a < time m

variable {time} {old : Option α} {l l' : List α} {m : α}

lemma keep_of_le {a : α} (h : time m ≤ time a) : keep time (some a) m = some a := if_pos h

lemma keep_of_newer (h : ∀ a, old = some a → time a < time m) : keep time old m = some m := by
  cases old with
  | none => rfl
  | some a => exact if_neg (not_le.2 (h a rfl))

lemma foldl_keep_of_le {a : α} (h : ∀ x ∈ l, time x ≤ time a) :
    l.foldl (keep time) (some a) = some a := by
  induction l with
  | nil => rfl
  | cons x l ih =>
    rw [foldl_cons, keep_of_le (h x mem_cons_self)]
    exact ih fun y hy => h y (mem_cons_of_mem x hy)

variable (time) in
lemma foldl_keep_spec (old : Option α) (l : List α) :
    (l.foldl (keep time) old = old ∨ ∃ m ∈ l, l.foldl (keep time) old = some m ∧
      ∀ a, old = some a → time a < time m) ∧
    ∀ x ∈ l, ∃ a, l.foldl (keep time) old = some a ∧ time x ≤ time a := by
  induction l using reverseRecOn with
  | nil => exact ⟨.inl rfl, fun x hx => absurd hx not_mem_nil⟩
  | append_singleton l y ih =>
    obtain ⟨hf, hmx⟩ := ih
    rw [foldl_append, foldl_cons, foldl_nil]
    have hn : ∀ a, old = some a → ∃ b, l.foldl (keep time) old = some b ∧ time a ≤ time b := by
      rintro a rfl
      rcases hf with he | ⟨m, -, he, hm⟩
      · exact ⟨a, he, le_rfl⟩
      · exact ⟨m, he, (hm a rfl).le⟩
    by_cases hy : ∀ b, l.foldl (keep time) old = some b → time b < time y
    · rw [keep_of_newer hy]
      refine ⟨.inr ⟨y, by simp, rfl, fun a ha => ?_⟩, fun x hx => ⟨y, rfl, ?_⟩⟩
      · obtain ⟨b, hb, hab⟩ := hn a ha
        exact hab.trans_lt (hy b hb)
      · rcases mem_append.1 hx with hx | hx
        · obtain ⟨b, hb, hxb⟩ := hmx x hx
          exact (hxb.trans_lt (hy b hb)).le
        · rw [mem_singleton.1 hx]
    · obtain ⟨b, hb⟩ := not_forall.1 hy
      obtain ⟨hb, hyb⟩ := Classical.not_imp.1 hb
      rw [hb] at hf hmx ⊢
      rw [keep_of_le (not_lt.1 hyb)]
      refine ⟨hf.imp id fun ⟨m, hm, h⟩ => ⟨m, by simp [hm], h⟩, fun x hx => ?_⟩
      rcases mem_append.1 hx with hx | hx
      · exact hmx x hx
      · exact ⟨b, rfl, mem_singleton.1 hx ▸ not_lt.1 hyb⟩

variable (time) in
lemma foldl_keep_cases (old : Option α) (l : List α) :
    (l.foldl (keep time) old = old ∧ ∀ m, ¬ Latest time old l m) ∨
      ∃ m, l.foldl (keep time) old = some m ∧ Latest time old l m := by
  obtain ⟨hf, hmx⟩ := foldl_keep_spec time old l
  rcases hf with he | ⟨m, hm, he, hn⟩
  · refine .inl ⟨he, fun m hm => ?_⟩
    obtain ⟨a, ha, hl⟩ := hmx m hm.1
    exact absurd (hm.2.2 a (he ▸ ha)) (not_lt.2 hl)
  · refine .inr ⟨m, he, hm, fun x hx => ?_, hn⟩
    obtain ⟨a, ha, hl⟩ := hmx x hx
    rwa [Option.some.inj (he.symm.trans ha)]

lemma foldl_keep_cons (h : Latest time old l m) (hl : ∀ x ∈ l', x ∈ l) :
    (m :: l').foldl (keep time) old = some m := by
  rw [foldl_cons, keep_of_newer h.2.2]
  exact foldl_keep_of_le fun x hx => h.2.1 x (hl x hx)

lemma Latest.perm (h : Latest time old l m) (hp : l.Perm l') : Latest time old l' m :=
  ⟨hp.mem_iff.1 h.1, fun x hx => h.2.1 x (hp.mem_iff.2 hx), h.2.2⟩

lemma foldl_keep_perm (hp : l.Perm l')
    (ho : ∀ m m', Latest time old l m → Latest time old l m' → m = m') :
    l.foldl (keep time) old = l'.foldl (keep time) old := by
  rcases foldl_keep_cases time old l with ⟨he, hn⟩ | ⟨m, he, hm⟩ <;>
    rcases foldl_keep_cases time old l' with ⟨he', hn'⟩ | ⟨m', he', hm'⟩
  · rw [he, he']
  · exact absurd (hm'.perm hp.symm) (hn m')
  · exact absurd (hm.perm hp) (hn' m)
  · rw [he, he', ho m m' hm (hm'.perm hp.symm)]

end Trivechain.LastWriter
