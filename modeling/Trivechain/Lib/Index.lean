import Trivechain.Lib.Run
import Trivechain.Lib.Maps

/-!
# Owner indexes

An index from keys to their owner, with a count of how many times the owner holds the
key. A key may have one owner only: adding it for another, and deleting it for anyone
who does not hold it, fails.

`Holds idx keys` says that the index is exactly the one of the keys that each owner
holds. Adding and deleting keep it, and they fail exactly when the keys held do not
allow them.
-/

namespace Trivechain
open Std (ExtTreeMap TransOrd LawfulEqOrd)
open Function

abbrev OwnerIndex (K O : Type) [Ord K] := ExtTreeMap K (O × Nat)

namespace OwnerIndex
variable {K O : Type} [Ord K] [TransOrd K] [LawfulEqOrd K] [DecidableEq K] [DecidableEq O]

def add (idx : OwnerIndex K O) (k : K) (o : O) : Run (OwnerIndex K O) :=
  match idx[k]? with
  | none => .ok (idx.insert k (o, 1))
  | some e => if e.1 = o then .ok (idx.insert k (o, e.2 + 1)) else .error (.fault .assertion)

def delete (idx : OwnerIndex K O) (k : K) (o : O) : Run (OwnerIndex K O) :=
  match idx[k]? with
  | none => .error (.fault .assertion)
  | some e =>
    if e.1 = o then
      if e.2 = 1 then .ok (idx.erase k) else .ok (idx.insert k (o, e.2 - 1))
    else .error (.fault .assertion)

omit [LawfulEqOrd K] [DecidableEq K] in
lemma add_error {idx : OwnerIndex K O} {k : K} {o : O} {e : Stop} (h : idx.add k o = .error e) :
    e = .fault .assertion := by
  unfold add at h
  grind

omit [LawfulEqOrd K] [DecidableEq K] in
lemma delete_error {idx : OwnerIndex K O} {k : K} {o : O} {e : Stop}
    (h : idx.delete k o = .error e) : e = .fault .assertion := by
  unfold delete at h
  grind

/-- The index of `keys`, the keys that each owner holds. -/
def Holds (idx : OwnerIndex K O) (keys : O → List K) : Prop :=
  ∀ k o c, idx[k]? = some (o, c) ↔ 0 < c ∧ (keys o).count k = c

omit [LawfulEqOrd K] [DecidableEq O] in
lemma holds_empty : Holds (∅ : OwnerIndex K O) fun _ => [] := by
  intro k o c
  simp only [ExtTreeMap.getElem?_empty, List.count_nil]
  constructor
  · nofun
  · omega

namespace Holds
variable {idx : OwnerIndex K O} {keys : O → List K} (h : Holds idx keys)
include h

variable {k : K} {o : O}

omit [LawfulEqOrd K] [DecidableEq O] in
lemma getElem?_of_mem (hk : k ∈ keys o) : idx[k]? = some (o, (keys o).count k) :=
  (h k o _).2 ⟨List.count_pos_iff.2 hk, rfl⟩

omit [LawfulEqOrd K] [DecidableEq O] in
lemma mem_of_getElem? {e : O × Nat} (he : idx[k]? = some e) :
    k ∈ keys e.1 ∧ (keys e.1).count k = e.2 := by
  obtain ⟨hp, hc⟩ := (h k e.1 e.2).1 he
  exact ⟨List.count_pos_iff.1 (hc ▸ hp), hc⟩

omit [LawfulEqOrd K] [DecidableEq O] in
lemma getElem?_eq_none : idx[k]? = none ↔ ∀ o, k ∉ keys o := by
  constructor
  · intro hn o hk
    simp [h.getElem?_of_mem hk] at hn
  · intro hk
    cases he : idx[k]? with
    | none => rfl
    | some e => exact absurd (h.mem_of_getElem? he).1 (hk e.1)

omit [LawfulEqOrd K] [DecidableEq O] in
lemma unique {o' : O} (ho : k ∈ keys o) (ho' : k ∈ keys o') : o = o' := by
  have := (h.getElem?_of_mem ho).symm.trans (h.getElem?_of_mem ho')
  exact (Prod.mk.inj (Option.some.inj this)).1

omit [DecidableEq O] in
lemma ext {idx' : OwnerIndex K O} (h' : Holds idx' keys) : idx = idx' := by
  refine ExtTreeMap.ext_getElem? fun k => Option.ext fun e => ?_
  rw [h k e.1 e.2, h' k e.1 e.2]

omit [LawfulEqOrd K] [DecidableEq O] in
lemma perm {keys' : O → List K} (hp : ∀ o, (keys o).Perm (keys' o)) : Holds idx keys' := by
  intro k o c
  rw [h k o c, (hp o).count_eq]

omit [LawfulEqOrd K] in
lemma set {ks : List K} (hn : ∀ o', k ∈ keys o' → o' = o)
    (hh : ∀ k', k' ≠ k → ks.count k' = (keys o).count k') {idx' : OwnerIndex K O}
    (hk : idx'[k]? = if ks.count k = 0 then none else some (o, ks.count k))
    (hr : ∀ k', k' ≠ k → idx'[k']? = idx[k']?) : Holds idx' (update keys o ks) := by
  intro k' o' c
  by_cases hkk : k' = k
  · subst hkk
    rw [hk]
    by_cases ho : o' = o
    · subst ho
      rw [update_self]
      split <;> simp <;> omega
    · rw [update_of_ne ho]
      have hz : (keys o').count k' = 0 := List.count_eq_zero.2 fun hm => ho (hn o' hm)
      rw [hz]
      split <;> simp <;> grind
  · rw [hr k' hkk, h k' o' c]
    by_cases ho : o' = o
    · subst ho
      rw [update_self, hh k' hkk]
    · rw [update_of_ne ho]

lemma add_spec (ho : ∀ o', k ∈ keys o' → o' = o) :
    ∃ idx', idx.add k o = .ok idx' ∧ Holds idx' (update keys o (k :: keys o)) := by
  have hh : ∀ k', k' ≠ k → (k :: keys o).count k' = (keys o).count k' := fun k' hk' =>
    List.count_cons_of_ne (Ne.symm hk')
  have hr : ∀ c k', k' ≠ k → (idx.insert k (o, c))[k']? = idx[k']? := by
    intro c k' hk'
    rw [Maps.getElem?_insert, if_neg hk']
  cases he : idx[k]? with
  | none =>
    refine ⟨_, by simp [add, he], h.set ho hh ?_ (hr 1)⟩
    have hn := h.getElem?_eq_none.1 he o
    simp [List.count_eq_zero.2 hn]
  | some e =>
    obtain ⟨hm, hc⟩ := h.mem_of_getElem? he
    obtain rfl := ho e.1 hm
    refine ⟨_, by simp [add, he], h.set ho hh ?_ (hr (e.2 + 1))⟩
    simp [hc]

omit [LawfulEqOrd K] in
lemma add_fails {o' : O} (hk : k ∈ keys o') (ho : o' ≠ o) :
    idx.add k o = .error (.fault .assertion) := by
  simp [add, h.getElem?_of_mem hk, ho]

lemma delete_spec (hk : k ∈ keys o) : ∃ idx', idx.delete k o = .ok idx' ∧
      Holds idx' (update keys o ((keys o).erase k)) := by
  have hon : ∀ o', k ∈ keys o' → o' = o := fun o' ho' => h.unique ho' hk
  have ho : ∀ k', k' ≠ k → ((keys o).erase k).count k' = (keys o).count k' := fun k' hk' =>
    List.count_erase_of_ne hk'
  have hs : ((keys o).erase k).count k = (keys o).count k - 1 := List.count_erase_self
  have hp := List.count_pos_iff.2 hk
  by_cases hn : (keys o).count k = 1
  · refine ⟨idx.erase k, by simp [delete, h.getElem?_of_mem hk, hn],
      h.set hon ho ?_ fun k' hk' => ?_⟩
    · simp [hs, hn]
    · rw [Maps.getElem?_erase, if_neg hk']
  · refine ⟨idx.insert k (o, (keys o).count k - 1), by simp [delete, h.getElem?_of_mem hk, hn],
      h.set hon ho ?_ fun k' hk' => ?_⟩
    · rw [hs, if_neg (by omega)]
      simp
    · rw [Maps.getElem?_insert, if_neg hk']

end Holds
end OwnerIndex
end Trivechain
