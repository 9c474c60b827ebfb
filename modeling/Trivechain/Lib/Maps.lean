import Mathlib

/-!
# Finite maps with lawful keys

Lookups in `Std.ExtTreeMap` after an update, with equality of keys in place of
`compare`, and the values of a map as a list.
-/

namespace Trivechain

instance ordProd {α β : Type} [Ord α] [Ord β] : Ord (α × β) := lexOrd

end Trivechain

namespace Trivechain.Maps
open Std (ExtTreeMap ExtTreeSet TransOrd LawfulEqOrd)
open List
variable {K V : Type} [Ord K] [TransOrd K] [LawfulEqOrd K] [DecidableEq K]

lemma getElem?_insert (m : ExtTreeMap K V) (k a : K) (v : V) :
    (m.insert k v)[a]? = if a = k then some v else m[a]? := by
  rw [ExtTreeMap.getElem?_insert]
  exact if_congr (Std.LawfulEqCmp.compare_eq_iff_eq.trans eq_comm) rfl rfl

lemma getElem?_insertIfNew (m : ExtTreeMap K V) (k a : K) (v : V) :
    (m.insertIfNew k v)[a]? = if a = k ∧ m[k]? = none then some v else m[a]? := by
  rw [ExtTreeMap.getElem?_insertIfNew]
  refine if_congr (and_congr (Std.LawfulEqCmp.compare_eq_iff_eq.trans eq_comm) ?_) rfl rfl
  simp

lemma getElem?_erase (m : ExtTreeMap K V) (k a : K) :
    (m.erase k)[a]? = if a = k then none else m[a]? := by
  rw [ExtTreeMap.getElem?_erase]
  exact if_congr (Std.LawfulEqCmp.compare_eq_iff_eq.trans eq_comm) rfl rfl

variable {m : ExtTreeMap K V} {k a : K} {v : V} {ks : List K} {ps : List (K × V)} {t : ExtTreeSet K}

lemma erase_of_none (h : m[k]? = none) : m.erase k = m := by
  refine ExtTreeMap.ext_getElem? fun a => ?_
  rw [getElem?_erase]
  split_ifs with ha
  · rw [ha, h]
  · rfl

lemma erase_insert_of_none (h : m[k]? = none) : (m.insert k v).erase k = m := by
  refine ExtTreeMap.ext_getElem? fun a => ?_
  rw [getElem?_erase, getElem?_insert]
  split_ifs with ha
  · rw [ha, h]
  · rfl

lemma getElem?_foldl_erase :
    (ks.foldl (fun m k => m.erase k) m)[a]? = if a ∈ ks then none else m[a]? := by
  induction ks generalizing m with
  | nil => simp
  | cons k ks ih =>
    rw [foldl_cons, ih, getElem?_erase]
    by_cases hs : a ∈ ks <;> by_cases hk : a = k <;> simp [hs, hk]

lemma getElem?_foldl_insert :
    (ks.foldl (fun m k => m.insert k v) m)[a]? = if a ∈ ks then some v else m[a]? := by
  induction ks generalizing m with
  | nil => simp
  | cons k ks ih =>
    rw [foldl_cons, ih, getElem?_insert]
    by_cases hs : a ∈ ks <;> by_cases hk : a = k <;> simp [hs, hk]

omit [Ord K] [TransOrd K] [LawfulEqOrd K] in
lemma foldl_update (hn : (ps.map Prod.fst).Nodup) (f : K → V) (k : K) :
    (∀ v, (k, v) ∈ ps → ps.foldl (fun f p => Function.update f p.1 p.2) f k = v) ∧
    (k ∉ ps.map Prod.fst → ps.foldl (fun f p => Function.update f p.1 p.2) f k = f k) := by
  induction ps generalizing f with
  | nil => simp
  | cons p ps ih =>
    obtain ⟨hp, hs⟩ := nodup_cons.1 (map_cons ▸ hn)
    obtain ⟨hi, ho⟩ := ih hs (Function.update f p.1 p.2)
    rw [foldl_cons]
    refine ⟨fun v hv => ?_, fun hk => ?_⟩
    · rcases mem_cons.1 hv with rfl | hv
      · rw [ho hp, Function.update_self]
      · exact hi v hv
    · rw [map_cons, mem_cons, not_or] at hk
      rw [ho hk.2, Function.update_of_ne hk.1]

def values (m : ExtTreeMap K V) : List V := m.toList.map Prod.snd

omit [DecidableEq K] in
lemma mem_values : v ∈ values m ↔ ∃ k : K, m[k]? = some v := by
  simp only [values, mem_map, Prod.exists]
  constructor
  · rintro ⟨k, w, hm, rfl⟩
    exact ⟨k, ExtTreeMap.mem_toList_iff_getElem?_eq_some.1 hm⟩
  · rintro ⟨k, hk⟩
    exact ⟨k, v, ExtTreeMap.mem_toList_iff_getElem?_eq_some.2 hk, rfl⟩

omit [DecidableEq K] [LawfulEqOrd K] in
lemma nodup_keys_toList (m : ExtTreeMap K V) : (m.toList.map Prod.fst).Nodup := by
  rw [ExtTreeMap.map_fst_toList_eq_keys]
  exact ExtTreeMap.nodup_keys

section

omit [DecidableEq K]

lemma countP_values_congr {m' : ExtTreeMap K V} {p : V → Bool}
    (h : ∀ k : K, m[k]?.any p = m'[k]?.any p) : (values m).countP p = (values m').countP p := by
  have hc : ∀ m : ExtTreeMap K V, (values m).countP p =
      ((m.toList.filter fun e => p e.2).map Prod.fst).length := by
    intro m
    rw [values, countP_map, countP_eq_length_filter, length_map]
    rfl
  have hn : ∀ m : ExtTreeMap K V, ((m.toList.filter fun e => p e.2).map Prod.fst).Nodup :=
    fun m => (filter_sublist.map Prod.fst).nodup (nodup_keys_toList m)
  have hm : ∀ (m : ExtTreeMap K V) (k : K),
      k ∈ (m.toList.filter fun e => p e.2).map Prod.fst ↔ m[k]?.any p = true := by
    intro m k
    simp [ExtTreeMap.mem_toList_iff_getElem?_eq_some, Option.any_eq_true]
  rw [hc, hc]
  refine ((perm_ext_iff_of_nodup (hn m) (hn m')).2 fun k => ?_).length_eq
  rw [hm, hm, h k]

lemma nodup_map_values {key : V → K} (hk : ∀ (k : K) (v : V), m[k]? = some v → key v = k) :
    ((values m).map key).Nodup := by
  have hp : m.toList.Pairwise fun a b => key a.2 ≠ key b.2 := by
    refine ExtTreeMap.distinct_keys_toList.imp_of_mem fun {a b} ha hb hn he => hn ?_
    rw [hk a.1 a.2 (ExtTreeMap.mem_toList_iff_getElem?_eq_some.1 ha),
      hk b.1 b.2 (ExtTreeMap.mem_toList_iff_getElem?_eq_some.1 hb)] at he
    rw [he]
    exact Std.ReflCmp.compare_self
  rw [values, map_map, List.Nodup, pairwise_map]
  exact hp

end

lemma getElem?_foldl_insert_pairs (hn : (ps.map Prod.fst).Nodup) :
    (ps.foldl (fun m p => m.insert p.1 p.2) m)[k]? = some v ↔
      (k, v) ∈ ps ∨ (k ∉ ps.map Prod.fst ∧ m[k]? = some v) := by
  induction ps generalizing m with
  | nil => simp
  | cons p ps ih =>
    obtain ⟨hp, hs⟩ := nodup_cons.1 (map_cons ▸ hn)
    rw [foldl_cons, ih hs, getElem?_insert, mem_cons, map_cons, mem_cons]
    by_cases hk : k = p.1
    · subst hk
      have ht : ∀ w, (p.1, w) ∉ ps := fun w hw => hp (mem_map.2 ⟨_, hw, rfl⟩)
      simp [ht, hp, Prod.ext_iff, eq_comm]
    · simp [hk, Prod.ext_iff]

lemma foldlM_insert_toList {m : Type → Type} [Monad m] [LawfulMonad m] {W : Type}
    {t : ExtTreeMap K V} {f : K → V → m W} {g : K → V → W}
    (h : ∀ (k : K) (v : V), t[k]? = some v → f k v = pure (g k v)) :
    t.toList.foldlM (fun acc p => do
      let w ← f p.1 p.2 return acc.insert p.1 w) ∅ = pure (t.map g) := by
  have hr : ∀ (l : List (K × V)), (∀ p ∈ l, f p.1 p.2 = pure (g p.1 p.2)) →
      ∀ acc : ExtTreeMap K W, l.foldlM (fun acc p => do
        let w ← f p.1 p.2
        return acc.insert p.1 w) acc =
      pure ((l.map fun p => (p.1, g p.1 p.2)).foldl (fun acc p => acc.insert p.1 p.2) acc) := by
    intro l hl
    induction l with
    | nil => intro acc; rfl
    | cons p l ih =>
      intro acc
      rw [foldlM_cons, hl p (by simp), pure_bind, pure_bind,
        ih fun q hq => hl q (by simp [hq])]
      rfl
  have hn : ((t.toList.map fun p => (p.1, g p.1 p.2)).map Prod.fst).Nodup := by
    have hk : (t.toList.map fun p => (p.1, g p.1 p.2)).map Prod.fst = t.keys := by
      rw [map_map, ← ExtTreeMap.map_fst_toList_eq_keys]
      rfl
    exact hk ▸ ExtTreeMap.nodup_keys
  rw [hr _ fun p hp => h p.1 p.2 (ExtTreeMap.mem_toList_iff_getElem?_eq_some.1 hp)]
  congr 1
  refine ExtTreeMap.ext_getElem? fun k => Option.ext fun w => ?_
  rw [getElem?_foldl_insert_pairs hn, ExtTreeMap.getElem?_map]
  simp only [mem_map, Prod.mk.injEq, Prod.exists, ExtTreeMap.mem_toList_iff_getElem?_eq_some,
    Option.map_eq_some_iff]
  constructor
  · rintro (⟨a, v, hv, rfl, rfl⟩ | ⟨-, hnn⟩)
    · exact ⟨v, hv, rfl⟩
    · simp at hnn
  · rintro ⟨v, hv, rfl⟩
    exact .inl ⟨k, v, hv, rfl, rfl⟩

lemma getElem?_foldl_insertIfNew (hn : (ps.map Prod.fst).Nodup) :
    (ps.foldl (fun m p => m.insertIfNew p.1 p.2) m)[k]? = some v ↔
      m[k]? = some v ∨ (m[k]? = none ∧ (k, v) ∈ ps) := by
  induction ps generalizing m with
  | nil => simp
  | cons p ps ih =>
    obtain ⟨hp, hs⟩ := nodup_cons.1 (map_cons ▸ hn)
    rw [foldl_cons, ih hs, getElem?_insertIfNew, mem_cons]
    by_cases hk : k = p.1
    · subst hk
      have ht : ∀ w, (p.1, w) ∉ ps := fun w hw => hp (mem_map.2 ⟨_, hw, rfl⟩)
      cases hm : m[p.1]? with
      | none => simp [ht, Prod.ext_iff, eq_comm]
      | some w => simp
    · simp [hk, Prod.ext_iff]

section

omit [DecidableEq K]

lemma eq_of_ordered {α : Type} {f : α → K} {l l' : List α}
    (hl : l.Pairwise fun a b => compare (f a) (f b) = .lt)
    (hl' : l'.Pairwise fun a b => compare (f a) (f b) = .lt) (hm : ∀ a, a ∈ l ↔ a ∈ l') :
    l = l' := by
  have hn : ∀ {a b : α}, compare (f a) (f b) = .lt → a ≠ b := by
    rintro a _ h rfl
    simp at h
  refine List.Perm.eq_of_pairwise (fun a b _ _ ha hb => ?_) hl hl'
    ((perm_ext_iff_of_nodup (hl.imp hn) (hl'.imp hn)).2 hm)
  simp [Std.OrientedCmp.gt_of_lt hb] at ha

lemma toList_eq (hs : ps.Pairwise fun a b => compare a.1 b.1 = .lt)
    (hm : ∀ k v, (k, v) ∈ ps ↔ m[k]? = some v) : m.toList = ps := by
  refine eq_of_ordered ExtTreeMap.ordered_keys_toList hs fun p => ?_
  rw [ExtTreeMap.mem_toList_iff_getElem?_eq_some, hm]

lemma filter_toList_congr {m' : ExtTreeMap K V} {p : K × V → Bool}
    (h : ∀ (k : K) (v : V), p (k, v) = true → (m[k]? = some v ↔ m'[k]? = some v)) :
    m.toList.filter p = m'.toList.filter p := by
  refine eq_of_ordered (ExtTreeMap.ordered_keys_toList.filter p)
    (ExtTreeMap.ordered_keys_toList.filter p) fun e => ?_
  rw [mem_filter, mem_filter]
  refine and_congr_left fun hp => ?_
  rw [ExtTreeMap.mem_toList_iff_getElem?_eq_some, ExtTreeMap.mem_toList_iff_getElem?_eq_some]
  exact h e.1 e.2 hp

end

lemma takeWhile_eq_filter {α : Type} {l : List α} {r : α → α → Prop} {p : α → Bool}
    (hs : l.Pairwise r) (hp : ∀ a b, r a b → p b = true → p a = true) :
    l.takeWhile p = l.filter p := by
  induction l with
  | nil => rfl
  | cons a l ih =>
    obtain ⟨ha, hl⟩ := pairwise_cons.1 hs
    rw [takeWhile_cons, filter_cons]
    split_ifs with hpa
    · rw [ih hl]
    · refine (filter_eq_nil_iff.2 fun b hb hpb => hpa ?_).symm
      exact hp a b (ha b hb) hpb

section

omit [DecidableEq K]

lemma mem_takeWhile_fst_lt {t : ExtTreeSet (Nat × K)} {n : Nat} {e : Nat × K} :
    e ∈ t.toList.takeWhile (fun e => e.1 < n) ↔ e ∈ t ∧ e.1 < n := by
  rw [takeWhile_eq_filter ExtTreeSet.ordered_toList, mem_filter, ExtTreeSet.mem_toList,
    decide_eq_true_eq]
  intro a b ha hb
  have hle : a.1 ≤ b.1 := by
    have hl : (compare a.1 b.1).then (compare a.2 b.2) = .lt := ha
    rcases Ordering.then_eq_lt.1 hl with ht | ⟨he, -⟩
    · exact (Nat.compare_eq_lt.1 ht).le
    · exact (Nat.compare_eq_eq.1 he).le
  simp only [decide_eq_true_eq] at hb ⊢
  omega

lemma nodup_toList : t.toList.Nodup := by
  refine ExtTreeSet.ordered_toList.imp fun {a b} hl he => ?_
  subst he
  simp at hl

lemma mem_insert : a ∈ t.insert k ↔ a = k ∨ a ∈ t := by
  rw [ExtTreeSet.mem_insert, Std.LawfulEqCmp.compare_eq_iff_eq, eq_comm]

lemma mem_erase : a ∈ t.erase k ↔ a ≠ k ∧ a ∈ t := by
  rw [ExtTreeSet.mem_erase, Ne, Std.LawfulEqCmp.compare_eq_iff_eq, eq_comm]

end

lemma mem_ofList {l : List K} : a ∈ ExtTreeSet.ofList l ↔ a ∈ l := by
  rw [ExtTreeSet.mem_ofList, contains_iff_mem]

omit [DecidableEq K]

lemma mem_singleton : a ∈ (ExtTreeSet.empty : ExtTreeSet K).insert k ↔ a = k := by
  rw [mem_insert]
  exact or_iff_left ExtTreeSet.not_mem_empty

lemma mem_foldl_erase : k ∈ ks.foldl ExtTreeSet.erase t ↔ k ∈ t ∧ k ∉ ks := by
  induction ks generalizing t with
  | nil => simp
  | cons k' ks ih =>
    rw [foldl_cons, ih, ExtTreeSet.mem_erase, Ne, Std.LawfulEqCmp.compare_eq_iff_eq,
      mem_cons, eq_comm (a := k)]
    tauto

lemma mem_foldl_insert : k ∈ ks.foldl ExtTreeSet.insert t ↔ k ∈ ks ∨ k ∈ t := by
  induction ks generalizing t with
  | nil => simp
  | cons k' ks ih =>
    rw [foldl_cons, ih, ExtTreeSet.mem_insert, Std.LawfulEqCmp.compare_eq_iff_eq,
      mem_cons, eq_comm (a := k)]
    tauto

lemma toList_set_eq (hs : ks.Pairwise fun a b => compare a b = .lt) (hm : ∀ k, k ∈ ks ↔ k ∈ t) :
    t.toList = ks := by
  have ho := ExtTreeSet.ordered_toList (t := t)
  refine eq_of_ordered (f := fun k => k) ho hs fun k => ?_
  rw [ExtTreeSet.mem_toList, hm]

end Trivechain.Maps
