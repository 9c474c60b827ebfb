import Mathlib

/-!
# Least recently used caches

A cache is a list of entries with distinct keys, the one accessed last first. Before an entry
is added, a cache that has grown past its threshold is cut down to the entries accessed last.
Which entries are dropped does not matter to a caller that reads through to a table: the
cache *agrees* with the table if it has no wrong entry, and each operation keeps that.
-/

namespace Trivechain

structure LruCache (K V : Type) where
  maxSize : Nat
  truncateThreshold : Nat := 2 * maxSize
  entries : List (K × V) := []
  nodup : (entries.map Prod.fst).Nodup := by simp

namespace LruCache
variable {K V : Type} [DecidableEq K] (c : LruCache K V) (k : K)

def without : List (K × V) := c.entries.filter fun e => e.1 ≠ k

def find : Option V := (c.entries.find? fun e => e.1 = k).map Prod.snd

def erase : LruCache K V :=
  { c with
    entries := c.without k
    nodup := (List.filter_sublist.map _).nodup c.nodup }

def truncateIfNeeded : LruCache K V :=
  { c with
    entries := if c.truncateThreshold < c.entries.length then c.entries.take c.maxSize
      else c.entries
    nodup := by
      split_ifs
      · exact ((List.take_sublist _ _).map _).nodup c.nodup
      · exact c.nodup }

def put (v : V) : LruCache K V :=
  { c with
    entries := (k, v) :: c.without k
    nodup := by
      refine List.nodup_cons.2 ⟨?_, (c.erase k).nodup⟩
      simp [without] }

def insert (v : V) : LruCache K V := c.truncateIfNeeded.put k v

def get : Option V × LruCache K V :=
  match c.find k with
  | some v => (some v, c.put k v)
  | none => (none, c)

/-- The value from the cache, or else the given one, which is then added. -/
def readThrough (v : V) : V × LruCache K V :=
  match c.get k with
  | (some w, c) => (w, c)
  | (none, c) => (v, c.insert k v)

variable {c k} {k' : K} {v w : V}

omit [DecidableEq K] in
lemma find?_filter_ne [DecidableEq K] {l : List (K × V)} (hn : k' ≠ k) :
    (l.filter fun e => e.1 ≠ k).find? (fun e => e.1 = k') = l.find? fun e => e.1 = k' := by
  rw [List.find?_filter]
  congr 1
  funext e
  by_cases h : e.1 = k' <;> simp_all

@[simp] lemma find_erase : (c.erase k).find k' = if k' = k then none else c.find k' := by
  unfold find erase without
  split_ifs with h
  · subst h
    simp
  · rw [find?_filter_ne h]

@[simp] lemma find_put : (c.put k v).find k' = if k' = k then some v else c.find k' := by
  unfold find put without
  rw [List.find?_cons]
  split_ifs with h
  · simp [h]
  · simp only [Ne.symm h, decide_false]
    rw [find?_filter_ne h]

lemma find_of_find_truncateIfNeeded (h : c.truncateIfNeeded.find k = some v) :
    c.find k = some v := by
  unfold find truncateIfNeeded at h
  split_ifs at h
  · unfold find
    obtain ⟨e, he, hv⟩ := Option.map_eq_some_iff.1 h
    rw [(List.take_prefix _ _).find?_eq_some he]
    simpa using hv
  · exact h

def Agrees (c : LruCache K V) (f : K → V) : Prop := ∀ k v, c.find k = some v → v = f k

variable {f g : K → V}

section
variable (h : c.Agrees f)
include h

lemma Agrees.put : (c.put k (f k)).Agrees f := by
  intro k' v hv
  rw [find_put] at hv
  split_ifs at hv with hk
  · rw [hk, Option.some.inj hv]
  · exact h k' v hv

lemma Agrees.truncateIfNeeded : c.truncateIfNeeded.Agrees f :=
  fun k v hv => h k v (find_of_find_truncateIfNeeded hv)

lemma Agrees.insert : (c.insert k (f k)).Agrees f := h.truncateIfNeeded.put

lemma Agrees.erase : (c.erase k).Agrees f := by
  intro k' v hv
  rw [find_erase] at hv
  split_ifs at hv
  exact h k' v hv

lemma Agrees.readThrough (k : K) :
    (c.readThrough k (f k)).1 = f k ∧ (c.readThrough k (f k)).2.Agrees f := by
  unfold LruCache.readThrough get
  cases hf : c.find k with
  | none => exact ⟨rfl, h.insert⟩
  | some v =>
    obtain rfl := h k v hf
    exact ⟨rfl, h.put⟩

lemma Agrees.congr (hc : ∀ k, g k ≠ f k → c.find k = none) :
    c.Agrees g := by
  intro k v hv
  by_cases hk : g k = f k
  · rw [hk]
    exact h k v hv
  · rw [hc k hk] at hv
    cases hv

lemma Agrees.update (ho : ∀ k', k' ≠ k → g k' = f k') (hk : g k = v) : (c.insert k v).Agrees g := by
  intro k' w hw
  rw [LruCache.insert, find_put] at hw
  split_ifs at hw with hy
  · rw [hy, hk, Option.some.inj hw]
  · rw [ho k' hy]
    exact h k' w (find_of_find_truncateIfNeeded hw)

lemma Agrees.forget (ho : ∀ k', k' ≠ k → g k' = f k') : (c.erase k).Agrees g := by
  refine h.erase.congr fun k' hk' => ?_
  rw [find_erase, if_pos (by_contra fun hn => hk' (ho k' hn))]

end

lemma agrees_nil (h : c.entries = []) : c.Agrees f := by
  intro k v hv
  simp [find, h] at hv

lemma find_foldl_erase {ks : List K} :
    (ks.foldl (fun c k => c.erase k) c).find k' = if k' ∈ ks then none else c.find k' := by
  induction ks generalizing c with
  | nil => simp
  | cons k ks ih =>
    rw [List.foldl_cons, ih, find_erase]
    by_cases hs : k' ∈ ks <;> by_cases hk : k' = k <;> simp [hs, hk]

lemma Agrees.foldl_erase (h : c.Agrees f) (ks : List K) :
    (ks.foldl (fun c k => c.erase k) c).Agrees f := by
  induction ks generalizing c with
  | nil => exact h
  | cons k ks ih => exact ih h.erase

lemma Agrees.foldl_update (h : c.Agrees f) (ks : List K) (v : V) :
    (ks.foldl (fun c k => c.insert k v) c).Agrees fun k => if k ∈ ks then v else f k := by
  induction ks generalizing c f with
  | nil => simpa using h
  | cons k ks ih =>
    have hk : (c.insert k v).Agrees fun k' => if k' = k then v else f k' :=
      h.update (fun k' hn => if_neg hn) (if_pos rfl)
    have he : (fun k' => if k' ∈ k :: ks then v else f k') =
        fun k' => if k' ∈ ks then v else if k' = k then v else f k' := by
      funext k'
      by_cases hs : k' ∈ ks <;> by_cases hkk : k' = k <;> simp [hs, hkk]
    rw [he]
    exact ih hk

lemma find_readThrough_of_ne (hn : k' ≠ k) (h : c.find k' = none) :
    (c.readThrough k v).2.find k' = none := by
  unfold readThrough get
  cases c.find k with
  | none =>
    change (c.insert k v).find k' = none
    rw [LruCache.insert, find_put, if_neg hn]
    by_contra hs
    obtain ⟨w, hw⟩ := Option.ne_none_iff_exists'.1 hs
    rw [find_of_find_truncateIfNeeded hw] at h
    cases h
  | some w =>
    change (c.put k w).find k' = none
    rw [find_put, if_neg hn]
    exact h

end LruCache
end Trivechain
