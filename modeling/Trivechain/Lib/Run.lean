import Mathlib

/-!
# Runs of validation code

A function of a validating program either returns, or refuses its input with a
reason, or does not return at all: an assertion fails, a lookup throws, or memory
outside a container is read. `Run` keeps these outcomes apart, so that "never
reaches a failing assertion" is a statement about the value of the model.

The lemmas below say how a run is taken apart: a sequence returns exactly when its
parts do, and a loop keeps whatever each of its steps keeps.
-/

namespace Trivechain
open List

/-- The ways in which code ends without returning to its caller. -/
inductive Fault where
  | assertion
  | outOfRange
  | undefined
deriving DecidableEq, Repr

inductive RejectCode where
  | malformed | invalid | obsolete | duplicate | conflict
deriving DecidableEq, Repr

/-- A refusal, as `CValidationState::DoS` records it. -/
structure Reject where
  nDoS : Nat
  code : RejectCode
  reason : String
deriving DecidableEq, Repr

inductive Stop where
  | rejected (r : Reject)
  | fault (f : Fault)
deriving DecidableEq, Repr

abbrev Run (α : Type) := Except Stop α

namespace Run
variable {α β γ : Type}

def ensure (p : Prop) [Decidable p] : Run Unit :=
  if p then .ok () else .error (.fault .assertion)

def dos (nDoS : Nat) (code : RejectCode) (reason : String) : Run α :=
  .error (.rejected ⟨nDoS, code, reason⟩)

/-- `if (p) return state.DoS(..);` -/
def denyIf (p : Prop) [Decidable p] (nDoS : Nat) (code : RejectCode) (reason : String) :
    Run Unit :=
  if p then dos nDoS code reason else .ok ()

/-- `if (!o) return state.DoS(..);` -/
def orDeny (o : Option α) (nDoS : Nat) (code : RejectCode) (reason : String) : Run α :=
  match o with
  | some a => .ok a
  | none => dos nDoS code reason

/-- `std::map::at` and dereferences of what may be missing. -/
def demand (f : Fault) : Option α → Run α
  | some a => .ok a
  | none => .error (.fault f)

def Returns (x : Run α) : Prop := ∀ f, x ≠ .error (.fault f)

/-- How a run stops can be decided for results of any type. -/
instance (x : Run α) (e : Stop) : Decidable (x = .error e) :=
  match x with
  | .ok _ => .isFalse nofun
  | .error e' => decidable_of_iff (e' = e) (by simp)

variable {p : Prop} {o : Option α} {a : α} {f : β → α → Run β} {x : Run α} {b : β} {l : List α}
  {G : β → α → Prop}

@[simp] lemma ensure_ok [Decidable p] {u : Unit} : ensure p = .ok u ↔ p := by
  unfold ensure; split_ifs <;> simp_all

lemma ensure_pos [Decidable p] (h : p) : ensure p = .ok () := if_pos h

lemma ensure_error [Decidable p] {e : Stop} (h : ensure p = .error e) : e = .fault .assertion := by
  unfold ensure at h; split_ifs at h; simpa using h.symm

lemma ensure_neg [Decidable p] (h : ¬ p) : ensure p = .error (.fault .assertion) := if_neg h

@[simp] lemma denyIf_ok [Decidable p] {n : Nat} {c : RejectCode} {r : String} {u : Unit} :
    denyIf p n c r = .ok u ↔ ¬ p := by
  unfold denyIf dos; split_ifs <;> simp_all

@[simp] lemma orDeny_ok {n : Nat} {c : RejectCode} {r : String} :
    orDeny o n c r = .ok a ↔ o = some a := by cases o <;> simp [orDeny, dos]

@[simp] lemma demand_ok {f : Fault} :
    demand f o = .ok a ↔ o = some a := by cases o <;> simp [demand]

@[simp] lemma demand_some {f : Fault} (a : α) : demand f (some a) = .ok a := rfl

@[simp] lemma ok_bind (a : α) (f : α → Run β) : ((.ok a : Run α) >>= f) = f a := rfl

@[simp] lemma error_bind (e : Stop) (f : α → Run β) : ((.error e : Run α) >>= f) = .error e := rfl

lemma bind_ok {f : α → Run β} : (x >>= f) = .ok b ↔ ∃ a, x = .ok a ∧ f a = .ok b := by
  cases x <;> simp

lemma bind_error {f : α → Run β} {e : Stop} :
    (x >>= f) = .error e ↔ x = .error e ∨ ∃ a, x = .ok a ∧ f a = .error e := by
  cases x <;> simp

@[simp] lemma pure_eq (a : α) : (pure a : Run α) = .ok a := rfl

lemma exists_of_map_toOption {f : α → β} (h : x.toOption.map f = some b) :
    ∃ a, x = .ok a ∧ f a = b := by
  cases x with
  | error e => simp [Except.toOption] at h
  | ok a => exact ⟨a, rfl, by simpa [Except.toOption] using h⟩

lemma mapM_eq_ok {f : α → Run β} {g : α → β} (h : ∀ a ∈ l, f a = .ok (g a)) :
    l.mapM f = .ok (l.map g) := by
  induction l with
  | nil => rfl
  | cons a l ih =>
    rw [mapM_cons, h a (by simp), ok_bind, ih fun b hb => h b (by simp [hb])]
    rfl

lemma exists_of_mem_mapM {f : α → Run β} {l' : List β} (h : l.mapM f = .ok l') (hb : b ∈ l') :
    ∃ a ∈ l, f a = .ok b := by
  induction l generalizing l' with
  | nil =>
    cases h
    simp at hb
  | cons a l ih =>
    rw [mapM_cons] at h
    obtain ⟨c, hc, h⟩ := bind_ok.1 h
    obtain ⟨cs, hs, h⟩ := bind_ok.1 h
    obtain rfl := Except.ok.inj h
    rcases mem_cons.1 hb with rfl | hb
    · exact ⟨a, by simp, hc⟩
    · obtain ⟨a', ha', hf'⟩ := ih hs hb
      exact ⟨a', by simp [ha'], hf'⟩

@[simp] lemma returns_ok (a : α) : Returns (.ok a : Run α) := fun _ h => by cases h

@[simp] lemma returns_dos (n : Nat) (c : RejectCode) (r : String) :
    Returns (dos n c r : Run α) := fun _ h => by simp [dos] at h

@[simp] lemma not_returns_fault (f : Fault) : ¬ Returns (.error (.fault f) : Run α) :=
  fun h => h f rfl

lemma returns_bind {f : α → Run β} :
    Returns (x >>= f) ↔ Returns x ∧ ∀ a, x = .ok a → Returns (f a) := by
  cases x with
  | ok a => simp
  | error e => simp [Returns]

@[simp] lemma returns_ensure [Decidable p] : Returns (ensure p) ↔ p := by
  unfold ensure; split_ifs <;> simp_all

@[simp] lemma returns_denyIf (p : Prop) [Decidable p] (n : Nat) (c : RejectCode) (r : String) :
    Returns (denyIf p n c r) := by
  unfold denyIf; split_ifs <;> simp

@[simp] lemma returns_orDeny (o : Option α) (n : Nat) (c : RejectCode) (r : String) :
    Returns (orDeny o n c r) := by
  cases o <;> simp [orDeny]

@[simp] lemma returns_demand {f : Fault} : Returns (demand f o) ↔ o.isSome = true := by
  cases o <;> simp [demand]

lemma returns_foldlM_iff : ∀ (l : List α) (b : β), Returns (l.foldlM f b) ↔
      ∀ pre a post, l = pre ++ a :: post → ∀ b', pre.foldlM f b = .ok b' → Returns (f b' a) := by
  intro l
  induction l with
  | nil => simp
  | cons a l ih =>
    intro b
    rw [foldlM_cons, returns_bind]
    constructor
    · rintro ⟨ha, hl⟩ pre a' post he b' hb'
      cases pre with
      | nil =>
        obtain ⟨rfl, -⟩ := List.cons.inj he
        obtain rfl : b = b' := by simpa using hb'
        exact ha
      | cons c pre =>
        obtain ⟨rfl, rfl⟩ := List.cons.inj he
        obtain ⟨b1, hb1, hb'⟩ := bind_ok.1 (by simpa [foldlM_cons] using hb')
        exact (ih b1).1 (hl b1 hb1) pre a' post rfl b' hb'
    · intro h
      refine ⟨h [] a l rfl b rfl, fun b1 hb1 => (ih b1).2 fun pre a' post he b' hb' => ?_⟩
      exact h (a :: pre) a' post (by rw [he]; rfl) b' (by simp [foldlM_cons, hb1, hb'])

lemma foldlM_invariant (I : β → Prop) (step : ∀ b a b', I b → f b a = .ok b' → I b') :
    ∀ (l : List α) (b b' : β), I b → l.foldlM f b = .ok b' → I b' := by
  intro l
  induction l with
  | nil => intro b b' hb h; cases h; exact hb
  | cons a l ih =>
    intro b b' hb h
    obtain ⟨c, hc, h⟩ := bind_ok.1 h
    exact ih c b' (step b a c hb hc) h

/-- Every step of a run is taken in a state that satisfies a guard of the step. -/
def Guarded (f : β → α → Run β) (G : β → α → Prop) (b : β) (l : List α) : Prop :=
  ∀ pre a post, l = pre ++ a :: post → ∀ b', pre.foldlM f b = .ok b' → G b' a

lemma Guarded.invariant (I : β → Prop) (step : ∀ b a b', I b → G b a → f b a = .ok b' → I b')
    {b' : β} (hg : Guarded f G b l) (hb : I b) (h : l.foldlM f b = .ok b') : I b' := by
  induction l generalizing b with
  | nil => cases h; exact hb
  | cons a l ih =>
    obtain ⟨c, hc, h⟩ := bind_ok.1 h
    refine ih (fun pre a' post he b'' hb'' => ?_) (step b a c hb (hg [] a l rfl b rfl) hc) h
    exact hg (a :: pre) a' post (by rw [he]; rfl) b'' (bind_ok.2 ⟨c, hc, hb''⟩)

lemma Guarded.progress {S : β → α → Prop} (I : β → Prop)
    (step : ∀ b a, I b → G b a → (∃ b', f b a = .ok b' ∧ I b') ∨ S b a) (hg : Guarded f G b l)
    (hb : I b) : (∃ b', l.foldlM f b = .ok b' ∧ I b') ∨ ∃ pre a post b',
      l = pre ++ a :: post ∧ pre.foldlM f b = .ok b' ∧ I b' ∧ S b' a := by
  induction l generalizing b with
  | nil => exact .inl ⟨b, rfl, hb⟩
  | cons a l ih =>
    rcases step b a hb (hg [] a l rfl b rfl) with ⟨c, hc, hI⟩ | hS
    · have hg' : Guarded f G c l := fun pre a' post he b' hb' =>
        hg (a :: pre) a' post (by rw [he]; rfl) b' (bind_ok.2 ⟨c, hc, hb'⟩)
      rcases ih hg' hI with ⟨b', hb', hI'⟩ | ⟨pre, a', post, b', he, hb', hI', hS⟩
      · exact .inl ⟨b', bind_ok.2 ⟨c, hc, hb'⟩, hI'⟩
      · exact .inr ⟨a :: pre, a', post, b', by rw [he]; rfl, bind_ok.2 ⟨c, hc, hb'⟩, hI', hS⟩
    · exact .inr ⟨[], a, l, b, rfl, rfl, hb, hS⟩

/-- A loop that keeps an invariant exactly in the rounds that satisfy a condition keeps it all along
exactly when all rounds do. -/
lemma foldl_invariant_iff {f : β → α → β} {I : β → Prop} {C : β → α → Prop}
    (step : ∀ b a, I b → (I (f b a) ↔ C b a)) (hb : I b) :
    (∀ pre post, l = pre ++ post → I (pre.foldl f b)) ↔
      ∀ pre a post, l = pre ++ a :: post → C (pre.foldl f b) a := by
  constructor
  · intro h pre a post he
    have hn := h (pre ++ [a]) post (by simp [he])
    rw [foldl_append] at hn
    exact (step _ a (h pre (a :: post) he)).1 hn
  · intro h pre
    induction pre using List.reverseRecOn with
    | nil => exact fun _ _ => hb
    | append_singleton pre a ih =>
      intro post he
      have he' : l = pre ++ a :: post := by simpa using he
      rw [foldl_append]
      exact (step _ a (ih (a :: post) he')).2 (h pre a post he')

lemma Guarded.of_forall (h : ∀ a ∈ l, ∀ b', G b' a) : Guarded f G b l :=
  fun pre a post he b' _ => h a (by rw [he]; simp) b'

lemma Guarded.concat (h : Guarded f G b l) (ha : ∀ b', l.foldlM f b = .ok b' → G b' a) :
    Guarded f G b (l ++ [a]) := by
  intro pre a' post he b' hb'
  rcases eq_nil_or_concat post with rfl | ⟨post, x, rfl⟩
  · obtain ⟨rfl, hl⟩ := append_inj' he rfl
    cases hl
    exact ha b' hb'
  · rw [concat_eq_append, ← cons_append, ← append_assoc] at he
    exact h pre a' post (append_inj' he rfl).1 b' hb'

lemma Guarded.of_append {l' : List α} (h : Guarded f G b (l ++ l')) : Guarded f G b l :=
  fun pre a post he => h pre a (post ++ l') (by rw [he]; simp)

/-- Two states of a run, one reached after the other, are always related by a preorder when
the two ends of every step are. -/
lemma foldlM_related_iff {R : β → β → Prop} (hr : ∀ b, R b b)
    (ht : ∀ a b c, R a b → R b c → R a c) (l : List α) (b0 : β) :
    (∀ pre mid post, l = pre ++ mid ++ post → ∀ b b', pre.foldlM f b0 = .ok b →
      mid.foldlM f b = .ok b' → R b b') ↔
    ∀ pre a post, l = pre ++ a :: post → ∀ b b', pre.foldlM f b0 = .ok b → f b a = .ok b' →
      R b b' := by
  constructor
  · intro h pre a post he b b' hb hs
    exact h pre [a] post (by simp [he]) b b' hb (by simp [foldlM_cons, hs])
  · intro h pre mid
    induction mid generalizing pre with
    | nil => intro post _ b b' _ hm; cases hm; exact hr b
    | cons a mid ih =>
      intro post he b b' hb hm
      obtain ⟨c, hc, hm⟩ := bind_ok.1 (by simpa [foldlM_cons] using hm)
      have hp : (pre ++ [a]).foldlM f b0 = .ok c := by
        simp [foldlM_append, hb, foldlM_cons, hc]
      exact ht b c b' (h pre a (mid ++ post) (by simp [he]) b c hb hc)
        (ih (pre ++ [a]) post (by simp [he]) c b' hp hm)

/-- A loop whose rounds succeed exactly under a condition on a view of the state that can be
followed on its own succeeds exactly when all the conditions hold. -/
lemma foldlM_exact {σ : Type} {R : β → σ → Prop} {g : σ → α → σ} {C : σ → α → Prop} (l : List α)
    {s : σ} (hR : R b s)
    (step : ∀ pre a post, l = pre ++ a :: post → ∀ b, R b (pre.foldl g s) → (C (pre.foldl g s) a ∧
      ∃ b', f b a = .ok b' ∧ R b' (g (pre.foldl g s) a)) ∨ (¬ C (pre.foldl g s) a ∧ ∃ e, f b a =
        .error e)) : ((∀ pre a post, l = pre ++ a :: post → C (pre.foldl g s) a) ∧
      ∃ b', l.foldlM f b = .ok b' ∧ R b' (l.foldl g s)) ∨
    (¬ (∀ pre a post, l = pre ++ a :: post → C (pre.foldl g s) a) ∧
      ∃ e, l.foldlM f b = .error e) := by
  induction l generalizing b s with
  | nil => exact .inl ⟨by simp, b, rfl, hR⟩
  | cons a l ih =>
    rw [foldlM_cons]
    rcases step [] a l rfl b hR with ⟨hC, b1, ho, hR1⟩ | ⟨hC, e, he⟩
    · rw [ho, ok_bind, foldl_cons]
      have hc : (∀ pre x post, a :: l = pre ++ x :: post → C (pre.foldl g s) x) ↔
          ∀ pre x post, l = pre ++ x :: post → C (pre.foldl g (g s a)) x := by
        constructor
        · exact fun h pre x post hq => h (a :: pre) x post (by rw [hq]; rfl)
        · intro h pre x post hq
          cases pre with
          | nil =>
            obtain ⟨rfl, -⟩ := List.cons.inj hq
            exact hC
          | cons c pre =>
            obtain ⟨rfl, rfl⟩ := List.cons.inj hq
            exact h pre x post rfl
      rw [hc]
      exact ih hR1 fun pre x post hq => step (a :: pre) x post (by rw [hq]; rfl)
    · refine .inr ⟨fun h => hC (h [] a l rfl), e, ?_⟩
      rw [he, error_bind]

/-- A loop over distinct elements whose steps all return. The invariant knows the elements that
were processed. -/
lemma foldlM_of_nodup [DecidableEq α] (I : Finset α → β → Prop) (hn : l.Nodup) (hb : I ∅ b)
    (step : ∀ done a b, a ∈ l → a ∉ done → I done b → ∃ b', f b a = .ok b' ∧ I (insert a done) b') :
    ∃ b', l.foldlM f b = .ok b' ∧ I l.toFinset b' := by
  suffices h : ∀ (l : List α) (done : Finset α) (b : β), l.Nodup → (∀ a ∈ l, a ∉ done) →
      (∀ done a b, a ∈ l → a ∉ done → I done b → ∃ b', f b a = .ok b' ∧ I (insert a done) b') →
      I done b → ∃ b', l.foldlM f b = .ok b' ∧ I (done ∪ l.toFinset) b' by
    simpa using h l ∅ b hn (by simp) step hb
  intro l
  induction l with
  | nil => exact fun done b _ _ _ hb => ⟨b, rfl, by simpa using hb⟩
  | cons a l ih =>
    intro done b hn hf step hb
    obtain ⟨ha, hl⟩ := nodup_cons.1 hn
    obtain ⟨c, hc, hI⟩ := step done a b (by simp) (hf a (by simp)) hb
    have hf' : ∀ x ∈ l, x ∉ insert a done := fun x hx => by
      have := hf x (by simp [hx])
      have he : x ≠ a := fun h => ha (h ▸ hx)
      simp [this, he]
    obtain ⟨d, hd, hJ⟩ := ih (insert a done) c hl hf'
      (fun done x b hx => step done x b (by simp [hx])) hI
    refine ⟨d, by simp [foldlM_cons, hc, hd], ?_⟩
    rwa [toFinset_cons, Finset.union_insert, ← Finset.insert_union]

end Run
end Trivechain
