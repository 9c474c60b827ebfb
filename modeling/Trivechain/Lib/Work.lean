import Trivechain.Lib.Run

/-!
# Validation code that works on a state

Code that stops early does not take back what it changed: a block that is refused has left its
marks in caches. `Work` keeps the state in both cases, and a triple speaks about both: a
postcondition for code that returns, and one for code that stops.
-/

namespace Trivechain

/-- Code that works on a state and keeps it when it stops. -/
abbrev Work (σ α : Type) := ExceptT Stop (StateM σ) α

namespace Work
variable {σ α β : Type}

def exec (x : Work σ α) (s : σ) : Run α × σ := x.run.run s

@[simp] lemma exec_pure (a : α) (s : σ) : exec (pure a) s = (.ok a, s) := rfl

@[simp] lemma exec_lift (x : Run α) (s : σ) : exec (liftM x : Work σ α) s = (x, s) := rfl

lemma exec_lift_ok {x : Run α} {a : α} {s : σ} (h : x = .ok a) :
    exec (liftM x : Work σ α) s = (.ok a, s) := by rw [exec_lift, h]

@[simp] lemma exec_get (s : σ) : exec (get : Work σ σ) s = (.ok s, s) := rfl

@[simp] lemma exec_set (s s' : σ) : exec (set s' : Work σ PUnit) s = (.ok (), s') := rfl

@[simp] lemma exec_modify (f : σ → σ) (s : σ) :
    exec (modify f : Work σ PUnit) s = (.ok (), f s) := rfl

lemma exec_bind (x : Work σ α) (f : α → Work σ β) (s : σ) : exec (x >>= f) s = match exec x s with
    | (.ok a, s') => exec (f a) s'
    | (.error e, s') => (.error e, s') := by
  simp only [exec, ExceptT.run_bind, StateT.run_bind]
  rcases (x.run.run s : Run α × σ) with ⟨_ | _, s'⟩ <;> simp <;> rfl

lemma exec_bind_ok {x : Work σ α} {f : α → Work σ β} {s s' : σ} {a : α}
    (h : exec x s = (.ok a, s')) : exec (x >>= f) s = exec (f a) s' := by
  rw [exec_bind, h]

/-- From states satisfying `P`, the code ends in `Q` if it returns, and in `E` if it stops. -/
def Triple (P : σ → Prop) (x : Work σ α) (Q : α → σ → Prop) (E : σ → Prop) : Prop :=
  ∀ s, P s → match exec x s with
    | (.ok a, s') => Q a s'
    | (.error _, s') => E s'

namespace Triple
variable {P P' : σ → Prop} {Q Q' : α → σ → Prop} {R : β → σ → Prop} {E E' : σ → Prop}
variable {x : Work σ α} {s s' : σ} {a : α} {f : α → Work σ β} {γ : Type} {l : List γ}

lemma of_ok (h : Triple P x Q E) (hs : P s) (hx : exec x s = (.ok a, s')) : Q a s' := by
  have := h s hs
  rwa [hx] at this

lemma of_error (h : Triple P x Q E) {e : Stop} (hs : P s) (hx : exec x s = (.error e, s')) :
    E s' := by
  have := h s hs
  rwa [hx] at this

lemma conseq (h : Triple P x Q E) (hP : ∀ s, P' s → P s) (hQ : ∀ a s, Q a s → Q' a s)
    (hE : ∀ s, E s → E' s) : Triple P' x Q' E' := by
  intro s hs
  have := h s (hP s hs)
  rcases hx : exec x s with ⟨_ | a, s'⟩ <;> rw [hx] at this
  · exact hE s' this
  · exact hQ a s' this

lemma of_fact {F : Prop} (h : F → Triple (fun _ => True) x Q E) :
    Triple (fun _ => F) x Q E := fun s hF => h hF s trivial

lemma exists_ok (h : Triple P x Q fun _ => False) (hs : P s) :
    ∃ a s', exec x s = (.ok a, s') ∧ Q a s' := by
  have := h s hs
  rcases hx : exec x s with ⟨_ | a, s'⟩ <;> rw [hx] at this
  · exact this.elim
  · exact ⟨a, s', rfl, this⟩

lemma pure (h : ∀ s, P s → Q a s) : Triple P (Pure.pure a) Q E := fun s hs => h s hs

lemma bind (hx : Triple P x Q E) (hf : ∀ a, Triple (Q a) (f a) R E) : Triple P (x >>= f) R E := by
  intro s hs
  have := hx s hs
  rw [exec_bind]
  rcases he : exec x s with ⟨_ | a, s'⟩ <;> rw [he] at this
  · exact this
  · exact hf a s' this

lemma lift {x : Run α} (hQ : ∀ a s, x = .ok a → P s → Q a s) (hE : ∀ s, P s → E s) :
    Triple P (liftM x : Work σ α) Q E := by
  intro s hs
  rw [exec_lift]
  cases x with
  | error e => exact hE s hs
  | ok a => exact hQ a s rfl hs

lemma bind_lift {x : Run α} (hf : ∀ a, x = .ok a → Triple P (f a) R E) (hE : ∀ s, P s → E s) :
    Triple P (liftM x >>= f) R E :=
  bind (lift (Q := fun a s => x = .ok a ∧ P s) (fun _ _ hx hs => ⟨hx, hs⟩) hE)
    fun a s hs => hf a hs.1 s hs.2

lemma lift_ok {x : Run α} (hx : x = .ok a) (h : ∀ s, P s → Q a s) :
    Triple P (liftM x : Work σ α) Q E := by
  intro s hs
  rw [exec_lift, hx]
  exact h s hs

lemma bind_lift_ok {x : Run α} (hx : x = .ok a) (hf : Triple P (f a) R E) :
    Triple P (liftM x >>= f) R E := by
  intro s hs
  rw [hx, exec_bind_ok (exec_lift (.ok a) s)]
  exact hf s hs

lemma bind_denyIf {p : Prop} [Decidable p] {n : Nat} {c : RejectCode} {r : String}
    {f : Unit → Work σ β} (hp : ¬ p) (hf : Triple P (f ()) R E) :
    Triple P (liftM (Run.denyIf p n c r) >>= f) R E :=
  bind_lift_ok (Run.denyIf_ok.2 hp) hf

lemma denyIf {p : Prop} [Decidable p] {n : Nat} {c : RejectCode} {r : String}
    {Q : Unit → σ → Prop} (hp : ¬ p) (h : ∀ s, P s → Q () s) :
    Triple P (liftM (Run.denyIf p n c r)) Q E := lift_ok (Run.denyIf_ok.2 hp) h

lemma bind_get {f : σ → Work σ β} (hf : ∀ s, P s → Triple (· = s) (f s) R E) :
    Triple P (get >>= f) R E := by
  intro s hs
  rw [exec_bind_ok (exec_get s)]
  exact hf s hs s rfl

lemma bind_set {f : PUnit → Work σ β} (hf : Triple (· = s') (f ()) R E) :
    Triple P (set s' >>= f) R E := by
  intro s _
  rw [exec_bind_ok (exec_set s s')]
  exact hf s' rfl

lemma modify {f : σ → σ} {Q : PUnit → σ → Prop} (h : ∀ s, P s → Q () (f s)) :
    Triple P (modify f) Q E := fun s hs => h s hs

lemma ite {c : Prop} [Decidable c] {y : Work σ α} (hx : c → Triple P x Q E)
    (hy : ¬ c → Triple P y Q E) : Triple P (if c then x else y) Q E := by
  split_ifs with hc
  · exact hx hc
  · exact hy hc

lemma forM_snoc {a : γ} {f : γ → Work σ PUnit} {Q R : σ → Prop}
    (hl : Triple P (l.forM f) (fun _ => Q) E) (ha : Triple Q (f a) (fun _ => R) E) :
    Triple P ((l ++ [a]).forM f) (fun _ => R) E := by
  have hp : (l ++ [a]).forM f = l.forM f >>= fun _ => f a >>= fun _ => Pure.pure () :=
    List.forM_append
  rw [hp]
  exact bind hl fun _ => bind ha fun _ => pure fun s hs => hs

lemma forM {f : γ → Work σ PUnit} (I : List γ → σ → Prop)
    (step : ∀ pre a post, l = pre ++ a :: post → Triple (I pre) (f a) (fun _ => I (pre ++ [a])) E) :
    Triple (I []) (l.forM f) (fun _ => I l) E := by
  suffices h : ∀ pre post, l = pre ++ post →
      Triple (I pre) (post.forM f) (fun _ => I l) E from h [] l rfl
  intro pre post
  induction post generalizing pre with
  | nil =>
    intro he
    obtain rfl : l = pre := by simpa using he
    exact pure fun s hs => hs
  | cons a post ih =>
    intro he
    exact bind (step pre a post he) fun _ => ih (pre ++ [a]) (by simp [he])

lemma mapM {f : γ → Work σ α} {I : σ → Prop} (step : ∀ a ∈ l, Triple I (f a) (fun _ => I) E) :
    Triple I (l.mapM f) (fun _ => I) E := by
  induction l with
  | nil => exact pure fun s hs => hs
  | cons a l ih =>
    rw [List.mapM_cons]
    refine bind (step a (by simp)) fun b => ?_
    exact bind (ih fun a' ha' => step a' (by simp [ha'])) fun bs => pure fun s hs => hs

end Triple

/-- From states satisfying `P`, the code answers like code without a state, and keeps `P`. -/
def Answers (P : σ → Prop) (x : Work σ α) (r : Run α) : Prop :=
  ∀ s, P s → (exec x s).1 = r ∧ P (exec x s).2

namespace Answers
variable {P : σ → Prop}

lemma pure (a : α) : Answers P (Pure.pure a) (.ok a) := fun _ hs => ⟨rfl, hs⟩

lemma lift (r : Run α) : Answers P (liftM r : Work σ α) r := fun _ hs => ⟨rfl, hs⟩

variable {r : Run α}

lemma bind {x : Work σ α} {f : α → Work σ β} {g : α → Run β} (hx : Answers P x r)
    (hf : ∀ a, r = .ok a → Answers P (f a) (g a)) : Answers P (x >>= f) (r >>= g) := by
  intro s hs
  obtain ⟨hr, hs'⟩ := hx s hs
  rw [exec_bind]
  rcases he : exec x s with ⟨_ | a, s'⟩ <;> rw [he] at hr hs' <;> subst hr
  · exact ⟨rfl, hs'⟩
  · exact hf a rfl s' hs'

lemma bind_lift_ok {a : α} {f : α → Work σ β} {r' : Run β} (h : r = .ok a)
    (hf : Answers P (f a) r') : Answers P (liftM r >>= f) r' := by
  intro s hs
  rw [exec_bind_ok (exec_lift_ok h)]
  exact hf s hs

lemma foldlM {γ : Type} {l : List γ} {f : β → γ → Work σ β} {g : β → γ → Run β}
    (h : ∀ b, ∀ c ∈ l, Answers P (f b c) (g b c)) (b : β) :
    Answers P (l.foldlM f b) (l.foldlM g b) := by
  induction l generalizing b with
  | nil => exact pure b
  | cons c l ih =>
    rw [List.foldlM_cons, List.foldlM_cons]
    exact bind (h b c (by simp)) fun b' _ => ih (fun b c hc => h b c (by simp [hc])) b'

lemma exec_eq {x : Work σ α} (h : Answers P x r) {s : σ} (hs : P s) :
    ∃ s', exec x s = (r, s') ∧ P s' := by
  obtain ⟨hr, hs'⟩ := h s hs
  exact ⟨(exec x s).2, by rw [← hr], hs'⟩

end Answers
end Work
end Trivechain
