import Trivechain.Lib.Run

/-!
# BLS objects

Verification of one signature under one key is an uninterpreted predicate. An aggregate keeps the
list of its parts and verifies exactly when they do: this is the ideal reading under which batched
verification is compared with verification one by one.

A received public key or signature is `none` when its wrapper is not valid (`CBLSWrapper::IsValid`).
Lazy wrappers are the object their `Get()` returns.
-/

namespace Trivechain

/-- Hashes. They are unbounded here, which is what lets a hash function be injective. -/
abbrev Uint256 := Nat

namespace Bls

abbrev PubKey := Nat
abbrev Sig := Nat

/-- A `CBLSWrapper` filled by aggregation, not valid as long as nothing was added. -/
structure Agg (α : Type) where
  parts : List α

namespace Agg
variable {α : Type}

def empty : Agg α := ⟨[]⟩

def isValid (a : Agg α) : Bool := !a.parts.isEmpty

def ofObject (o : Option α) : Agg α := ⟨o.toList⟩

def aggregateInsecure (a : Agg α) : Option α → Run (Agg α)
  | some x => if a.isValid then .ok ⟨a.parts ++ [x]⟩ else .error (.fault .assertion)
  | none => .error (.fault .assertion)

/-- `if (!agg.IsValid()) agg = o; else agg.AggregateInsecure(o);` -/
def add (a : Agg α) (o : Option α) : Run (Agg α) :=
  if a.isValid then a.aggregateInsecure o else .ok (ofObject o)

@[simp] lemma parts_empty : (empty : Agg α).parts = [] := rfl

@[simp] lemma isValid_iff (a : Agg α) : a.isValid = true ↔ a.parts ≠ [] := by
  simp [isValid]

@[simp] lemma add_some (a : Agg α) (x : α) : a.add (some x) = .ok ⟨a.parts ++ [x]⟩ := by
  by_cases h : a.isValid
  · simp [add, aggregateInsecure, h]
  · have : a.parts = [] := by simpa using h
    simp [add, ofObject, this, isValid]

end Agg

section Verification
variable (verify : PubKey → Uint256 → Sig → Bool)

def verifyInsecure (sig : Option Sig) (pubKey : Option PubKey) (hash : Uint256) : Bool :=
  match sig, pubKey with
  | some s, some k => verify k hash s
  | _, _ => false

def verifyParts : List Sig → List (Uint256 × PubKey) → Bool
  | [], [] => true
  | s :: ss, (h, k) :: ks => verify k h s && verifyParts ss ks
  | _, _ => false

def verifyInsecureAggregated (sig : Agg Sig) (pubKeys : List (Agg PubKey))
    (hashes : List Uint256) : Run Bool := do
  if !sig.isValid then
    return false
  Run.ensure (pubKeys ≠ [] ∧ hashes ≠ [] ∧ pubKeys.length = hashes.length)
  if pubKeys.any (fun p => !p.isValid) then
    return false
  return verifyParts verify sig.parts
    ((pubKeys.zip hashes).flatMap fun p => p.1.parts.map fun k => (p.2, k))

lemma verifyParts_map {ι : Type} (f : ι → Sig) (g : ι → Uint256 × PubKey) (l : List ι) :
    verifyParts verify (l.map f) (l.map g) = l.all fun i => verify (g i).2 (g i).1 (f i) := by
  induction l with
  | nil => rfl
  | cons i l ih => simp [verifyParts, ih]

end Verification
end Bls
end Trivechain
