import Trivechain.Bls.Basic

/-!
# Outpoints, scripts and outputs

Scripts are kept by what the solver makes of them: the standard forms with the key or
script hash that they pay to, and other scripts by an arbitrary number.
-/

namespace Trivechain

structure OutPoint where
  hash : Uint256
  n : Nat
deriving DecidableEq, Repr

def OutPoint.null : OutPoint := ⟨0, 0xffffffff⟩

namespace OutPoint

instance : Ord OutPoint := ⟨compareLex (compareOn OutPoint.hash) (compareOn OutPoint.n)⟩

instance : Std.TransOrd OutPoint :=
  inferInstanceAs (Std.TransCmp (compareLex (compareOn OutPoint.hash) (compareOn OutPoint.n)))

instance : Std.LawfulEqOrd OutPoint where
  eq_of_compare {o o'} h := by
    have h : compareLex (compareOn OutPoint.hash) (compareOn OutPoint.n) o o' = .eq := h
    rw [compareLex, Ordering.then_eq_eq] at h
    cases o
    cases o'
    simp_all [compareOn]

end OutPoint

abbrev KeyID := Nat

/-- `CService`; a default constructed one is null. -/
structure Service where
  ip : Nat
  port : Nat
deriving DecidableEq, Repr

def Service.null : Service := ⟨0, 0⟩

inductive Destination where
  | keyID (id : KeyID)
  | scriptID (id : Nat)
deriving DecidableEq, Repr

inductive Script where
  | empty
  | pubKey (id : KeyID)
  | pubKeyHash (id : KeyID)
  | scriptHash (id : Nat)
  | unspendable (bytes : Nat)
  | nonStandard (bytes : Nat)
deriving DecidableEq, Repr

namespace Script

def isPayToPublicKeyHash : Script → Bool
  | .pubKeyHash _ => true
  | _ => false

def isPayToScriptHash : Script → Bool
  | .scriptHash _ => true
  | _ => false

def isUnspendable : Script → Bool
  | .unspendable _ => true
  | _ => false

def extractDestination : Script → Option Destination
  | .pubKey id => some (.keyID id)
  | .pubKeyHash id => some (.keyID id)
  | .scriptHash id => some (.scriptID id)
  | _ => none

lemma spendable_of_extractDestination {s : Script} {dest : Destination}
    (h : s.extractDestination = some dest) : s.isUnspendable = false := by
  cases s <;> simp_all [extractDestination, isUnspendable]

end Script

abbrev Amount := Int

def COIN : Amount := 100000000

structure TxOut where
  nValue : Amount
  scriptPubKey : Script
deriving DecidableEq, Repr

end Trivechain
