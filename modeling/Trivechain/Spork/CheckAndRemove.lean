import Trivechain.Lib.Loop
import Trivechain.Primitives.Env

/-!
# Checking the spork cache

After the sporks are read from disk, `CheckAndRemove` erases from both maps what is not signed by a
spork key. The first two loops are nested and go over `mapSporksActive`, erasing from
`mapSporksByHash` too; a third loop goes over what is left there.

One branch of the inner loop does not move the iterator: a spork of a signer who is not authorised
is erased from the other map, again and again. And a spork filed under the wrong signer is erased
from `mapSporksByHash` although its own signer may be authorised.
-/

namespace Trivechain.Spork
open Loop (Yields)
open List Loop

structure SporkMessage where
  nSporkID : Int
  nValue : Int
  nTimeSigned : Int
  vchSig : VchSig
deriving DecidableEq

structure SporkEnv where
  getHash : SporkMessage → Uint256
  /-- The hash of a spork without its signature. -/
  getSignatureHash : Int → Int → Int → Uint256
  /-- `CHashSigner::VerifyHash` -/
  verifyHash : Uint256 → KeyID → VchSig → Bool
  /-- `CMessageSigner::VerifyMessage` -/
  verifyMessage : KeyID → VchSig → String → Bool

structure SporkManager where
  mapSporksByHash : List (Uint256 × SporkMessage)
  mapSporksActive : List (Int × List (KeyID × SporkMessage))
  setSporkPubKeyIDs : List KeyID
  nodup_byHash : (mapSporksByHash.map Prod.fst).Nodup
  nodup_active : (mapSporksActive.map Prod.fst).Nodup
  nodup_signers : ∀ e ∈ mapSporksActive, (e.2.map Prod.fst).Nodup

variable (env : SporkEnv)

def SporkMessage.checkSignature (spork : SporkMessage) (pubKeyId : KeyID) (fSporkSixActive : Bool) :
    Bool :=
  let hash := env.getSignatureHash spork.nSporkID spork.nValue spork.nTimeSigned
  if fSporkSixActive then env.verifyHash hash pubKeyId spork.vchSig
  else
    let strMessage := toString spork.nSporkID ++ toString spork.nValue ++ toString spork.nTimeSigned
    if env.verifyMessage pubKeyId spork.vchSig strMessage then true
    else env.verifyHash hash pubKeyId spork.vchSig

def SporkMessage.signedBy (spork : SporkMessage) (pubKeyId : KeyID) : Bool :=
  spork.checkSignature env pubKeyId false || spork.checkSignature env pubKeyId true

abbrev ByHash := List (Uint256 × SporkMessage)
abbrev Signers := List (KeyID × SporkMessage)
abbrev Active := List (Int × Signers)

def eraseHash (byHash : ByHash) (hash : Uint256) : ByHash := byHash.filter fun e => e.1 ≠ hash

/-- Where the loops are. A map with an iterator in it is split into what it has passed and what it
has not. -/
inductive Position where
  /-- The head of the first loop. -/
  | outer (passed todo : Active) (byHash : ByHash)
  /-- The head of the loop inside, for one spork id. -/
  | inner (passed : Active) (nSporkID : Int) (signersPassed signers : Signers) (todo : Active)
      (byHash : ByHash)
  /-- The head of the last loop. -/
  | byHash (active : Active) (passed todo : ByHash)

def round (keys : List KeyID) : Position → Position ⊕ (Active × ByHash)
  | .outer passed [] byHash => .inl (.byHash passed [] byHash)
  | .outer passed ((nSporkID, signers) :: todo) byHash =>
    .inl (.inner passed nSporkID [] signers todo byHash)
  | .inner passed nSporkID signersPassed [] todo byHash =>
    if signersPassed.isEmpty then .inl (.outer passed todo byHash)
    else .inl (.outer (passed ++ [(nSporkID, signersPassed)]) todo byHash)
  | .inner passed nSporkID signersPassed ((signer, spork) :: signers) todo byHash =>
    if signer ∉ keys then
      -- the iterator stays where it is
      .inl (.inner passed nSporkID signersPassed ((signer, spork) :: signers) todo
        (eraseHash byHash (env.getHash spork)))
    else if !spork.checkSignature env signer false && !spork.checkSignature env signer true then
      .inl (.inner passed nSporkID signersPassed signers todo
        (eraseHash byHash (env.getHash spork)))
    else .inl (.inner passed nSporkID (signersPassed ++ [(signer, spork)]) signers todo byHash)
  | .byHash active passed [] => .inr (active, passed)
  | .byHash active passed ((hash, spork) :: todo) =>
    let found := keys.any fun signer =>
      spork.checkSignature env signer false || spork.checkSignature env signer true
    if found then .inl (.byHash active (passed ++ [(hash, spork)]) todo)
    else .inl (.byHash active passed todo)

/-- `CheckAndRemove` returns and leaves these maps. Without keys the assertion before the loops
fails. -/
def SporkManager.CheckAndRemove (s : SporkManager) (r : Active × ByHash) : Prop :=
  s.setSporkPubKeyIDs ≠ [] ∧
    Yields (round env s.setSporkPubKeyIDs) (.outer [] s.mapSporksActive s.mapSporksByHash) r

def keptSigners (signers : Signers) : Signers := signers.filter fun e => e.2.signedBy env e.1

/-- What the loop over the signers leaves of the other map. -/
def purge (byHash : ByHash) (signers : Signers) : ByHash :=
  byHash.filter fun e => signers.all fun x => x.2.signedBy env x.1 || e.1 ≠ env.getHash x.2

def keptActive (active : Active) : Active :=
  (active.map fun e => (e.1, keptSigners env e.2)).filter fun e => !e.2.isEmpty

def keptByHash (keys : List KeyID) (byHash : ByHash) : ByHash :=
  byHash.filter fun e => keys.any (e.2.signedBy env)

@[simp]
lemma keptSigners_nil : keptSigners env [] = [] := rfl

@[simp]
lemma keptSigners_cons (e : KeyID × SporkMessage) (signers : Signers) :
    keptSigners env (e :: signers) =
      if e.2.signedBy env e.1 then e :: keptSigners env signers else keptSigners env signers :=
  filter_cons

@[simp]
lemma purge_nil (byHash : ByHash) : purge env byHash [] = byHash := by simp [purge]

@[simp]
lemma purge_cons (byHash : ByHash) (e : KeyID × SporkMessage) (signers : Signers) :
    purge env byHash (e :: signers) =
      purge env (if e.2.signedBy env e.1 then byHash else eraseHash byHash (env.getHash e.2))
        signers := by
  cases h : e.2.signedBy env e.1 <;>
    simp [purge, eraseHash, filter_filter, h, Bool.and_comm]

@[simp]
lemma keptByHash_nil (keys : List KeyID) : keptByHash env keys [] = [] := rfl

@[simp]
lemma keptByHash_cons (keys : List KeyID) (e : Uint256 × SporkMessage) (byHash : ByHash) :
    keptByHash env keys (e :: byHash) =
      if keys.any (e.2.signedBy env) then e :: keptByHash env keys byHash
      else keptByHash env keys byHash :=
  filter_cons

section Loops
variable {env} {keys : List KeyID} {r : Active × ByHash}
variable {passed todo : Active} {id : Int} {sp signers : Signers} {byHash : ByHash}

lemma round_signer {signer : KeyID} {spork : SporkMessage} (h : signer ∈ keys) :
    round env keys (.inner passed id sp ((signer, spork) :: signers) todo byHash) =
      .inl (if spork.signedBy env signer then
          .inner passed id (sp ++ [(signer, spork)]) signers todo byHash
        else .inner passed id sp signers todo (eraseHash byHash (env.getHash spork))) := by
  unfold SporkMessage.signedBy
  rw [round, if_neg (not_not.2 h)]
  cases spork.checkSignature env signer false <;> cases spork.checkSignature env signer true <;> rfl

lemma yields_inner (hk : ∀ e ∈ signers, e.1 ∈ keys) :
    Yields (round env keys) (.inner passed id sp signers todo byHash) r ↔ Yields (round env keys)
        (.inner passed id (sp ++ keptSigners env signers) [] todo (purge env byHash signers)) r := by
  induction signers generalizing sp byHash with
  | nil => simp
  | cons e signers ih =>
    obtain ⟨signer, spork⟩ := e
    have hr : ∀ e ∈ signers, e.1 ∈ keys := fun e he => hk e (mem_cons_of_mem _ he)
    rw [yields_iff_of_continue (round_signer (hk _ mem_cons_self))]
    cases hs : spork.signedBy env signer with
    | true => simp [ih hr, hs]
    | false => simp [ih hr, hs]

lemma not_yields_inner (hk : ∃ e ∈ signers, e.1 ∉ keys) :
    ¬ Yields (round env keys) (.inner passed id sp signers todo byHash) r := by
  induction signers generalizing sp byHash with
  | nil => simp at hk
  | cons e signers ih =>
    obtain ⟨signer, spork⟩ := e
    by_cases h : signer ∈ keys
    · have hr : ∃ e ∈ signers, e.1 ∉ keys := by simpa [h] using hk
      rw [yields_iff_of_continue (round_signer h)]
      split
      · exact ih hr
      · exact ih hr
    · -- nothing but the other map changes from round to round
      refine not_yields_of_closed
        (fun p => ∃ byHash, p = .inner passed id sp ((signer, spork) :: signers) todo byHash)
        ?_ ⟨byHash, rfl⟩
      rintro _ ⟨byHash, rfl⟩
      exact ⟨_, by rw [round, if_pos h], _, rfl⟩

lemma yields_outer (hk : ∀ e ∈ todo, ∀ x ∈ e.2, x.1 ∈ keys) :
    Yields (round env keys) (.outer passed todo byHash) r ↔ Yields (round env keys)
        (.byHash (passed ++ keptActive env todo) [] (todo.foldl (fun b e => purge env b e.2) byHash))
        r := by
  induction todo generalizing passed byHash with
  | nil => rw [yields_iff_of_continue (round.eq_1 ..)]; simp [keptActive]
  | cons e todo ih =>
    obtain ⟨id, signers⟩ := e
    have hr : ∀ e ∈ todo, ∀ x ∈ e.2, x.1 ∈ keys := fun e he => hk e (mem_cons_of_mem _ he)
    rw [yields_iff_of_continue (round.eq_2 ..), yields_inner (hk _ mem_cons_self)]
    by_cases hm : keptSigners env signers = []
    · rw [yields_iff_of_continue (by rw [round, nil_append, hm]; rfl), ih hr]
      simp [keptActive, hm]
    · have hn : (keptSigners env signers).isEmpty = false := by simpa using hm
      rw [yields_iff_of_continue (by rw [round, nil_append, hn]; rfl), ih hr]
      simp [keptActive, hm]

lemma not_yields_outer (hk : ∃ e ∈ todo, ∃ x ∈ e.2, x.1 ∉ keys) :
    ¬ Yields (round env keys) (.outer passed todo byHash) r := by
  induction todo generalizing passed byHash with
  | nil => simp at hk
  | cons e todo ih =>
    obtain ⟨id, signers⟩ := e
    rw [yields_iff_of_continue (round.eq_2 ..)]
    by_cases h : ∃ x ∈ signers, x.1 ∉ keys
    · exact not_yields_inner h
    · have hr : ∃ e ∈ todo, ∃ x ∈ e.2, x.1 ∉ keys := by
        obtain ⟨e, he, hx⟩ := hk
        rcases mem_cons.1 he with rfl | he
        · exact absurd hx h
        · exact ⟨e, he, hx⟩
      push Not at h
      rw [yields_inner h]
      by_cases hm : (([] : Signers) ++ keptSigners env signers).isEmpty
      · rw [yields_iff_of_continue (by rw [round, if_pos hm])]
        exact ih hr
      · rw [yields_iff_of_continue (by rw [round, if_neg hm])]
        exact ih hr

lemma yields_byHash {active : Active} {passed todo : ByHash} :
    Yields (round env keys) (.byHash active passed todo) r ↔
      r = (active, passed ++ keptByHash env keys todo) := by
  induction todo generalizing passed with
  | nil => rw [yields_iff_of_finish (round.eq_5 ..)]; simp
  | cons e todo ih =>
    obtain ⟨hash, spork⟩ := e
    by_cases h : keys.any (spork.signedBy env)
    · rw [yields_iff_of_continue (by rw [round]; exact if_pos h), ih]
      simp [h]
    · rw [yields_iff_of_continue (by rw [round]; exact if_neg h), ih]
      simp [h]

end Loops

/-- The spork is in `mapSporksActive`, under the id and the signer. -/
def Filed (active : Active) (nSporkID : Int) (signer : KeyID) (spork : SporkMessage) : Prop :=
  ∃ e ∈ active, e.1 = nSporkID ∧ (signer, spork) ∈ e.2

variable {env} {s : SporkManager} {r : Active × ByHash}
variable {active : Active} {nSporkID : Int} {signer : KeyID}

lemma filed_cons {a : Int × Signers} {spork : SporkMessage} :
    Filed (a :: active) nSporkID signer spork ↔
      (a.1 = nSporkID ∧ (signer, spork) ∈ a.2) ∨ Filed active nSporkID signer spork := by
  simp [Filed]

lemma filed_keptActive {spork : SporkMessage} :
    Filed (keptActive env active) nSporkID signer spork ↔
      Filed active nSporkID signer spork ∧ spork.signedBy env signer := by
  constructor
  · rintro ⟨e, he, hi, hm⟩
    obtain ⟨⟨id, signers⟩, ha, rfl⟩ := mem_map.1 (mem_filter.1 he).1
    obtain ⟨hm, hs⟩ := mem_filter.1 hm
    exact ⟨⟨_, ha, hi, hm⟩, hs⟩
  · rintro ⟨⟨e, he, hi, hm⟩, hs⟩
    have hk : (signer, spork) ∈ keptSigners env e.2 := mem_filter.2 ⟨hm, hs⟩
    have hn : keptSigners env e.2 ≠ [] := ne_nil_of_mem hk
    exact ⟨_, mem_filter.2 ⟨mem_map_of_mem he, by simpa using hn⟩, hi, hk⟩

lemma mem_foldl_purge {byHash : ByHash} {e : Uint256 × SporkMessage} :
    e ∈ active.foldl (fun b a => purge env b a.2) byHash ↔
      e ∈ byHash ∧ ∀ nSporkID signer spork, Filed active nSporkID signer spork →
        spork.signedBy env signer = false → e.1 ≠ env.getHash spork := by
  induction active generalizing byHash with
  | nil => simp [Filed]
  | cons a active ih =>
    rw [foldl_cons, ih]
    have hp : e ∈ purge env byHash a.2 ↔ e ∈ byHash ∧
        ∀ x ∈ a.2, x.2.signedBy env x.1 = false → e.1 ≠ env.getHash x.2 := by
      simp [purge, or_iff_not_imp_left]
    simp only [hp, filed_cons]
    constructor
    · rintro ⟨⟨hm, hh⟩, hr⟩
      refine ⟨hm, ?_⟩
      rintro id signer spork (⟨-, hi⟩ | hf) hb
      · exact hh _ hi hb
      · exact hr id signer spork hf hb
    · rintro ⟨hm, ha⟩
      exact ⟨⟨hm, fun x hx => ha a.1 x.1 x.2 (.inl ⟨rfl, hx⟩)⟩,
        fun id signer spork hf => ha id signer spork (.inr hf)⟩

/-- What `CheckAndRemove` is for. -/
structure SporkManager.Cleaned (env : SporkEnv) (s : SporkManager) (r : Active × ByHash) :
    Prop where
  active : ∀ nSporkID signer spork, Filed r.1 nSporkID signer spork ↔
    Filed s.mapSporksActive nSporkID signer spork ∧
      signer ∈ s.setSporkPubKeyIDs ∧ spork.signedBy env signer
  byHash : ∀ hash spork, (hash, spork) ∈ r.2 ↔
    (hash, spork) ∈ s.mapSporksByHash ∧ ∃ key ∈ s.setSporkPubKeyIDs, spork.signedBy env key

/-- No spork is filed under a key without authority, or under one that did not sign it while the
other map has a spork of that hash with a good signature. -/
structure SporkManager.Orderly (env : SporkEnv) (s : SporkManager) : Prop where
  keys : s.setSporkPubKeyIDs ≠ []
  authorised : ∀ nSporkID signer spork, Filed s.mapSporksActive nSporkID signer spork →
    signer ∈ s.setSporkPubKeyIDs
  misfiled : ∀ nSporkID signer spork, Filed s.mapSporksActive nSporkID signer spork →
    spork.signedBy env signer = false →
      ∀ other, (env.getHash spork, other) ∈ s.mapSporksByHash →
        ¬ ∃ key ∈ s.setSporkPubKeyIDs, other.signedBy env key

lemma SporkManager.checkAndRemove_iff (hk : s.setSporkPubKeyIDs ≠ [])
    (ha : ∀ nSporkID signer spork, Filed s.mapSporksActive nSporkID signer spork →
      signer ∈ s.setSporkPubKeyIDs) : s.CheckAndRemove env r ↔
      r = (keptActive env s.mapSporksActive, keptByHash env s.setSporkPubKeyIDs
        (s.mapSporksActive.foldl (fun b e => purge env b e.2) s.mapSporksByHash)) := by
  have hs : ∀ e ∈ s.mapSporksActive, ∀ x ∈ e.2, x.1 ∈ s.setSporkPubKeyIDs :=
    fun e he x hx => ha e.1 x.1 x.2 ⟨e, he, rfl, hx⟩
  rw [CheckAndRemove, yields_outer hs, yields_byHash]
  simp [hk]

lemma SporkManager.authorised_of_checkAndRemove (h : s.CheckAndRemove env r)
    {spork : SporkMessage} (hf : Filed s.mapSporksActive nSporkID signer spork) :
    signer ∈ s.setSporkPubKeyIDs := by
  obtain ⟨e, he, -, hm⟩ := hf
  by_contra ha
  exact not_yields_outer ⟨e, he, _, hm, ha⟩ h.2

/-- `CheckAndRemove` returns with the sporks signed by a spork key, and no others, exactly when
every signer it meets is authorised and no spork filed under the wrong signer has the hash of a good
one. -/
theorem SporkManager.cleaned_iff (env : SporkEnv) (s : SporkManager) :
    (∃ r, s.CheckAndRemove env r ∧ s.Cleaned env r) ↔ s.Orderly env := by
  constructor
  · rintro ⟨r, hr, hc⟩
    have ha := fun id signer spork (h : Filed s.mapSporksActive id signer spork) =>
      authorised_of_checkAndRemove hr h
    refine ⟨hr.1, ha, ?_⟩
    rintro id signer spork hf hb other ho hk
    -- the good spork should have been kept, but it is purged with the misfiled one
    have hp := (hc.byHash _ _).2 ⟨ho, hk⟩
    rw [(checkAndRemove_iff hr.1 ha).1 hr] at hp
    exact (mem_foldl_purge.1 (List.mem_filter.1 hp).1).2 id signer spork hf hb rfl
  · rintro ⟨hy, ha, hs⟩
    refine ⟨_, (checkAndRemove_iff hy ha).2 rfl, ⟨?_, ?_⟩⟩
    · intro id signer spork
      rw [filed_keptActive]
      have := ha id signer spork
      tauto
    · intro hash spork
      simp only [keptByHash, List.mem_filter, mem_foldl_purge, List.any_eq_true]
      constructor
      · rintro ⟨⟨hm, -⟩, hk⟩
        exact ⟨hm, hk⟩
      · rintro ⟨hm, hk⟩
        refine ⟨⟨hm, ?_⟩, hk⟩
        rintro id signer other hf hb rfl
        exact hs id signer other hf hb spork hm hk

namespace Revoked

def goodSigs : SporkEnv where
  getHash spork := spork.nTimeSigned.toNat
  getSignatureHash _ _ nTimeSigned := nTimeSigned.toNat
  verifyHash _ _ _ := true
  verifyMessage _ _ _ := true

def spork : SporkMessage := ⟨10001, 0, 5, []⟩

/-- The cache on disk has a spork signed with key `2`; only key `1` is a spork key now. -/
def cache : SporkManager where
  mapSporksByHash := [(5, spork)]
  mapSporksActive := [(10001, [(2, spork)])]
  setSporkPubKeyIDs := [1]
  nodup_byHash := by decide
  nodup_active := by decide
  nodup_signers := by decide

/-- The loop over the signers never ends. -/
theorem never_returns : cache.setSporkPubKeyIDs ≠ [] ∧
    ∀ n, runFor (round goodSigs cache.setSporkPubKeyIDs) n
      (.outer [] cache.mapSporksActive cache.mapSporksByHash) = none := by
  refine ⟨by decide, fun n => ?_⟩
  cases h : runFor (round goodSigs cache.setSporkPubKeyIDs) n
    (.outer [] cache.mapSporksActive cache.mapSporksByHash) with
  | none => rfl
  | some r =>
    have hs : ∃ e ∈ cache.mapSporksActive, ∃ x ∈ e.2, x.1 ∉ cache.setSporkPubKeyIDs := by
      decide
    exact absurd ⟨n, h⟩ (not_yields_outer hs)

end Revoked
end Trivechain.Spork
