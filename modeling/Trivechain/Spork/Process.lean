import Trivechain.Lib.Maps
import Trivechain.Spork.CheckAndRemove

/-!
# Received sporks

`ProcessSpork` stores a spork under the key that signed it, if the key is authorised and the spork
is newer than the one there. The signer is recovered from the signature, in the current format and
then in the other one. The new format signs a hash of the three fields; the old one signs the three
numbers written one after the other.
-/

namespace Trivechain.Spork
open Std (ExtTreeMap)
open List

def bytes : Nat → Nat → List Nat
  | 0, _ => []
  | width + 1, n => n % 256 :: bytes width (n / 256)

def intBytes (width : Nat) (n : Int) : List Nat := bytes width (n % (256 ^ width : Nat)).toNat

def writeCompactSize (nSize : Nat) : List Nat :=
  if nSize < 253 then bytes 1 nSize
  else if nSize < 256 ^ 2 then 253 :: bytes 2 nSize
  else if nSize < 256 ^ 4 then 254 :: bytes 4 nSize
  else 255 :: bytes 8 nSize

def stringBytes (s : String) : List Nat :=
  writeCompactSize s.toList.length ++ s.toList.map Char.toNat

def strMessageMagic : String := "DarkCoin Signed Message:\n"

structure SporkContent where
  nSporkID : Int
  nValue : Int
  nTimeSigned : Int
  id_range : -2 ^ 31 ≤ nSporkID ∧ nSporkID < 2 ^ 31
  value_range : -2 ^ 63 ≤ nValue ∧ nValue < 2 ^ 63
  time_range : -2 ^ 63 ≤ nTimeSigned ∧ nTimeSigned < 2 ^ 63
deriving DecidableEq

namespace SporkContent

def strMessage (c : SporkContent) : String :=
  toString c.nSporkID ++ toString c.nValue ++ toString c.nTimeSigned

def oldBytes (c : SporkContent) : List Nat :=
  stringBytes strMessageMagic ++ stringBytes c.strMessage

def newBytes (c : SporkContent) : List Nat :=
  intBytes 4 c.nSporkID ++ intBytes 8 c.nValue ++ intBytes 8 c.nTimeSigned

def signedBytes (c : SporkContent) (fSporkSixActive : Bool) : List Nat :=
  if fSporkSixActive then c.newBytes else c.oldBytes

end SporkContent

lemma length_bytes (width n : Nat) : (bytes width n).length = width := by
  induction width generalizing n with
  | zero => rfl
  | succ width ih => rw [bytes, length_cons, ih]

lemma bytes_inj {width n m : Nat} (hn : n < 256 ^ width) (hm : m < 256 ^ width)
    (h : bytes width n = bytes width m) : n = m := by
  induction width generalizing n m with
  | zero => omega
  | succ width ih =>
    obtain ⟨hmd, hd⟩ := List.cons.inj h
    rw [pow_succ] at hn hm
    have := ih (by omega) (by omega) hd
    omega

lemma intBytes_inj {width : Nat} {n m : Int} (hn : -(256 ^ width : Nat) ≤ 2 * n)
    (hn' : 2 * n < (256 ^ width : Nat)) (hm : -(256 ^ width : Nat) ≤ 2 * m)
    (hm' : 2 * m < (256 ^ width : Nat)) (h : intBytes width n = intBytes width m) : n = m := by
  have hp : (0 : Int) < (256 ^ width : Nat) := by positivity
  have hl : ∀ k : Int, (k % (256 ^ width : Nat)).toNat < 256 ^ width := fun k => by
    have := Int.emod_lt_of_pos k hp
    have := Int.emod_nonneg k hp.ne'
    omega
  have he := bytes_inj (hl n) (hl m) h
  have hn0 := Int.emod_nonneg n hp.ne'
  have hm0 := Int.emod_nonneg m hp.ne'
  have hmd : n % (256 ^ width : Nat) = m % (256 ^ width : Nat) := by omega
  have hd := Int.emod_emod_of_dvd
  obtain ⟨k, hk⟩ := Int.ModEq.dvd hmd
  have hk0 : k = 0 := by nlinarith
  rw [hk0, mul_zero] at hk
  omega

lemma length_writeCompactSize (n : Nat) : (writeCompactSize n).length =
    if n < 253 then 1 else if n < 256 ^ 2 then 3 else if n < 256 ^ 4 then 5 else 9 := by
  unfold writeCompactSize
  split_ifs <;> simp [length_bytes]

lemma stringBytes_inj {s s' : String} (h : stringBytes s = stringBytes s') : s = s' := by
  have hl := congrArg List.length h
  simp only [stringBytes, length_append, length_writeCompactSize, length_map] at hl
  have he : s.toList.length = s'.toList.length := by
    split_ifs at hl <;> omega
  rw [stringBytes, stringBytes, he] at h
  have hc := append_cancel_left h
  have hi : Function.Injective Char.toNat := fun a b ha => Char.ext (UInt32.toNat_inj.1 ha)
  exact String.toList_inj.1 (hi.list_map hc)

namespace SporkContent
variable {c c' : SporkContent}

lemma ext_fields (hi : c.nSporkID = c'.nSporkID) (hv : c.nValue = c'.nValue)
    (ht : c.nTimeSigned = c'.nTimeSigned) : c = c' := by
  cases c
  cases c'
  simp_all

lemma newBytes_inj (h : c.newBytes = c'.newBytes) : c = c' := by
  obtain ⟨h, ht⟩ := append_inj h (by simp [intBytes, length_bytes])
  obtain ⟨hi, hv⟩ := append_inj h (by simp [intBytes, length_bytes])
  have := c.id_range
  have := c'.id_range
  have := c.value_range
  have := c'.value_range
  have := c.time_range
  have := c'.time_range
  exact ext_fields (intBytes_inj (by norm_num; omega) (by norm_num; omega) (by norm_num; omega)
      (by norm_num; omega) hi)
    (intBytes_inj (by norm_num; omega) (by norm_num; omega) (by norm_num; omega)
      (by norm_num; omega) hv)
    (intBytes_inj (by norm_num; omega) (by norm_num; omega) (by norm_num; omega)
      (by norm_num; omega) ht)

lemma strMessage_eq_of_oldBytes (h : c.oldBytes = c'.oldBytes) : c.strMessage = c'.strMessage :=
  stringBytes_inj (append_cancel_left h)

lemma oldBytes_ne_newBytes : c.oldBytes ≠ c'.newBytes := by
  intro h
  have hl := congrArg List.length h
  have hm : (stringBytes strMessageMagic).length = 26 := by decide
  simp only [oldBytes, newBytes, intBytes, length_append, length_bytes, hm] at hl
  omega

end SporkContent

structure SignedSpork where
  content : SporkContent
  vchSig : VchSig
deriving DecidableEq

/-- Digests without collisions, and signatures that tell the signer. Under one key a signature is
for one digest. -/
structure SignatureEnv where
  /-- `CHashWriter` -/
  hash : List Nat → Uint256
  hash_injective : Function.Injective hash
  /-- `CPubKey::RecoverCompact`, with the id of the key. -/
  recoverCompact : Uint256 → VchSig → Option KeyID
  recover_inj : ∀ {d d' : Uint256} {vchSig : VchSig} {key : KeyID},
    recoverCompact d vchSig = some key → recoverCompact d' vchSig = some key → d = d'

section Manager
variable (env : SignatureEnv)

def SporkContent.digest (c : SporkContent) (fSporkSixActive : Bool) : Uint256 :=
  env.hash (c.signedBytes fSporkSixActive)

def SignedSpork.getHash (spork : SignedSpork) : Uint256 :=
  env.hash (spork.content.newBytes ++ writeCompactSize spork.vchSig.length ++ spork.vchSig)

def SignedSpork.getSignerKeyID (spork : SignedSpork) (fSporkSixActive : Bool) : Option KeyID :=
  env.recoverCompact (spork.content.digest env fSporkSixActive) spork.vchSig

def SPORK_6_NEW_SIGS : Int := 10005

def mapSporkDefaults : List (Int × Int) :=
  [(10001, 0), (10002, 0), (10004, 1000), (SPORK_6_NEW_SIGS, 4070908800), (10008, 4070908800),
    (10011, 0), (10014, 4070908800), (10015, 4070908800), (10016, 4070908800), (10018, 4070908800),
    (10019, 4070908800)]

structure SporkNode where
  mapSporksByHash : ExtTreeMap Uint256 SignedSpork := ∅
  mapSporksActive : ExtTreeMap Int (ExtTreeMap KeyID SignedSpork) := ∅
  setSporkPubKeyIDs : List KeyID
  nMinSporkKeys : Int

def valueLoop (nMinSporkKeys : Int) (mapValueCounts : Int → Int) : List Int → Option Int
  | [] => none
  | nValue :: values =>
    let mapValueCounts := Function.update mapValueCounts nValue (mapValueCounts nValue + 1)
    if nMinSporkKeys ≤ mapValueCounts nValue then some nValue
    else valueLoop nMinSporkKeys mapValueCounts values

/-- What `ProcessSpork` reads of the rest of the node. -/
structure SporkContext where
  fLiteMode : Bool
  hasTip : Bool
  adjustedTime : Int

namespace SporkNode

def stored (s : SporkNode) (nSporkID : Int) (key : KeyID) : Option SignedSpork :=
  (s.mapSporksActive[nSporkID]?).bind (·[key]?)

def sporkValueIsActive (s : SporkNode) (nSporkID : Int) : Option Int :=
  (s.mapSporksActive[nSporkID]?).bind fun signers =>
    valueLoop s.nMinSporkKeys (fun _ => 0) (signers.toList.map fun e => e.2.content.nValue)

def isSporkActive (s : SporkNode) (adjustedTime nSporkID : Int) : Bool :=
  match s.sporkValueIsActive nSporkID with
  | some nSporkValue => nSporkValue < adjustedTime
  | none =>
    match mapSporkDefaults.lookup nSporkID with
    | some nSporkValue => nSporkValue < adjustedTime
    | none => false

def store (s : SporkNode) (key : KeyID) (spork : SignedSpork) : SporkNode :=
  let nSporkID := spork.content.nSporkID
  { s with
    mapSporksByHash := s.mapSporksByHash.insert (spork.getHash env) spork
    mapSporksActive := s.mapSporksActive.insert nSporkID
      (((s.mapSporksActive[nSporkID]?).getD ∅).insert key spork) }

def signer (s : SporkNode) (spork : SignedSpork) (fSporkSixActive : Bool) : Option KeyID :=
  (spork.getSignerKeyID env fSporkSixActive).filter (· ∈ s.setSporkPubKeyIDs)

def accept (s : SporkNode) (key : KeyID) (spork : SignedSpork) : SporkNode :=
  match s.stored spork.content.nSporkID key with
  | some old =>
    if spork.content.nTimeSigned ≤ old.content.nTimeSigned then s else s.store env key spork
  | none => s.store env key spork

def processSpork (s : SporkNode) (ctx : SporkContext) (spork : SignedSpork) : SporkNode :=
  if ctx.fLiteMode then s
  else if !ctx.hasTip then s
  else if ctx.adjustedTime + 2 * 60 * 60 < spork.content.nTimeSigned then s
  else
    let fSpork6IsActive := s.isSporkActive ctx.adjustedTime SPORK_6_NEW_SIGS
    match s.signer env spork fSpork6IsActive with
    | some keyIDSigner => s.accept env keyIDSigner spork
    | none =>
      match s.signer env spork (!fSpork6IsActive) with
      | some keyIDSigner => s.accept env keyIDSigner spork
      | none => s

def updateSpork (s : SporkNode) (ctx : SporkContext) (spork : SignedSpork) : SporkNode :=
  match s.signer env spork (s.isSporkActive ctx.adjustedTime SPORK_6_NEW_SIGS) with
  | some keyIDSigner => s.store env keyIDSigner spork
  | none => s

variable {env} {s : SporkNode} {ctx : SporkContext} {spork : SignedSpork} {key : KeyID}

lemma stored_store (id : Int) (k : KeyID) : (s.store env key spork).stored id k =
      if id = spork.content.nSporkID ∧ k = key then some spork else s.stored id k := by
  simp only [stored, store, Maps.getElem?_insert]
  by_cases hi : id = spork.content.nSporkID
  · rw [if_pos hi, Option.bind_some, Maps.getElem?_insert, hi]
    by_cases hk : k = key
    · rw [if_pos hk, if_pos ⟨rfl, hk⟩]
    · rw [if_neg hk, if_neg fun h => hk h.2]
      cases s.mapSporksActive[spork.content.nSporkID]? <;> simp
  · rw [if_neg hi, if_neg fun h => hi h.1]

lemma signer_eq_some {fSporkSixActive : Bool} : s.signer env spork fSporkSixActive = some key ↔
      spork.getSignerKeyID env fSporkSixActive = some key ∧ key ∈ s.setSporkPubKeyIDs := by
  simp [signer, Option.filter_eq_some_iff]

lemma accept_cases :
    s.accept env key spork = s ∨ s.accept env key spork = s.store env key spork := by
  unfold accept
  split
  · split_ifs
    · exact .inl rfl
    · exact .inr rfl
  · exact .inr rfl

lemma processSpork_cases : s.processSpork env ctx spork = s ∨
    ∃ key fSporkSixActive, spork.getSignerKeyID env fSporkSixActive = some key ∧
      key ∈ s.setSporkPubKeyIDs ∧ s.processSpork env ctx spork = s.store env key spork := by
  have ha : ∀ key six, s.signer env spork six = some key → s.accept env key spork = s ∨
      ∃ key' six', spork.getSignerKeyID env six' = some key' ∧ key' ∈ s.setSporkPubKeyIDs ∧
        s.accept env key spork = s.store env key' spork := fun key six h =>
    accept_cases.imp id fun he => ⟨key, six, (signer_eq_some.1 h).1, (signer_eq_some.1 h).2, he⟩
  unfold processSpork
  split_ifs
  · exact .inl rfl
  · exact .inl rfl
  · exact .inl rfl
  · dsimp only
    split
    case _ key hk => exact ha key _ hk
    case _ =>
      split
      case _ key hk => exact ha key _ hk
      case _ => exact .inl rfl

lemma processSpork_eq_accept (hl : ctx.fLiteMode = false) (hp : ctx.hasTip)
    (ht : spork.content.nTimeSigned ≤ ctx.adjustedTime + 2 * 60 * 60)
    (hm : ∃ six, s.signer env spork six = some key)
    (hn : ∀ six k, s.signer env spork six = some k → k = key) :
    s.processSpork env ctx spork = s.accept env key spork := by
  rw [processSpork, hl, hp, if_neg Bool.false_ne_true, Bool.not_true,
    if_neg Bool.false_ne_true, if_neg (not_lt.2 ht)]
  dsimp only
  cases hf : s.signer env spork (s.isSporkActive ctx.adjustedTime SPORK_6_NEW_SIGS) with
  | some k =>
    dsimp only
    rw [hn _ k hf]
  | none =>
    obtain ⟨six, hs⟩ := hm
    have ho : six = !s.isSporkActive ctx.adjustedTime SPORK_6_NEW_SIGS := by
      refine Bool.eq_not.2 fun h => ?_
      rw [h, hf] at hs
      cases hs
    dsimp only
    rw [← ho, hs]

end SporkNode

structure Signature where
  key : KeyID
  content : SporkContent
  fSporkSixActive : Bool
  vchSig : VchSig

/-- `Sign` checks what it has signed. -/
def Signature.Sound (sig : Signature) : Prop :=
  env.recoverCompact (sig.content.digest env sig.fSporkSixActive) sig.vchSig = some sig.key

/-- A node together with all signatures that were made anywhere. -/
structure SporkSystem where
  node : SporkNode
  log : List Signature

/-- Whoever is recovered from the signature has signed the digest. -/
def SporkSystem.Unforged (s : SporkSystem) (vchSig : VchSig) : Prop :=
  ∀ (d : Uint256) (key : KeyID), key ∈ s.node.setSporkPubKeyIDs →
    env.recoverCompact d vchSig = some key →
    ∃ sig ∈ s.log, sig.key = key ∧ sig.content.digest env sig.fSporkSixActive = d

/-- What can happen, when the contents that are signed in the old format or received are
restricted. -/
inductive Reachable (Allowed : List Signature → SporkContent → Prop) : SporkSystem → Prop
  | start (keys : List KeyID) (nMinSporkKeys : Int) :
    Reachable Allowed ⟨{ setSporkPubKeyIDs := keys, nMinSporkKeys }, []⟩
  | sign {s : SporkSystem} (h : Reachable Allowed s) {sig : Signature} (hsound : sig.Sound env)
    (hallowed : sig.fSporkSixActive = false → Allowed s.log sig.content) :
    Reachable Allowed { s with log := sig :: s.log }
  | update {s : SporkSystem} (h : Reachable Allowed s) {sig : Signature} (hsound : sig.Sound env)
    (hallowed : sig.fSporkSixActive = false → Allowed s.log sig.content) {ctx : SporkContext}
    (hformat : sig.fSporkSixActive = s.node.isSporkActive ctx.adjustedTime SPORK_6_NEW_SIGS) :
    Reachable Allowed
      ⟨s.node.updateSpork env ctx ⟨sig.content, sig.vchSig⟩, sig :: s.log⟩
  | receive {s : SporkSystem} (h : Reachable Allowed s) {ctx : SporkContext} {spork : SignedSpork}
    (hunforged : s.Unforged env spork.vchSig) (hallowed : Allowed s.log spork.content) :
    Reachable Allowed { s with node := s.node.processSpork env ctx spork }

/-- Nobody has signed another spork in the old format whose numbers read the same. -/
def Unambiguous (log : List Signature) (c : SporkContent) : Prop :=
  ∀ sig ∈ log, sig.fSporkSixActive = false → sig.content.strMessage = c.strMessage → sig.content = c

/-- What holds in every state: sporks are filed under their ids and under keys that signed them. -/
structure SporkSystem.Authentic (s : SporkSystem) : Prop where
  sound : ∀ sig ∈ s.log, sig.Sound env
  unambiguous : ∀ sig ∈ s.log, sig.fSporkSixActive = false → Unambiguous s.log sig.content
  stored : ∀ (id : Int) (key : KeyID) (spork : SignedSpork), s.node.stored id key = some spork →
    key ∈ s.node.setSporkPubKeyIDs ∧ spork.content.nSporkID = id ∧
    ∃ sig ∈ s.log, sig.key = key ∧ sig.content = spork.content ∧
      spork.getSignerKeyID env sig.fSporkSixActive = some key

section Authenticity
variable {env} {s : SporkSystem}

lemma SporkContent.digest_inj {c c' : SporkContent} {six six' : Bool}
    (h : c.digest env six = c'.digest env six') :
    six = six' ∧ (six = true → c = c') ∧ (six = false → c.strMessage = c'.strMessage) := by
  have hb := env.hash_injective h
  cases six <;> cases six' <;> simp only [signedBytes, if_true, Bool.false_eq_true, if_false] at hb
  · exact ⟨rfl, nofun, fun _ => strMessage_eq_of_oldBytes hb⟩
  · exact (oldBytes_ne_newBytes hb).elim
  · exact (oldBytes_ne_newBytes hb.symm).elim
  · exact ⟨rfl, fun _ => newBytes_inj hb, nofun⟩

namespace SporkSystem.Authentic

lemma log_cons (h : s.Authentic env) {sig : Signature} (hsn : sig.Sound env)
    (hn : sig.fSporkSixActive = false → Unambiguous s.log sig.content) :
    SporkSystem.Authentic env { s with log := sig :: s.log } := by
  refine ⟨?_, ?_, fun id key spork hs => ?_⟩
  · rintro sig' (_ | ⟨_, hsig'⟩)
    · exact hsn
    · exact h.sound sig' hsig'
  · rintro sig1 h1 hold1 sig2 h2 hold2 hr
    rcases mem_cons.1 h1 with rfl | hi1 <;> rcases mem_cons.1 h2 with rfl | hi2
    · rfl
    · exact hn hold1 sig2 hi2 hold2 hr
    · exact (hn hold2 sig1 hi1 hold1 hr.symm).symm
    · exact h.unambiguous sig1 hi1 hold1 sig2 hi2 hold2 hr
  · obtain ⟨hk, hi, sig', hsig', hb⟩ := h.stored id key spork hs
    exact ⟨hk, hi, sig', mem_cons_of_mem _ hsig', hb⟩

lemma store (h : s.Authentic env) {key : KeyID} {spork : SignedSpork} {sig : Signature}
    (hk : key ∈ s.node.setSporkPubKeyIDs) (hsig : sig ∈ s.log) (hb : sig.key = key)
    (hc : sig.content = spork.content)
    (hg : spork.getSignerKeyID env sig.fSporkSixActive = some key) :
    SporkSystem.Authentic env { s with node := s.node.store env key spork } := by
  refine ⟨h.sound, h.unambiguous, fun id k spork' hs => ?_⟩
  rw [SporkNode.stored_store] at hs
  split_ifs at hs with hh
  · obtain ⟨rfl, rfl⟩ := hh
    obtain rfl := Option.some.inj hs
    exact ⟨hk, rfl, sig, hsig, hb, hc, hg⟩
  · exact h.stored id k spork' hs

end SporkSystem.Authentic

lemma SporkSystem.Unforged.signed {spork : SignedSpork} {key : KeyID} {six : Bool}
    (h : s.Unforged env spork.vchSig) (hu : Unambiguous s.log spork.content)
    (hg : spork.getSignerKeyID env six = some key) (hk : key ∈ s.node.setSporkPubKeyIDs) :
    ∃ sig ∈ s.log, sig.key = key ∧ sig.content = spork.content ∧ sig.fSporkSixActive = six := by
  obtain ⟨sig, hsig, hb, hd⟩ := h _ key hk hg
  obtain ⟨hf, hn, hold⟩ := SporkContent.digest_inj hd
  refine ⟨sig, hsig, hb, ?_, hf⟩
  cases hs : sig.fSporkSixActive with
  | true => exact hn hs
  | false => exact hu sig hsig hs (hold hs)

lemma authentic_of_reachable (h : Reachable env Unambiguous s) : s.Authentic env := by
  induction h with
  | start keys n =>
    refine ⟨fun sig hsig => absurd hsig not_mem_nil, fun sig hsig => absurd hsig not_mem_nil,
      fun id key spork ht => ?_⟩
    simp [SporkNode.stored] at ht
  | sign h hn ha ih => exact ih.log_cons hn ha
  | @update s h sig hn ha ctx hf ih =>
    have hl := ih.log_cons hn ha
    rw [SporkNode.updateSpork]
    split
    case _ key hk =>
      rw [← hf] at hk
      obtain ⟨hs, hm⟩ := SporkNode.signer_eq_some.1 hk
      have hb : sig.key = key := Option.some.inj (hn.symm.trans hs)
      exact hl.store hm mem_cons_self hb rfl hs
    case _ => exact hl
  | @receive s h ctx spork hu ha ih =>
    rcases @SporkNode.processSpork_cases env s.node ctx spork with
      he | ⟨key, six, hs, hk, he⟩
    · rw [he]
      exact ih
    · obtain ⟨sig, hsig, hb, hc, rfl⟩ := hu.signed ha hs hk
      rw [he]
      exact ih.store hk hsig hb hc hs

/-- A stored spork was signed by the key it is stored under, with this id, value and time, and its
signature was made for no other, if no two sporks read the same. -/
theorem authentic_of_run (h : Reachable env Unambiguous s) {id : Int} {key : KeyID} {spork :
  SignedSpork} (hstored : s.node.stored id key = some spork) :
    key ∈ s.node.setSporkPubKeyIDs ∧ spork.content.nSporkID = id ∧
    (∃ sig ∈ s.log, sig.key = key ∧ sig.content = spork.content) ∧
    ∀ sig ∈ s.log, sig.key = key → sig.vchSig = spork.vchSig → sig.content = spork.content := by
  have ha := authentic_of_reachable h
  obtain ⟨hk, hi, sig, hsig, hb, hc, hg⟩ := ha.stored id key spork hstored
  refine ⟨hk, hi, ⟨sig, hsig, hb, hc⟩, fun sig' hsig' hb' hv => ?_⟩
  have hsn := ha.sound sig' hsig'
  rw [Signature.Sound, hb', hv] at hsn
  obtain ⟨hf, hn, hold⟩ := SporkContent.digest_inj (env.recover_inj hsn hg)
  cases hs : sig'.fSporkSixActive with
  | true => exact hn hs
  | false =>
    rw [← hc] at hold ⊢
    exact ha.unambiguous sig hsig (hf ▸ hs) sig' hsig' hs (hold hs)

end Authenticity
end Manager

namespace TwoReadings

def env : SignatureEnv where
  hash := Encodable.encode
  hash_injective := Encodable.encode_injective
  recoverCompact d vchSig := match vchSig with
    | [key, d'] => if d = d' then some key else none
    | _ => none
  recover_inj := by
    rintro d d' vchSig key h h'
    split at h
    · split_ifs at h h'
      simp_all
    · cases h

def limit : SporkContent := ⟨10004, 1000, 1600000000, by decide, by decide, by decide⟩
def reread : SporkContent := ⟨10004, 10001, 600000000, by decide, by decide, by decide⟩

lemma oldBytes_eq : limit.oldBytes = reread.oldBytes := by decide +kernel

lemma digest_eq : limit.digest env false = reread.digest env false := congrArg env.hash oldBytes_eq

def vchSig (c : SporkContent) (six : Bool) : VchSig := [7, c.digest env six]

lemma recover (c : SporkContent) (six : Bool) (d : Uint256) :
    env.recoverCompact d (vchSig c six) = if d = c.digest env six then some 7 else none := rfl

lemma sound (c : SporkContent) (six : Bool) : Signature.Sound env ⟨7, c, six, vchSig c six⟩ := by
  rw [Signature.Sound, recover, if_pos rfl]

def ctx : SporkContext := ⟨false, true, 1600000100⟩

def signed (c : SporkContent) : SporkSystem :=
  ⟨{ setSporkPubKeyIDs := [7], nMinSporkKeys := 1 }, [⟨7, c, false, vchSig c false⟩]⟩

def received (c c' : SporkContent) : SporkSystem :=
  { signed c with node := (signed c).node.processSpork env ctx ⟨c', vchSig c false⟩ }

lemma reachable_received {Allowed : List Signature → SporkContent → Prop} {c c' : SporkContent}
    (hc : Allowed [] c) (hc' : Allowed (signed c).log c') :
    Reachable env Allowed (received c c') := by
  have hs : Reachable env Allowed (signed c) :=
    (Reachable.start [7] 1).sign (sound c false) fun _ => hc
  refine hs.receive ?_ hc'
  intro d key hk hr
  rw [recover] at hr
  split_ifs at hr with hd
  exact ⟨_, mem_cons_self, Option.some.inj hr, hd.symm⟩

lemma stored_received (c c' : SporkContent) (hd : c'.digest env false = c.digest env false)
    (ht : c'.nTimeSigned ≤ ctx.adjustedTime + 2 * 60 * 60) :
    (received c c').node.stored c'.nSporkID 7 = some ⟨c', vchSig c false⟩ := by
  have hs : (signed c).node.signer env ⟨c', vchSig c false⟩ false = some 7 := by
    rw [SporkNode.signer_eq_some, SignedSpork.getSignerKeyID, recover, if_pos hd]
    exact ⟨rfl, mem_singleton_self 7⟩
  have ho : ∀ six k, (signed c).node.signer env ⟨c', vchSig c false⟩ six = some k → k = 7 := by
    intro six k hk
    exact mem_singleton.1 (SporkNode.signer_eq_some.1 hk).2
  rw [received, SporkNode.processSpork_eq_accept rfl rfl ht ⟨false, hs⟩ ho]
  have hn : (signed c).node.stored c'.nSporkID 7 = none := by simp [SporkNode.stored, signed]
  rw [SporkNode.accept, hn, SporkNode.stored_store, if_pos ⟨rfl, rfl⟩]

/-- The key has signed a limit of 1000, and a limit of 10001 is stored. -/
theorem reread_stored : ∃ (env : SignatureEnv) (s : SporkSystem) (vchSig : VchSig),
    Reachable env (fun _ _ => True) s ∧ s.node.stored 10004 7 = some ⟨reread, vchSig⟩ ∧
      ¬ ∃ sig ∈ s.log, sig.key = 7 ∧ sig.content = reread := by
  refine ⟨env, received limit reread, _, reachable_received trivial trivial,
    stored_received _ _ digest_eq.symm (by decide), ?_⟩
  rintro ⟨sig, hsig, -, hc⟩
  obtain rfl := List.mem_singleton.1 hsig
  exact absurd hc (by decide)

theorem authentic_limit :
    7 ∈ (received limit limit).node.setSporkPubKeyIDs ∧ limit.nSporkID = 10004 ∧
    (∃ sig ∈ (received limit limit).log, sig.key = 7 ∧ sig.content = limit) ∧
    ∀ sig ∈ (received limit limit).log, sig.key = 7 → sig.vchSig = vchSig limit false →
      sig.content = limit :=
  authentic_of_run
    (reachable_received (fun sig hsig => absurd hsig List.not_mem_nil) fun sig hsig _ _ => by
      rw [List.mem_singleton.1 hsig])
    (stored_received limit limit rfl (by decide))

end TwoReadings
end Trivechain.Spork
