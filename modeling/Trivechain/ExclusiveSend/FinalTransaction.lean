import Trivechain.ExclusiveSend.Server

/-!
# Signatures of the final transaction

The server checks a signature against the script that it remembers for the input, in a transaction
put together from the entries in the order of their arrival. But the script is not part of the
messages: it is empty in every entry, so the check says nothing about the spent output. A final
transaction is properly signed only if the participants sent proper signatures, at the right time.
-/

namespace Trivechain.ExclusiveSend
open List Except Run Server

def TxIn.key (txin : TxIn) : OutPoint × Nat := (txin.prevout, txin.nSequence)

structure MutableTransaction.SameBody (tx tx' : MutableTransaction) : Prop where
  keys : tx.vin.map TxIn.key = tx'.vin.map TxIn.key
  vout : tx.vout = tx'.vout
  nLockTime : tx.nLockTime = tx'.nLockTime

lemma MutableTransaction.SameBody.refl (tx : MutableTransaction) : tx.SameBody tx := ⟨rfl, rfl, rfl⟩

lemma MutableTransaction.SameBody.trans {tx tx' tx'' : MutableTransaction} (h : tx.SameBody tx')
    (h' : tx'.SameBody tx'') : tx.SameBody tx'' :=
  ⟨h.keys.trans h'.keys, h.vout.trans h'.vout, h.nLockTime.trans h'.nLockTime⟩

section Signatures
variable (p : Params) (coins : OutPoint → TxOut)

/-- The signature satisfies the script of the spent output, whatever the other inputs are signed
with. -/
def Satisfies (txin : TxIn) (tx : MutableTransaction) (i : Nat) : Prop :=
  ∀ tx', tx'.SameBody tx →
    p.verifyScript txin.scriptSig (coins txin.prevout).scriptPubKey tx' i = true

def FullySigned (tx : MutableTransaction) : Prop :=
  ∀ i txin, tx.vin[i]? = some txin →
    p.verifyScript txin.scriptSig (coins txin.prevout).scriptPubKey tx i = true

variable {p coins}

lemma Satisfies.congr {txin : TxIn} {tx tx' : MutableTransaction} {i : Nat}
    (h : Satisfies p coins txin tx i) (hb : tx'.SameBody tx) : Satisfies p coins txin tx' i :=
  fun _ hb' => h _ (hb'.trans hb)

namespace Server
variable {ctx : Context} {s s' : Server}

@[simp] lemma committed_act (a : Action) : (s.act a).committed = s.committed ++ match a with
    | .submitFinal tx => [tx]
    | _ => [] := by
  cases a <;> simp [committed, act]

@[simp] lemma signFinal_sameBody (txin : TxIn) (tx : MutableTransaction) :
    (signFinal txin tx).SameBody tx := by
  refine ⟨?_, rfl, rfl⟩
  rw [signFinal, map_map]
  refine map_congr_left fun x _ => ?_
  dsimp only [Function.comp]
  split_ifs <;> rfl

variable {txin : TxIn} {xs xs' : List TxDSIn} {peer : Peer} {dsa : Accept}

lemma signFinal_getElem? {x : TxIn} {tx : MutableTransaction} {i : Nat}
    (h : (signFinal txin tx).vin[i]? = some x) : ∃ y, tx.vin[i]? = some y ∧ y.key = x.key ∧
      (x.key = txin.key ∧ x.scriptSig = txin.scriptSig ∨ x.key ≠ txin.key ∧ x = y) := by
  rw [signFinal, getElem?_map] at h
  obtain ⟨y, hy, rfl⟩ := Option.map_eq_some_iff.1 h
  refine ⟨y, hy, ?_⟩
  split_ifs with hk
  · exact ⟨rfl, .inl ⟨by simp [TxIn.key, hk], rfl⟩⟩
  · exact ⟨rfl, .inr ⟨by simpa [TxIn.key] using hk, rfl⟩⟩

structure Signs (txin : TxIn) (xs xs' : List TxDSIn) : Prop where
  keys : xs'.map (·.key) = xs.map (·.key)
  matched : ∃ x ∈ xs, x.key = txin.key
  old_or_matched : ∀ x ∈ xs', x ∈ xs ∨ x.key = txin.key

lemma Signs.append (h : Signs txin xs xs') (ys zs : List TxDSIn) :
    Signs txin (ys ++ xs ++ zs) (ys ++ xs' ++ zs) := by
  obtain ⟨x, hx, hk⟩ := h.matched
  refine ⟨by simp [h.keys], ⟨x, by simp [hx], hk⟩, fun x hx => ?_⟩
  simp only [mem_append] at hx ⊢
  rcases hx with (hy | hx) | hz
  · exact .inl (.inl (.inl hy))
  · exact (h.old_or_matched x hx).imp_left fun hx => .inl (.inr hx)
  · exact .inl (.inr hz)

lemma signInput_signs (h : signInput txin xs = some xs') :
    Signs txin xs xs' := by
  induction xs generalizing xs' with
  | nil => cases h
  | cons y ys ih =>
    rw [signInput] at h
    split_ifs at h with hk hsig
    · cases h
      have hy : y.key = txin.key := by simp [TxIn.key, hk]
      refine ⟨rfl, ⟨y, by simp, hy⟩, fun x hx => ?_⟩
      rcases mem_cons.1 hx with rfl | hx
      · exact .inr hy
      · exact .inl (by simp [hx])
    · obtain ⟨ys', hy', rfl⟩ := Option.map_eq_some_iff.1 h
      simpa using (ih hy').append [y] []

lemma signEntries_eq {es es' : List Entry} (h : signEntries txin es = some es') :
    ∃ l e xs r, es = l ++ e :: r ∧ es' = l ++ { e with vecTxDSIn := xs } :: r ∧
      signInput txin e.vecTxDSIn = some xs := by
  induction es generalizing es' with
  | nil => cases h
  | cons e es ih =>
    rw [signEntries] at h
    cases hs : signInput txin e.vecTxDSIn with
    | some xs =>
      rw [hs] at h
      cases h
      exact ⟨[], e, xs, es, rfl, rfl, hs⟩
    | none =>
      rw [hs] at h
      obtain ⟨es1, he1, rfl⟩ := Option.map_eq_some_iff.1 h
      obtain ⟨l, e', xs, r, rfl, rfl, hs'⟩ := ih he1
      exact ⟨e :: l, e', xs, r, rfl, rfl, hs'⟩

lemma signEntries_signs {es es' : List Entry} (h : signEntries txin es = some es') :
    es'.length = es.length ∧
      Signs txin (es.flatMap Entry.vecTxDSIn) (es'.flatMap Entry.vecTxDSIn) := by
  obtain ⟨l, e, xs, r, rfl, rfl, hs⟩ := signEntries_eq h
  refine ⟨by simp, ?_⟩
  simpa using (signInput_signs hs).append (l.flatMap Entry.vecTxDSIn) (r.flatMap Entry.vecTxDSIn)

/-- What `AddScriptSig` can change: the signature goes to the matching inputs of the final
transaction, and to an input of the entries if it is not rejected in the end. -/
structure AddedSig (txin : TxIn) (s s' : Server) : Prop where
  nState : s'.nState = s.nState
  nSessionMaxParticipants : s'.nSessionMaxParticipants = s.nSessionMaxParticipants
  log : s'.log = s.log
  length_vecEntries : s'.vecEntries.length = s.vecEntries.length
  final : s'.finalMutableTransaction = signFinal txin s.finalMutableTransaction
  inputs : s'.inputs = s.inputs ∨ Signs txin s.inputs s'.inputs

lemma addScriptSig_cases (p : Params) (s : Server) (txin : TxIn) :
    (s.addScriptSig p txin).2 = s ∨ AddedSig txin s (s.addScriptSig p txin).2 := by
  unfold addScriptSig
  split_ifs with he hv
  · exact .inl rfl
  · exact .inl rfl
  · dsimp only
    cases hg : signEntries txin s.vecEntries with
    | none => exact .inr ⟨rfl, rfl, rfl, rfl, rfl, .inl rfl⟩
    | some es =>
      obtain ⟨hl, hs⟩ := signEntries_signs hg
      exact .inr ⟨rfl, rfl, rfl, hl, rfl, .inr hs⟩

lemma AddedSig.keys (h : AddedSig txin s s') : s'.inputs.map (·.key) = s.inputs.map (·.key) := by
  rcases h.inputs with he | hs
  · rw [he]
  · exact hs.keys

variable (p coins) in
/-- No input is signed before there is a final transaction; from then on no entry is added, and an
input is marked as signed only if that transaction has a proper signature for it. -/
structure Orderly (s : Server) : Prop where
  unsigned : s.nState ≠ .signing → ∀ x ∈ s.inputs, x.fHasSig = false
  full : s.nState = .signing → s.nSessionMaxParticipants ≤ s.vecEntries.length
  origin : s.nState = .signing → ∀ txin ∈ s.finalMutableTransaction.vin,
    ∃ x ∈ s.inputs, x.key = txin.key
  signed : ∀ x ∈ s.inputs, x.fHasSig = true → ∀ i txin,
    s.finalMutableTransaction.vin[i]? = some txin → txin.key = x.key →
    Satisfies p coins txin s.finalMutableTransaction i
  committed : ∀ tx ∈ s.committed, FullySigned p coins tx

structure SamePool (s s' : Server) : Prop where
  nState : s'.nState = s.nState
  nSessionMaxParticipants : s'.nSessionMaxParticipants = s.nSessionMaxParticipants
  vecEntries : s'.vecEntries = s.vecEntries
  final : s'.finalMutableTransaction = s.finalMutableTransaction
  committed : s'.committed = s.committed

lemma Orderly.congr (h : s.Orderly p coins) (hs : SamePool s s') : s'.Orderly p coins := by
  have hi : s'.inputs = s.inputs := congrArg (List.flatMap Entry.vecTxDSIn) hs.vecEntries
  constructor
  · rw [hs.nState, hi]
    exact h.unsigned
  · rw [hs.nState, hs.nSessionMaxParticipants, hs.vecEntries]
    exact h.full
  · rw [hs.nState, hs.final, hi]
    exact h.origin
  · rw [hs.final, hi]
    exact h.signed
  · rw [hs.committed]
    exact h.committed

lemma Orderly.setNull (h : s.Orderly p coins) : (s.setNull ctx).Orderly p coins := by
  refine ⟨fun _ x hx => ?_, fun hs => ?_, fun hs => ?_, fun x hx => ?_, h.committed⟩
  · simp [Server.setNull, inputs] at hx
  · simp [Server.setNull] at hs
  · simp [Server.setNull] at hs
  · simp [Server.setNull, inputs] at hx

section Rules
variable {I : Server → Prop} (hI : I s)
  (hact : ∀ {s a}, I s → (∀ tx, a ≠ .submitFinal tx) → I (s.act a))
include hI hact

lemma pushStatusAll_rule (st : PoolStatusUpdate) (message : PoolMessage) :
    I (s.pushStatusAll ctx st message) := by
  unfold pushStatusAll
  refine List.foldlRecOn s.vecEntries _ hI fun s' hs' entry _ => ?_
  split_ifs
  · exact hact hs' (by simp)
  · exact hs'

lemma chargeRandomFees_rule (collaterals : List MutableTransaction) (i : Nat) :
    I (chargeRandomFees ctx collaterals i s) := by
  induction collaterals generalizing i s with
  | nil => exact hI
  | cons tx rest ih =>
    rw [chargeRandomFees]
    split_ifs
    · exact hI
    · exact ih (hact hI (by simp)) _

lemma chargeFees_rule : I (s.chargeFees ctx) := by
  unfold chargeFees
  dsimp only
  split_ifs
  · exact hI
  · exact hI
  · exact hI
  · exact hI
  · split
    · exact hI
    · exact hact hI (by simp)

/-- What holds after `DSACCEPT`, if messages to the participants do not matter to it. -/
lemma processAccept_rule (hc : ∀ s', s.createNewSession p ctx dsa = .ok (.ok s') → I s')
    (hd : ¬ s.isSessionReady → ∀ s', s.addUserToExistingSession ctx dsa = .ok (.ok s') → I s')
    (hs' : s.processAccept p ctx peer dsa = .ok s') : I s' := by
  have hp : ∀ st message, I (s.pushStatus peer.addr st message) := fun _ _ => hact hI (by simp)
  have ha : ∀ (result : Except PoolMessage Server) message,
      (∀ s', result = .ok s' → I s') → I (s.answer peer result message) := by
    intro result message hr
    cases result with
    | error message => exact hp ..
    | ok s' => exact hact (hr s' rfl) (by simp)
  unfold processAccept at hs'
  split_ifs at hs' with hv hrd hm hl hrc hs
  · exact ok.inj hs' ▸ hact (hact hI (by simp)) (by simp)
  · exact ok.inj hs' ▸ hp ..
  · exact ok.inj hs' ▸ hp ..
  · exact ok.inj hs' ▸ hI
  · exact ok.inj hs' ▸ hp ..
  · obtain ⟨result, hr, hs'⟩ := bind_ok.1 hs'
    cases hs'
    exact ha _ _ fun s' he => hc s' (he ▸ hr)
  · obtain ⟨result, hr, hs'⟩ := bind_ok.1 hs'
    cases hs'
    exact ha _ _ fun s' he => hd hrd s' (he ▸ hr)

lemma processVin_rule {data : EntryData}
    (ha : ∀ s', s.entryError p ctx data.deserialize = .ok none →
      s.addEntry ctx { data.deserialize with addr := peer.addr } = .ok (.ok s') → I s')
    (hc : ∀ {s}, I s → I ((s.checkPool p ctx).relayStatus ctx .STATUS_ACCEPTED .MSG_NOERR))
    (hs' : s.processVin p ctx peer data = .ok s') : I s' := by
  have hp : ∀ st message, I (s.pushStatus peer.addr st message) := fun _ _ => hact hI (by simp)
  unfold processVin at hs'
  split_ifs at hs' with hv hd
  · exact ok.inj hs' ▸ hact (hact hI (by simp)) (by simp)
  · exact ok.inj hs' ▸ hp ..
  obtain ⟨error, he, hs'⟩ := bind_ok.1 hs'
  cases error with
  | some message => exact ok.inj hs' ▸ hp ..
  | none =>
    obtain ⟨result, hr, hs'⟩ := bind_ok.1 hs'
    cases result with
    | error message => exact ok.inj hs' ▸ hp ..
    | ok s1 =>
      cases hs'
      exact hc (hact (ha s1 he hr) (by simp))

/-- A step that meets a guard is one of these, or a message that is refused. -/
lemma step_rule {G : Context × Event → Prop} {e : Context × Event} (hg : G e)
    (hm : ∀ {ctx}, G (ctx, .maintenance) → I (s.doMaintenance p ctx))
    (ha : ∀ {ctx peer dsa}, G (ctx, .message peer (.dsaccept dsa)) →
      s.processAccept p ctx peer dsa = .ok s' → I s')
    (hv : ∀ {ctx peer data}, G (ctx, .message peer (.dsvin data)) →
      s.processVin p ctx peer data = .ok s' → I s')
    (hf : ∀ {ctx peer vecTxIn}, G (ctx, .message peer (.dssignfinaltx vecTxIn)) →
      I (processSignFinalTx p ctx vecTxIn s))
    (hs' : step p s e = .ok s') : I s' := by
  obtain ⟨ctx, event⟩ := e
  unfold step at hs'
  split_ifs at hs'
  · exact ok.inj hs' ▸ hI
  cases event with
  | maintenance => exact ok.inj hs' ▸ hm hg
  | message peer message =>
    cases message with
    | dsaccept dsa => exact ha hg hs'
    | dsvin entry => exact hv hg hs'
    | dssignfinaltx vecTxIn =>
      dsimp only [processMessage] at hs'
      split_ifs at hs'
      · exact ok.inj hs' ▸ hact hI (by simp)
      · exact ok.inj hs' ▸ hf hg

variable (hnull : ∀ {s}, I s → I (s.setNull ctx))
include hnull

lemma relayStatus_rule (st : PoolStatusUpdate) (message : PoolMessage) :
    I (s.relayStatus ctx st message) := by
  have hf : I (s.pushStatusAll ctx st message) := pushStatusAll_rule hI hact ..
  unfold relayStatus
  dsimp only
  split_ifs
  · exact hf
  · exact hnull (pushStatusAll_rule hf hact ..)
  · exact pushStatusAll_rule hf hact ..

lemma relayEach_rule {message : Service → Action}
    (hm : ∀ addr tx, message addr ≠ .submitFinal tx) (entries : List Entry) :
    I (relayEach ctx message entries s) := by
  induction entries generalizing s with
  | nil => exact hI
  | cons entry entries ih =>
    rw [relayEach]
    split_ifs
    · exact ih (hact hI (hm entry.addr))
    · exact relayStatus_rule hI hact hnull ..

end Rules

lemma samePool_act (s : Server) {a : Action} (ha : ∀ tx, a ≠ .submitFinal tx) :
    SamePool s (s.act a) := by
  refine ⟨rfl, rfl, rfl, rfl, ?_⟩
  rw [committed_act]
  cases a with
  | submitFinal tx => exact absurd rfl (ha tx)
  | _ => exact append_nil _

lemma Orderly.act {a : Action} (h : s.Orderly p coins) (ha : ∀ tx, a ≠ .submitFinal tx) :
    (s.act a).Orderly p coins :=
  h.congr (samePool_act s ha)

lemma Orderly.relayStatus (h : s.Orderly p coins) (st : PoolStatusUpdate)
    (message : PoolMessage) : (s.relayStatus ctx st message).Orderly p coins :=
  relayStatus_rule h Orderly.act Orderly.setNull ..

lemma Orderly.relayEach (h : s.Orderly p coins) {message : Service → Action}
    (hm : ∀ addr tx, message addr ≠ .submitFinal tx) (entries : List Entry) :
    (relayEach ctx message entries s).Orderly p coins :=
  relayEach_rule h Orderly.act Orderly.setNull hm _

section
variable (h : s.Orderly p coins)
include h

lemma Orderly.createFinalTransaction (hs : s.nState ≠ .signing)
    (hf : s.nSessionMaxParticipants ≤ s.vecEntries.length) :
    (s.createFinalTransaction p ctx).Orderly p coins := by
  unfold Server.createFinalTransaction
  refine Orderly.relayEach ?_ (fun _ _ => by simp) _
  refine ⟨fun hn => absurd rfl hn, fun _ => hf, fun _ txin ht => ?_, ?_, h.committed⟩
  · obtain ⟨x, hx, rfl⟩ := mem_map.1 ((perm_insertionSort _ _).mem_iff.1 ht)
    exact ⟨x, hx, rfl⟩
  · intro x hx hsig
    rw [h.unsigned hs x hx] at hsig
    cases hsig

lemma Orderly.fullySigned (hs : s.nState = .signing) (hc : s.isSignaturesComplete = true) :
    FullySigned p coins s.finalMutableTransaction := by
  intro i txin ht
  obtain ⟨x, hx, hk⟩ := h.origin hs txin (mem_of_getElem? ht)
  have hsig := all_eq_true.1 hc x hx
  exact h.signed x hx hsig i txin ht hk.symm _ (.refl _)

lemma Orderly.commitFinalTransaction (hf : FullySigned p coins s.finalMutableTransaction) :
    (s.commitFinalTransaction ctx).Orderly p coins := by
  have hact : (s.act (.submitFinal s.finalMutableTransaction)).Orderly p coins := by
    refine ⟨h.unsigned, h.full, h.origin, h.signed, fun tx ht => ?_⟩
    rw [committed_act, mem_append, mem_singleton] at ht
    rcases ht with ht | rfl
    · exact h.committed tx ht
    · exact hf
  unfold Server.commitFinalTransaction
  dsimp only
  split_ifs
  · exact hact.setNull.relayEach (by simp) _
  · exact (chargeRandomFees_rule (hact.relayEach (by simp) _) Orderly.act ..).setNull

lemma Orderly.checkPool : (s.checkPool p ctx).Orderly p coins := by
  unfold Server.checkPool
  split_ifs with he hs
  · exact h.createFinalTransaction (by simp [he.1]) he.2
  · exact h.commitFinalTransaction (h.fullySigned hs.1 hs.2)
  · exact h

end

variable (p coins) in
/-- The signature comes while the pool is signing, and is right for every input that it goes to. -/
def SignsProperly (s : Server) (txin : TxIn) : Prop :=
  if s.nState = .signing then
    ∀ i x, s.finalMutableTransaction.vin[i]? = some x → x.key = txin.key →
      Satisfies p coins { x with scriptSig := txin.scriptSig } s.finalMutableTransaction i
  else ∀ x ∈ s.inputs, x.key ≠ txin.key

lemma SignsProperly.of_addedSig {txin' : TxIn} (h : SignsProperly p coins s txin')
    (ha : AddedSig txin s s') : SignsProperly p coins s' txin' := by
  unfold SignsProperly at h ⊢
  rw [ha.nState, ha.final]
  split_ifs at h ⊢ with ht
  · intro i x hx hk
    obtain ⟨y, hy, hyx, -⟩ := signFinal_getElem? hx
    have hp : y.prevout = x.prevout := congrArg Prod.fst hyx
    have hs := (h i y hy (hyx.trans hk)).congr (signFinal_sameBody txin _)
    simpa [Satisfies, hp] using hs
  · intro x hx hk
    have hm := mem_map_of_mem (f := fun x : TxDSIn => x.key) hx
    rw [ha.keys] at hm
    obtain ⟨y, hy, hyx⟩ := mem_map.1 hm
    exact h y hy (hyx.trans hk)

lemma addEntry_ok {entry : Entry} (h : s.addEntry ctx entry = .ok (.ok s')) :
    s' = { s with vecEntries := s.vecEntries ++ [entry] } ∧
      s.vecEntries.length < s.nSessionMaxParticipants ∧
      ∀ x ∈ entry.vecTxDSIn, ∀ y ∈ s.inputs, y.prevout ≠ x.prevout := by
  unfold addEntry at h
  split at h
  · cases h
  obtain ⟨valid, -, h⟩ := bind_ok.1 h
  split_ifs at h with hv hf hd
  · cases h
  · cases h
  · cases h
  · obtain rfl := ok.inj (ok.inj h)
    refine ⟨rfl, Nat.lt_of_not_le hf, fun x hx y hy he => hd ?_⟩
    exact any_eq_true.2 ⟨x, hx, any_eq_true.2 ⟨y, hy, by simpa using he⟩⟩

section
variable (h : s.Orderly p coins)
include h

lemma Orderly.addedSig (hp : SignsProperly p coins s txin) (ha : AddedSig txin s s') :
    s'.Orderly p coins := by
  have hky := ha.keys
  refine ⟨fun hs x hx => ?_, fun hs => ?_, fun hs y hy => ?_, ?_, ?_⟩
  · -- before the final transaction exists, the signature matches no input
    rw [ha.nState] at hs
    rw [SignsProperly, if_neg hs] at hp
    rcases ha.inputs with he | hg
    · exact h.unsigned hs x (he ▸ hx)
    · obtain ⟨z, hz, hzk⟩ := hg.matched
      exact absurd hzk (hp z hz)
  · rw [ha.nSessionMaxParticipants, ha.length_vecEntries]
    exact h.full (ha.nState ▸ hs)
  · rw [ha.final] at hy
    obtain ⟨i, hi⟩ := getElem?_of_mem hy
    obtain ⟨z, hz, hzy, -⟩ := signFinal_getElem? hi
    obtain ⟨x, hx, hxk⟩ := h.origin (ha.nState ▸ hs) z (mem_of_getElem? hz)
    have hmm := mem_map_of_mem (f := fun x : TxDSIn => x.key) hx
    rw [← hky] at hmm
    obtain ⟨x', hx', hx'key⟩ := mem_map.1 hmm
    exact ⟨x', hx', hx'key.trans (hxk.trans hzy)⟩
  · intro x hx hsig i y hy hk
    rw [ha.final] at hy ⊢
    by_cases hs : s.nState = .signing
    · rw [SignsProperly, if_pos hs] at hp
      obtain ⟨z, hz, hzy, ⟨hn, hc⟩ | ⟨hne, rfl⟩⟩ := signFinal_getElem? hy
      · -- the signature that was just added
        have hst := hp i z hz (hzy.trans hn)
        have hr : z.prevout = y.prevout := congrArg Prod.fst hzy
        refine Satisfies.congr ?_ (signFinal_sameBody txin _)
        simpa [Satisfies, hr, hc] using hst
      · -- an input that the signature does not match was signed before
        have hold : x ∈ s.inputs := by
          rcases ha.inputs with he | hg
          · exact he ▸ hx
          · exact (hg.old_or_matched x hx).resolve_right fun hm => hne (hk.trans hm)
        exact (h.signed x hold hsig i y hz hk).congr (signFinal_sameBody txin _)
    · rw [SignsProperly, if_neg hs] at hp
      rcases ha.inputs with he | hg
      · rw [h.unsigned hs x (he ▸ hx)] at hsig
        cases hsig
      · obtain ⟨z, hz, hzk⟩ := hg.matched
        exact absurd hzk (hp z hz)
  · intro tx ht
    rw [Server.committed, ha.log] at ht
    exact h.committed tx ht

lemma Orderly.processSignFinalTx {vecTxIn : List TxIn}
    (hp : ∀ txin ∈ vecTxIn, SignsProperly p coins s txin) :
    (processSignFinalTx p ctx vecTxIn s).Orderly p coins := by
  induction vecTxIn generalizing s with
  | nil => exact h.checkPool
  | cons txin rest ih =>
    rw [processSignFinalTx]
    have hc := addScriptSig_cases p s txin
    have hn : (s.addScriptSig p txin).2.Orderly p coins ∧
        ∀ txin' ∈ rest, SignsProperly p coins (s.addScriptSig p txin).2 txin' := by
      rcases hc with he | ha
      · rw [he]
        exact ⟨h, fun txin' hm => hp txin' (by simp [hm])⟩
      · exact ⟨h.addedSig (hp txin (by simp)) ha,
          fun txin' hm => (hp txin' (by simp [hm])).of_addedSig ha⟩
    generalize s.addScriptSig p txin = r at hn ⊢
    obtain ⟨_ | _, s'⟩ := r
    · exact hn.1.relayStatus ..
    · exact ih hn.1 hn.2

omit h in
lemma createNewSession_ok (hs' : s.createNewSession p ctx dsa = .ok (.ok s')) :
    s.nState = .idle ∧ ∃ id n dsq, s' = { act (setState ctx { s with
        nSessionID := id, nSessionDenom := dsa.nDenom, nSessionMaxParticipants := n } .queue)
          (.queue dsq) with
        vecExclusiveSendQueue := s.vecExclusiveSendQueue ++ [dsq]
        vecSessionCollaterals := s.vecSessionCollaterals ++ [dsa.txCollateral] } := by
  unfold createNewSession at hs'
  split_ifs at hs' with hi
  · cases hs'
  obtain ⟨result, -, hs'⟩ := bind_ok.1 hs'
  cases result with
  | error message => cases hs'
  | ok _ => exact ⟨not_not.1 hi, _, _, _, (ok.inj (ok.inj hs')).symm⟩

omit h in
lemma addUserToExistingSession_ok (hs' : s.addUserToExistingSession ctx dsa = .ok (.ok s')) :
    s.nState = .queue ∧ s' =
      { s with vecSessionCollaterals := s.vecSessionCollaterals ++ [dsa.txCollateral] } := by
  obtain ⟨result, -, hs'⟩ := bind_ok.1 hs'
  cases result with
  | error message => cases hs'
  | ok _ =>
    dsimp only at hs'
    split_ifs at hs' with hq
    · cases hs'
    · cases hs'
    · exact ⟨not_not.1 hq, (ok.inj (ok.inj hs')).symm⟩

lemma Orderly.createNewSession (hs' : s.createNewSession p ctx dsa = .ok (.ok s')) :
    s'.Orderly p coins := by
  obtain ⟨hi, id, n, dsq, rfl⟩ := createNewSession_ok hs'
  have ht : s.nState ≠ .signing := by
    rw [hi]
    decide
  have hc : ∀ tx ∈ (s.act (.queue dsq)).committed, FullySigned p coins tx := by
    rw [(samePool_act s (by simp)).committed]
    exact h.committed
  exact ⟨fun _ => h.unsigned ht, (fun hs => by cases hs), (fun hs => by cases hs), h.signed, hc⟩

lemma Orderly.addUserToExistingSession (hs' : s.addUserToExistingSession ctx dsa = .ok (.ok s')) :
    s'.Orderly p coins := by
  obtain ⟨-, rfl⟩ := addUserToExistingSession_ok hs'
  exact h.congr ⟨rfl, rfl, rfl, rfl, rfl⟩

lemma Orderly.processAccept (hs' : s.processAccept p ctx peer dsa = .ok s') : s'.Orderly p coins :=
  processAccept_rule h Orderly.act (fun _ => h.createNewSession)
    (fun _ _ => h.addUserToExistingSession) hs'

lemma Orderly.addEntry {entry : Entry} (he : ∀ x ∈ entry.vecTxDSIn, x.fHasSig = false)
    (hs' : s.addEntry ctx entry = .ok (.ok s')) : s'.Orderly p coins := by
  obtain ⟨rfl, hr, -⟩ := addEntry_ok hs'
  have ht : s.nState ≠ .signing := fun hs => hr.not_ge (h.full hs)
  have hu : ∀ x ∈ s.inputs ++ entry.vecTxDSIn, x.fHasSig = false := by
    intro x hx
    rcases mem_append.1 hx with hx | hx
    · exact h.unsigned ht x hx
    · exact he x hx
  have hi : inputs { s with vecEntries := s.vecEntries ++ [entry] } =
      s.inputs ++ entry.vecTxDSIn := by simp [inputs]
  refine ⟨fun _ => hi ▸ hu, fun hs => absurd hs ht,
    fun hs => absurd hs ht, fun x hx hsig => ?_, h.committed⟩
  rw [hu x (hi ▸ hx)] at hsig
  cases hsig

lemma Orderly.processVin {data : EntryData}
    (hs' : s.processVin p ctx peer data = .ok s') : s'.Orderly p coins :=
  processVin_rule h Orderly.act (fun _ _ => h.addEntry (by simp [EntryData.deserialize]))
    (fun h => h.checkPool.relayStatus ..) hs'

lemma Orderly.checkTimeout : (s.checkTimeout p ctx).Orderly p coins := by
  have hq : SamePool s (s.checkQueue ctx) := by
    unfold checkQueue
    split_ifs <;> exact ⟨rfl, rfl, rfl, rfl, rfl⟩
  have hs1 := h.congr hq
  unfold Server.checkTimeout
  dsimp only
  generalize s.checkQueue ctx = s1 at hs1 ⊢
  generalize (if s1.nState = .signing then EXCLUSIVESEND_SIGNING_TIMEOUT
    else EXCLUSIVESEND_QUEUE_TIMEOUT) = nTimeout
  split_ifs with hi ha hc he
  · exact h
  · exact hs1
  · -- a session that has not got to the final transaction yet
    have ht : s1.nState ≠ .signing := by simp [hc.1]
    exact ⟨hs1.unsigned, fun hs => absurd hs ht, hs1.origin, hs1.signed, hs1.committed⟩
  · have hs2 : (s1.chargeFees ctx).Orderly p coins := chargeFees_rule hs1 Orderly.act
    refine Orderly.checkPool ?_
    exact ⟨hs2.unsigned, fun _ => le_rfl, hs2.origin, hs2.signed, hs2.committed⟩
  · exact (chargeFees_rule hs1 Orderly.act).setNull

lemma Orderly.doMaintenance : (s.doMaintenance p ctx).Orderly p coins := by
  have hs1 : (s.checkTimeout p ctx).Orderly p coins := h.checkTimeout
  unfold Server.doMaintenance checkForCompleteQueue
  split_ifs with hq
  · refine Orderly.congr ?_ (samePool_act _ (by simp))
    have ht : (s.checkTimeout p ctx).nState ≠ .signing := by simp [hq.1]
    exact ⟨fun _ => hs1.unsigned ht, (fun hs => by cases hs),
      (fun hs => by cases hs), hs1.signed, hs1.committed⟩
  · exact hs1

end

variable (p coins) in
def Guarded (s : Server) : Context × Event → Prop
  | (_, .message _ (.dssignfinaltx vecTxIn)) => ∀ txin ∈ vecTxIn, SignsProperly p coins s txin
  | _ => True

lemma Orderly.step (h : s.Orderly p coins) {e : Context × Event} (hg : Guarded p coins s e)
    (hs' : step p s e = .ok s') : s'.Orderly p coins :=
  step_rule h (fun h ha => h.congr (samePool_act _ ha)) hg (fun _ => h.doMaintenance)
    (fun _ => h.processAccept) (fun _ => h.processVin) (fun hg => h.processSignFinalTx hg) hs'

lemma orderly_initial : Orderly p coins {} := by
  refine ⟨fun _ x hx => ?_, fun hs => ?_, fun hs => ?_, fun x hx => ?_, fun tx ht => ?_⟩
  · simp [inputs] at hx
  · cases hs
  · cases hs
  · simp [inputs] at hx
  · simp [Server.committed] at ht

end Server

/-- If every signature is sent while the pool is signing and satisfies the script of the spent
output, so do all signatures of the transactions that the server submits. -/
theorem committed_fullySigned (p : Params) (coins : OutPoint → TxOut)
    (events : List (Context × Server.Event)) (s : Server)
    (hguarded : Run.Guarded (Server.step p) (Server.Guarded p coins) {} events)
    (hrun : ({} : Server).run p events = .ok s) : ∀ tx ∈ s.committed, FullySigned p coins tx := by
  have hs : s.Orderly p coins :=
    hguarded.invariant (Server.Orderly p coins) (fun _ _ _ h hg ht => h.step hg ht)
      orderly_initial hrun
  exact hs.committed

end Signatures

/-! ### A signature that is no signature

One participant, as on the test network. `VerifyScript` accepts any signature that leaves true on
the stack when the script is empty. -/

namespace Unsigned

def params : Params where
  poolMinParticipants := 1
  poolMaxParticipants := 5
  verifyScript scriptSig scriptPubKey _ _ := scriptPubKey = .empty ∧ scriptSig ≠ []
  scriptSize _ := 25
  scriptLess _ _ := false
  outpoint := ⟨7, 0⟩

def coins (prevout : OutPoint) : TxOut := ⟨COIN / 1000 + 1, .pubKeyHash prevout.hash⟩

def context : Context where
  find prevout := .utxo (coins prevout)
  accepts _ := true

def peer : Server.Peer := ⟨⟨1, 9999⟩, 70213⟩

def collateral : MutableTransaction where
  vin := [{ prevout := ⟨1, 0⟩ }]
  vout := [⟨90001, .pubKeyHash 1⟩]

def entry : EntryData where
  vecTxDSIn := [{ prevout := ⟨2, 0⟩ }]
  txCollateral := collateral
  vecTxOut := [coins ⟨3, 0⟩]

def session : List (Context × Server.Event) :=
  [(context, .message peer (.dsaccept ⟨16, collateral⟩)), (context, .maintenance),
    (context, .message peer (.dsvin entry))]

def signature (scriptSig : ScriptSig) : Context × Server.Event :=
  (context, .message peer (.dssignfinaltx [{ prevout := ⟨2, 0⟩, scriptSig }]))

/-- A single byte is taken for the signature of a public key hash output. -/
theorem unsigned_transaction_committed :
    ∃ s, ({} : Server).run params (session ++ [signature [0x51]]) = .ok s ∧
      ¬ ∀ tx ∈ s.committed, FullySigned params coins tx := by
  have hc : (({} : Server).run params (session ++ [signature [0x51]])).toOption.map
      Server.committed = some [⟨[⟨⟨2, 0⟩, [0x51], 0xffffffff⟩], [coins ⟨3, 0⟩], 0⟩] := by
    decide +kernel
  obtain ⟨s, hr, hs⟩ := exists_of_map_toOption hc
  refine ⟨s, hr, fun hg => ?_⟩
  have hi := hg _ (by rw [hs]; exact List.mem_singleton_self _) 0 _ rfl
  exact absurd hi (by decide)

def lenientParams : Params :=
  { params with verifyScript := fun scriptSig _ _ _ => scriptSig ≠ [] }

lemma guarded_session : Run.Guarded (Server.step lenientParams)
    (Server.Guarded lenientParams coins) {} (session ++ [signature [0x51]]) := by
  refine Run.Guarded.concat (.of_forall ?_) fun s hs txin ht => ?_
  · simp [session, Server.Guarded]
  · have hst : (({} : Server).run lenientParams session).toOption.map nState =
        some .signing := by decide +kernel
    obtain ⟨s', hs', hg⟩ := exists_of_map_toOption hst
    obtain rfl : s = s' := ok.inj (hs.symm.trans hs')
    rw [mem_singleton.1 ht, Server.SignsProperly, if_pos hg]
    intro i x _ _ tx _
    rfl

theorem lenient_transaction_committed :
    ∃ s, ({} : Server).run lenientParams (session ++ [signature [0x51]]) = .ok s ∧
      s.committed.length = 1 ∧ ∀ tx ∈ s.committed, FullySigned lenientParams coins tx := by
  have hl : (({} : Server).run lenientParams (session ++ [signature [0x51]])).toOption.map
      (·.committed.length) = some 1 := by decide +kernel
  obtain ⟨s, hr, hs⟩ := exists_of_map_toOption hl
  exact ⟨s, hr, hs, committed_fullySigned lenientParams coins _ s guarded_session hr⟩

end Unsigned
end Trivechain.ExclusiveSend
