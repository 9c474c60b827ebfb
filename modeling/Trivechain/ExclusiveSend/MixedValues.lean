import Trivechain.ExclusiveSend.FinalTransaction

/-!
# What goes into the final transaction

The server takes an entry when its outputs have the denominations of the entries that are there. It
compares its inputs with those of other entries, but not with each other, its denominations not with
those of the session, and its collateral with nothing. So the final transaction is what the session
promised only if the participants keep to it.
-/

namespace Trivechain.ExclusiveSend
open List Except Run Entry

structure Body where
  txCollateral : MutableTransaction
  vecTxOut : List TxOut
  prevouts : List OutPoint

def Entry.body (entry : Entry) : Body where
  txCollateral := entry.txCollateral
  vecTxOut := entry.vecTxOut
  prevouts := entry.vecTxDSIn.map fun x => x.prevout

def denominations (nDenom : Int) : List Amount :=
  (vecStandardDenominations.zipIdx.filter fun e => nDenom / 2 ^ e.2 % 2 = 1).map Prod.fst

lemma denominations_sum (used : Amount → Bool) :
    denominations (vecStandardDenominations.zipIdx.map fun (value, i) =>
      if used value then (2 ^ i : Int) else 0).sum = vecStandardDenominations.filter used := by
  simp only [vecStandardDenominations, filter_cons, filter_nil, zipIdx_cons,
    zipIdx_nil, map_cons, map_nil]
  generalize used (10 * COIN + 10000) = b0
  generalize used (COIN + 1000) = b1
  generalize used (COIN / 10 + 100) = b2
  generalize used (COIN / 100 + 10) = b3
  generalize used (COIN / 1000 + 1) = b4
  revert b0 b1 b2 b3 b4
  decide

lemma mem_denominations {vecTxOut : List TxOut} (h : getDenominations vecTxOut ≠ 0) :
    (∀ out ∈ vecTxOut, out.nValue ∈ denominations (getDenominations vecTxOut)) ∧
      ∀ value ∈ denominations (getDenominations vecTxOut),
        ∃ out ∈ vecTxOut, out.nValue = value := by
  unfold getDenominations at h ⊢
  split_ifs at h ⊢ with ha
  · rw [denominations_sum fun value => vecTxOut.any fun txout => txout.nValue = value]
    constructor
    · intro out ho
      have hs := all_eq_true.1 ha out ho
      exact mem_filter.2 ⟨contains_iff_mem.1 hs, any_eq_true.2 ⟨out, ho, by simp⟩⟩
    · intro value hv
      obtain ⟨out, ho, he⟩ := any_eq_true.1 (mem_filter.1 hv).2
      exact ⟨out, ho, by simpa using he⟩
  · exact absurd rfl h

section Values
variable (values : OutPoint → Amount)

/-- The coins that a step meets have the values that belong to their outpoints. -/
def Context.Shows (ctx : Context) : Prop :=
  ∀ prevout value, ctx.inputValue prevout = .ok (some value) → value = values prevout

lemma Context.Shows.valueIn {values} {ctx : Context} (h : ctx.Shows values) {vin : List TxIn}
    {paid : Amount} (hv : ctx.valueIn vin = .ok (some paid)) :
    paid = (vin.map fun x => values x.prevout).sum := by
  obtain ⟨step, hr, hnn, hs⟩ : ∃ step : Option Amount → TxIn → Run (Option Amount),
      vin.foldlM step (some 0) = .ok (some paid) ∧ (∀ x, step none x = .ok none) ∧
      ∀ a x, step (some a) x = ctx.inputValue x.prevout >>= fun nValue =>
        pure (nValue.map (a + ·)) := ⟨_, hv, fun _ => rfl, fun _ _ => rfl⟩
  -- the sum from any value on; a missing coin is never forgotten
  suffices hm : ∀ (vin : List TxIn) (start : Option Amount),
      vin.foldlM step start = .ok (some paid) →
      ∃ a, start = some a ∧ paid = a + (vin.map fun x => values x.prevout).sum by
    obtain ⟨a, ha, he⟩ := hm vin (some 0) hr
    cases ha
    rwa [zero_add] at he
  intro vin
  induction vin with
  | nil =>
    intro start ho
    cases ho
    exact ⟨paid, rfl, by simp⟩
  | cons x vin ih =>
    intro start ho
    obtain ⟨next, hn, ho⟩ := bind_ok.1 ho
    obtain ⟨b, rfl, he⟩ := ih next ho
    cases start with
    | none =>
      rw [hnn] at hn
      cases hn
    | some a =>
      rw [hs] at hn
      obtain ⟨value, hv, hn⟩ := bind_ok.1 hn
      cases value with
      | none => cases hn
      | some value =>
        cases hn
        refine ⟨a, rfl, ?_⟩
        rw [he, h _ _ hv, map_cons, sum_cons, add_assoc]

structure Body.Fits (b : Body) (nSessionDenom : Int)
    (vecSessionCollaterals : List MutableTransaction) : Prop where
  denominations : getDenominations b.vecTxOut = nSessionDenom
  used : getDenominations b.vecTxOut ≠ 0
  collateral : b.txCollateral ∈ vecSessionCollaterals
  balanced : (b.prevouts.map values).sum = valueOut b.vecTxOut

end Values

namespace Server
variable {p : Params} {ctx : Context} {s s' s'' : Server} {values : OutPoint → Amount}

def bodies (s : Server) : List Body := s.vecEntries.map body

variable (values) in
/-- All entries keep to the session, and no two share an input or a collateral. -/
structure Filled (s : Server) : Prop where
  idle : s.nState = .idle → s.bodies = [] ∧ s.nSessionMaxParticipants = 0
  distinct : (s.bodies.flatMap Body.prevouts).Nodup
  once : (s.bodies.map Body.txCollateral).Nodup
  fits : ∀ b ∈ s.bodies, b.Fits values s.nSessionDenom s.vecSessionCollaterals

structure SameSession (s s' : Server) : Prop where
  bodies : s'.bodies = s.bodies
  nSessionDenom : s'.nSessionDenom = s.nSessionDenom
  vecSessionCollaterals : s'.vecSessionCollaterals = s.vecSessionCollaterals
  idle : s'.nState = .idle →
    s.nState = .idle ∧ s'.nSessionMaxParticipants = s.nSessionMaxParticipants

structure Over (s : Server) : Prop where
  bodies : s.bodies = []
  idle : s.nState = .idle → s.nSessionMaxParticipants = 0

def GoesOn (s s' : Server) : Prop := SameSession s s' ∨ Over s'

lemma SameSession.refl (s : Server) : SameSession s s := ⟨rfl, rfl, rfl, fun h => ⟨h, rfl⟩⟩

lemma GoesOn.refl (s : Server) : GoesOn s s := .inl (.refl s)

lemma GoesOn.trans (h : GoesOn s s') (h' : GoesOn s' s'') : GoesOn s s'' := by
  rcases h' with h' | ho
  · rcases h with h | ho
    · refine .inl ⟨h'.bodies.trans h.bodies, h'.nSessionDenom.trans h.nSessionDenom,
        h'.vecSessionCollaterals.trans h.vecSessionCollaterals, fun hi => ?_⟩
      obtain ⟨hi', hm'⟩ := h'.idle hi
      obtain ⟨hi, hm⟩ := h.idle hi'
      exact ⟨hi, hm'.trans hm⟩
    · refine .inr ⟨h'.bodies.trans ho.bodies, fun hi => ?_⟩
      obtain ⟨hi', hm'⟩ := h'.idle hi
      exact hm'.trans (ho.idle hi')
  · exact .inr ho

lemma Filled.goesOn (h : s.Filled values) (hg : GoesOn s s') : s'.Filled values := by
  rcases hg with hs | ho
  · refine ⟨fun hi => ?_, ?_, ?_, ?_⟩
    · obtain ⟨hi, hm⟩ := hs.idle hi
      exact ⟨hs.bodies.trans (h.idle hi).1, hm.trans (h.idle hi).2⟩
    · rw [hs.bodies]
      exact h.distinct
    · rw [hs.bodies]
      exact h.once
    · rw [hs.bodies, hs.nSessionDenom, hs.vecSessionCollaterals]
      exact h.fits
  · refine ⟨fun hi => ⟨ho.bodies, ho.idle hi⟩, ?_, ?_, ?_⟩
    · simp [ho.bodies]
    · simp [ho.bodies]
    · simp [ho.bodies]

lemma goesOn_act (s : Server) (a : Action) : GoesOn s (s.act a) :=
  .inl ⟨rfl, rfl, rfl, fun h => ⟨h, rfl⟩⟩

lemma goesOn_setNull (ctx : Context) (s : Server) : GoesOn s (s.setNull ctx) :=
  .inr ⟨rfl, fun _ => rfl⟩

lemma GoesOn.act {a : Action} (h : GoesOn s s') (_ : ∀ tx, a ≠ .submitFinal tx) :
    GoesOn s (s'.act a) :=
  h.trans (goesOn_act ..)

lemma GoesOn.setNull (h : GoesOn s s') : GoesOn s (s'.setNull ctx) := h.trans (goesOn_setNull ..)

lemma goesOn_relayStatus (ctx : Context) (s : Server) (status : PoolStatusUpdate)
    (message : PoolMessage) : GoesOn s (s.relayStatus ctx status message) :=
  relayStatus_rule (GoesOn.refl s) GoesOn.act GoesOn.setNull ..

lemma goesOn_relayEach (ctx : Context) {message : Service → Action}
    (hm : ∀ addr tx, message addr ≠ .submitFinal tx) (entries : List Entry) (s : Server) :
    GoesOn s (relayEach ctx message entries s) :=
  relayEach_rule (GoesOn.refl s) GoesOn.act GoesOn.setNull hm _

lemma goesOn_chargeRandomFees (ctx : Context) (collaterals : List MutableTransaction) (i : Nat)
    (s : Server) : GoesOn s (chargeRandomFees ctx collaterals i s) :=
  chargeRandomFees_rule (.refl s) GoesOn.act ..

lemma goesOn_chargeFees (ctx : Context) (s : Server) : GoesOn s (s.chargeFees ctx) :=
  chargeFees_rule (.refl s) GoesOn.act

lemma goesOn_checkQueue (ctx : Context) (s : Server) : GoesOn s (s.checkQueue ctx) := by
  unfold checkQueue
  split_ifs
  · exact .refl s
  · exact .inl ⟨rfl, rfl, rfl, fun h => ⟨h, rfl⟩⟩

def finalTransaction (p : Params) (s : Server) : MutableTransaction where
  vin := (s.inputs.map TxDSIn.toTxIn).insertionSort fun a b => !compareInputBIP69 b a
  vout := s.outputs.insertionSort fun a b => !compareOutputBIP69 p b a

lemma createFinalTransaction_eq (p : Params) (ctx : Context) (s : Server) :
    s.createFinalTransaction p ctx = relayFinalTransaction ctx
      (({ s with finalMutableTransaction := s.finalTransaction p } : Server).setState ctx .signing)
      (s.finalTransaction p) :=
  rfl

lemma goesOn_checkPool (p : Params) (ctx : Context) (s : Server) :
    GoesOn s (s.checkPool p ctx) := by
  unfold checkPool
  split_ifs
  · -- the entries stay as they are when the final transaction is made
    rw [createFinalTransaction_eq, relayFinalTransaction]
    refine GoesOn.trans ?_ (goesOn_relayEach _ (by simp) ..)
    exact .inl ⟨rfl, rfl, rfl, fun hi => by cases hi⟩
  · unfold commitFinalTransaction
    dsimp only
    split_ifs
    · exact ((goesOn_act s _).trans (goesOn_setNull ..)).trans (goesOn_relayEach _ (by simp) ..)
    · exact (((goesOn_act s _).trans (goesOn_relayEach _ (by simp) ..)).trans
        (goesOn_chargeRandomFees ..)).trans (goesOn_setNull ..)
  · exact .refl s

variable {txin : TxIn} {dsa : Accept} {peer : Peer} {entry : Entry} {data : EntryData}
  {e : Context × Event}

lemma signInput_prevouts {xs xs' : List TxDSIn} (h : signInput txin xs = some xs') :
    (xs'.map fun x => x.prevout) = xs.map fun x => x.prevout := by
  have hk := congrArg (List.map Prod.fst) (signInput_signs h).keys
  rwa [map_map, map_map] at hk

lemma signEntries_bodies {es es' : List Entry} (h : signEntries txin es = some es') :
    es'.map body = es.map body := by
  obtain ⟨l, e, xs, r, rfl, rfl, hs⟩ := signEntries_eq h
  have hb : ({ e with vecTxDSIn := xs } : Entry).body = e.body := by
    rw [body, body, signInput_prevouts hs]
  simp [hb]

lemma goesOn_addScriptSig (p : Params) (s : Server) (txin : TxIn) :
    GoesOn s (s.addScriptSig p txin).2 := by
  unfold addScriptSig
  split_ifs
  · exact .refl s
  · exact .refl s
  · dsimp only
    cases hs : signEntries txin s.vecEntries with
    | none => exact .inl ⟨rfl, rfl, rfl, fun h => ⟨h, rfl⟩⟩
    | some es => exact .inl ⟨signEntries_bodies hs, rfl, rfl, fun h => ⟨h, rfl⟩⟩

def addScriptSigs (p : Params) : List TxIn → Server → Option Server
  | [], s => some s
  | txin :: rest, s =>
    match s.addScriptSig p txin with
    | (true, s) => addScriptSigs p rest s
    | (false, _) => none

lemma goesOn_addScriptSigs {vecTxIn : List TxIn} (h : addScriptSigs p vecTxIn s = some s') :
    GoesOn s s' := by
  induction vecTxIn generalizing s with
  | nil =>
    cases h
    exact .refl _
  | cons txin rest ih =>
    have hs := goesOn_addScriptSig p s txin
    rw [addScriptSigs] at h
    generalize s.addScriptSig p txin = r at h hs
    obtain ⟨_ | _, s1⟩ := r
    · cases h
    · exact hs.trans (ih h)

lemma goesOn_processSignFinalTx (p : Params) (ctx : Context) (vecTxIn : List TxIn)
    (s : Server) : GoesOn s (processSignFinalTx p ctx vecTxIn s) := by
  induction vecTxIn generalizing s with
  | nil => exact goesOn_checkPool ..
  | cons txin rest ih =>
    have hs := goesOn_addScriptSig p s txin
    rw [processSignFinalTx]
    generalize s.addScriptSig p txin = r at hs ⊢
    obtain ⟨_ | _, s1⟩ := r
    · exact hs.trans (goesOn_relayStatus ..)
    · exact hs.trans (ih s1)

def timedOut (ctx : Context) (s : Server) : Server :=
  let s := (s.checkQueue ctx).chargeFees ctx
  { s with nSessionMaxParticipants := s.vecEntries.length }

lemma goesOn_timedOut (hs : s.nState = .acceptingEntries) : GoesOn s (s.timedOut ctx) := by
  have hf := (goesOn_checkQueue ctx s).trans (goesOn_chargeFees ctx _)
  have hk : ((s.checkQueue ctx).chargeFees ctx).nState = .acceptingEntries := by
    refine chargeFees_rule (I := fun s => s.nState = _) ?_ fun h _ => h
    unfold checkQueue
    split_ifs <;> exact hs
  refine hf.trans (.inl ⟨rfl, rfl, rfl, fun hi => ?_⟩)
  cases hi.symm.trans hk

lemma goesOn_checkTimeout (p : Params) (ctx : Context) (s : Server) :
    GoesOn s (s.checkTimeout p ctx) := by
  have hq := goesOn_checkQueue ctx s
  have hs : (s.checkQueue ctx).nState = s.nState := by
    unfold checkQueue
    split_ifs <;> rfl
  unfold checkTimeout
  dsimp only
  generalize (if (s.checkQueue ctx).nState = .signing then EXCLUSIVESEND_SIGNING_TIMEOUT
    else EXCLUSIVESEND_QUEUE_TIMEOUT) = nTimeout
  split_ifs with hi ha hc he
  · exact .refl s
  · exact hq
  · refine hq.trans (.inl ⟨rfl, rfl, rfl, fun hi => ?_⟩)
    cases hi.symm.trans hc.1
  · exact (goesOn_timedOut (hs.symm.trans he.1)).trans (goesOn_checkPool ..)
  · exact (hq.trans (goesOn_chargeFees ..)).trans (goesOn_setNull ..)

lemma goesOn_doMaintenance (p : Params) (ctx : Context) (s : Server) :
    GoesOn s (s.doMaintenance p ctx) := by
  have ht := goesOn_checkTimeout p ctx s
  unfold doMaintenance checkForCompleteQueue
  split_ifs
  · dsimp only
    refine (ht.trans ?_).trans (goesOn_act _ _)
    exact .inl ⟨rfl, rfl, rfl, fun hi => by cases hi⟩
  · exact ht

lemma Filled.createNewSession (h : s.Filled values)
    (hs' : s.createNewSession p ctx dsa = .ok (.ok s')) : s'.Filled values := by
  obtain ⟨hi, id, n, dsq, rfl⟩ := createNewSession_ok hs'
  -- an idle server has no entries
  have he : s.bodies = [] := (h.idle hi).1
  exact Filled.goesOn h (.inr ⟨he, fun hi' => by cases hi'⟩)

lemma Filled.addUserToExistingSession (h : s.Filled values)
    (hs' : s.addUserToExistingSession ctx dsa = .ok (.ok s')) : s'.Filled values := by
  obtain ⟨-, rfl⟩ := addUserToExistingSession_ok hs'
  refine ⟨h.idle, h.distinct, h.once, fun b hb => ?_⟩
  obtain ⟨hd, hu, hc, hl⟩ := h.fits b hb
  exact ⟨hd, hu, by simp [hc], hl⟩

lemma Filled.processAccept (h : s.Filled values) (hs' : s.processAccept p ctx peer dsa = .ok s') :
    s'.Filled values :=
  processAccept_rule h (fun h _ => h.goesOn (goesOn_act ..)) (fun _ => h.createNewSession)
    (fun _ _ => h.addUserToExistingSession) hs'

variable (values) in
/-- Distinct inputs, the denominations of the session, and one of its collaterals that no other
entry has. -/
structure KeepsTo (s : Server) (ctx : Context) (data : EntryData) : Prop where
  shows : ctx.Shows values
  distinct : (data.vecTxDSIn.map TxIn.prevout).Nodup
  denominations : getDenominations data.vecTxOut = s.nSessionDenom
  collateral : data.txCollateral ∈ s.vecSessionCollaterals
  once : ∀ entry ∈ s.vecEntries, entry.txCollateral ≠ data.txCollateral

lemma entryError_none (h : s.entryError p ctx entry = .ok none) :
    getDenominations entry.vecTxOut ≠ 0 ∧
      ctx.valueIn (entry.vecTxDSIn.map TxDSIn.toTxIn) = .ok (some (valueOut entry.vecTxOut)) := by
  unfold entryError at h
  split_ifs at h with hi ho hd
  · cases h
  · cases h
  · cases h
  rw [Bool.not_eq_true, Bool.not_eq_false', isOutputsCompatibleWithSessionDenom,
    Bool.and_eq_true] at hd
  refine ⟨by simpa using hd.1, ?_⟩
  cases hs : entry.vecTxOut.findSome? (outputError p) with
  | some message =>
    rw [hs] at h
    cases h
  | none =>
    rw [hs] at h
    obtain ⟨value, hv, h⟩ := bind_ok.1 h
    cases value with
    | none => cases h
    | some paid =>
      dsimp only at h
      split_ifs at h with hf
      · cases h
      · rw [hv, sub_eq_zero.1 (not_not.1 hf)]

lemma prevouts_bodies (s : Server) :
    s.bodies.flatMap Body.prevouts = s.inputs.map fun x => x.prevout := by
  rw [bodies, inputs, flatMap_map, map_flatMap]
  rfl

lemma Filled.addEntry (h : s.Filled values) {addr : Service} (hk : KeepsTo values s ctx data)
    (her : s.entryError p ctx data.deserialize = .ok none)
    (hs' : s.addEntry ctx { data.deserialize with addr } = .ok (.ok s')) : s'.Filled values := by
  obtain ⟨rfl, hr, hn⟩ := addEntry_ok hs'
  obtain ⟨hu, hv⟩ := entryError_none her
  have hp : (data.deserialize.vecTxDSIn.map fun x => x.prevout) =
      data.vecTxDSIn.map TxIn.prevout := by
    rw [EntryData.deserialize, map_map]
    rfl
  obtain ⟨b, hb⟩ : ∃ b, b = ({ data.deserialize with addr } : Entry).body := ⟨_, rfl⟩
  have hd : bodies { s with vecEntries := s.vecEntries ++ [{ data.deserialize with addr }] } =
      s.bodies ++ [b] := by
    rw [bodies, map_append, hb]
    rfl
  have hbp : b.prevouts = data.vecTxDSIn.map TxIn.prevout := by
    rw [hb]
    exact hp
  refine ⟨fun hi => ?_, ?_, ?_, ?_⟩
  · -- an idle server has no room
    have hm := (h.idle hi).2
    rw [hm] at hr
    exact absurd hr (Nat.not_lt_zero _)
  · rw [hd, flatMap_append, nodup_append]
    refine ⟨h.distinct, by simpa [hbp] using hk.distinct, ?_⟩
    intro o ho o' ho' hq
    rw [prevouts_bodies] at ho
    obtain ⟨y, hy, rfl⟩ := mem_map.1 ho
    simp only [flatMap_cons, flatMap_nil, append_nil, hbp, ← hp] at ho'
    obtain ⟨x, hx, rfl⟩ := mem_map.1 ho'
    exact hn x hx y hy hq
  · rw [hd, map_append, nodup_append]
    refine ⟨h.once, by simp, ?_⟩
    intro c hc c' hc' hq
    obtain ⟨b', hb', rfl⟩ := mem_map.1 hc
    obtain ⟨entry, he, rfl⟩ := mem_map.1 hb'
    rw [map_singleton, mem_singleton] at hc'
    refine hk.once entry he (hq.trans (hc'.trans ?_))
    rw [hb]
    rfl
  · rw [hd]
    refine forall_mem_append.2 ⟨h.fits, forall_mem_singleton.2 ?_⟩
    have hs := hk.shows.valueIn hv
    refine ⟨?_, ?_, ?_, ?_⟩
    · rw [hb]
      exact hk.denominations
    · rw [hb]
      exact hu
    · rw [hb]
      exact hk.collateral
    · rw [hbp, ← hp, map_map, hb]
      rw [map_map] at hs
      exact hs.symm

variable (values) in
def KeepsPromises (s : Server) : Context × Event → Prop
  | (ctx, .message _ (.dsvin data)) => KeepsTo values s ctx data
  | _ => True

lemma Filled.processVin (h : s.Filled values) (hk : KeepsTo values s ctx data)
    (hs' : s.processVin p ctx peer data = .ok s') : s'.Filled values :=
  processVin_rule h (fun h _ => h.goesOn (goesOn_act ..)) (fun _ => h.addEntry hk)
    (fun h => h.goesOn ((goesOn_checkPool ..).trans (goesOn_relayStatus ..))) hs'

lemma Filled.step (h : s.Filled values) (hk : KeepsPromises values s e)
    (hs' : step p s e = .ok s') : s'.Filled values :=
  step_rule h (fun h _ => h.goesOn (goesOn_act ..)) hk
    (fun _ => h.goesOn (goesOn_doMaintenance ..)) (fun _ => h.processAccept)
    (fun hk => h.processVin hk) (fun _ => h.goesOn (goesOn_processSignFinalTx ..)) hs'

lemma filled_initial : Filled values {} := by
  refine ⟨fun _ => ⟨rfl, rfl⟩, ?_, ?_, ?_⟩ <;> simp [bodies]

/-- A step checks the pool after an entry, after the signatures of a message, and when entries time
out. -/
inductive ChecksPool (p : Params) (s : Server) : Context × Event → Server → Prop
  | dsvin {ctx : Context} {peer : Peer} {data : EntryData} {s1 : Server}
    (hready : s.isSessionReady = true) (herror : s.entryError p ctx data.deserialize = .ok none)
    (hadd : s.addEntry ctx { data.deserialize with addr := peer.addr } = .ok (.ok s1)) :
    ChecksPool p s (ctx, .message peer (.dsvin data))
      (s1.pushStatus peer.addr .STATUS_ACCEPTED .MSG_ENTRIES_ADDED)
  | dssignfinaltx {ctx : Context} {peer : Peer} {vecTxIn : List TxIn} {s1 : Server}
    (hadd : addScriptSigs p vecTxIn s = some s1) :
    ChecksPool p s (ctx, .message peer (.dssignfinaltx vecTxIn)) s1
  | maintenance {ctx : Context} (hstate : s.nState = .acceptingEntries)
    (hentries : p.poolMinParticipants ≤ s.vecEntries.length) :
    ChecksPool p s (ctx, .maintenance) (s.timedOut ctx)

def Creates (p : Params) (s : Server) (e : Context × Event) (s1 : Server) : Prop :=
  e.1.isBlockchainSynced = true ∧ ChecksPool p s e s1 ∧ s1.nState = .acceptingEntries ∧
    s1.nSessionMaxParticipants ≤ s1.vecEntries.length

lemma Filled.checksPool (h : s.Filled values) (hk : KeepsPromises values s e)
    (hc : ChecksPool p s e s') : s'.Filled values := by
  cases hc with
  | dsvin hr he ha =>
    exact (h.addEntry hk he ha).goesOn (goesOn_act ..)
  | dssignfinaltx ha => exact h.goesOn (goesOn_addScriptSigs ha)
  | maintenance hs hn => exact h.goesOn (goesOn_timedOut hs)

variable (values) in
structure FairlyMixed (s : Server) (tx : MutableTransaction) : Prop where
  distinct : (tx.vin.map TxIn.prevout).Nodup
  denominated : ∀ out ∈ tx.vout, out.nValue ∈ denominations s.nSessionDenom
  complete : ∀ entry ∈ s.vecEntries, ∀ value ∈ denominations s.nSessionDenom,
    ∃ out ∈ entry.vecTxOut, out.nValue = value
  collaterals : ∀ entry ∈ s.vecEntries, entry.txCollateral ∈ s.vecSessionCollaterals
  once : (s.vecEntries.map txCollateral).Nodup
  balanced : (tx.vin.map fun x => values x.prevout).sum = (tx.vout.map TxOut.nValue).sum

lemma outputs_bodies (s : Server) : s.bodies.flatMap Body.vecTxOut = s.outputs := by
  rw [bodies, outputs, flatMap_map]
  rfl

lemma Filled.balanced (h : s.Filled values) : ((s.bodies.flatMap Body.prevouts).map values).sum =
      valueOut (s.bodies.flatMap Body.vecTxOut) := by
  have hs : ∀ bs : List Body, (∀ b ∈ bs, (b.prevouts.map values).sum = valueOut b.vecTxOut) →
      ((bs.flatMap Body.prevouts).map values).sum = valueOut (bs.flatMap Body.vecTxOut) := by
    intro bs
    induction bs with
    | nil => exact fun _ => rfl
    | cons b bs ih =>
      intro hbs
      obtain ⟨hb, hbs⟩ := forall_mem_cons.1 hbs
      have hr := ih hbs
      unfold valueOut at hb hr ⊢
      rw [flatMap_cons, flatMap_cons, map_append, map_append, sum_append, sum_append, hb, hr]
  exact hs _ fun b hb => (h.fits b hb).balanced

lemma Filled.fairlyMixed (h : s.Filled values) : FairlyMixed values s (s.finalTransaction p) := by
  have hn : (s.finalTransaction p).vin.Perm (s.inputs.map TxDSIn.toTxIn) := perm_insertionSort _ _
  have ht : (s.finalTransaction p).vout.Perm s.outputs := perm_insertionSort _ _
  have hp : ((s.inputs.map TxDSIn.toTxIn).map TxIn.prevout) = s.bodies.flatMap Body.prevouts := by
    rw [prevouts_bodies, map_map]
    rfl
  have hf : ∀ entry ∈ s.vecEntries,
      entry.body.Fits values s.nSessionDenom s.vecSessionCollaterals :=
    fun entry he => h.fits _ (mem_map.2 ⟨entry, he, rfl⟩)
  refine ⟨?_, fun out hu => ?_, fun entry he value hv => ?_,
    fun entry he => (hf entry he).collateral, ?_, ?_⟩
  · rw [(hn.map _).nodup_iff, hp]
    exact h.distinct
  · obtain ⟨entry, he, hm⟩ := mem_flatMap.1 (ht.mem_iff.1 hu)
    rw [← (hf entry he).denominations]
    exact (mem_denominations (hf entry he).used).1 out hm
  · rw [← (hf entry he).denominations] at hv
    exact (mem_denominations (hf entry he).used).2 value hv
  · have ho := h.once
    rwa [bodies, map_map] at ho
  · have hi : (s.finalTransaction p).vin.map (fun x => values x.prevout) =
        ((s.finalTransaction p).vin.map TxIn.prevout).map values := by
      rw [map_map]
      rfl
    have hb := h.balanced
    rw [outputs_bodies, ← hp] at hb
    rw [hi, ((hn.map _).map _).sum_eq, hb, (ht.map _).sum_eq]
    rfl

end Server

/-- In a run in which all entries keep to the session, every final transaction has distinct inputs,
the denominations of the session, entries with collaterals of the session, one for each, and no fee.
-/
theorem fairlyMixed_of_run (p : Params) (values : OutPoint → Amount)
    (events : List (Context × Server.Event)) {s : Server}
    (hkeeps : Run.Guarded (Server.step p) (Server.KeepsPromises values) {} events)
    (hrun : ({} : Server).run p events = .ok s) {e : Context × Server.Event}
    (hnext : Server.KeepsPromises values s e) {s1 : Server} (hcreates : Server.Creates p s e s1) :
    Server.FairlyMixed values s1 (s1.finalTransaction p) := by
  have hs : s.Filled values :=
    hkeeps.invariant (Server.Filled values) (fun _ _ _ h hg ht => h.step hg ht)
      Server.filled_initial hrun
  exact (hs.checksPool hnext hcreates.2.1).fairlyMixed

namespace Unsigned

def values (_ : OutPoint) : Amount := COIN / 1000 + 1

def accepted (nDenom : Int) : List (Context × Server.Event) :=
  [(context, .message peer (.dsaccept ⟨nDenom, collateral⟩)), (context, .maintenance)]

def twice : EntryData where
  vecTxDSIn := [{ prevout := ⟨2, 0⟩ }, { prevout := ⟨2, 0⟩ }]
  txCollateral := { collateral with vin := [{ prevout := ⟨4, 0⟩ }] }
  vecTxOut := [coins ⟨3, 0⟩, coins ⟨5, 0⟩]

/-- Of a session: state, parameters, inputs and values of the final transaction, and collaterals. -/
structure Pool where
  session : PoolState × Nat × Int
  prevouts : List OutPoint
  amounts : List Amount
  collaterals : List MutableTransaction
  vecSessionCollaterals : List MutableTransaction
deriving DecidableEq

def pool (s : Server) : Pool where
  session := (s.nState, s.nSessionMaxParticipants, s.nSessionDenom)
  prevouts := (s.finalTransaction params).vin.map TxIn.prevout
  amounts := (s.finalTransaction params).vout.map TxOut.nValue
  collaterals := s.vecEntries.map txCollateral
  vecSessionCollaterals := s.vecSessionCollaterals

def taken (data : EntryData) (s : Server) :
    (Bool × Option (Option PoolMessage)) × Pool × Option (Option Pool) :=
  ((s.isSessionReady, (s.entryError params context data.deserialize).toOption), pool s,
    (s.addEntry context { data.deserialize with addr := peer.addr }).toOption.map
      fun result => result.toOption.map pool)

lemma creates_of_taken (nDenom : Int) (data : EntryData) {before after : Pool}
    (h : (({} : Server).run params (accepted nDenom)).toOption.map (taken data) =
      some ((true, some none), before, some (some after)))
    (hf : after.session = (.acceptingEntries, 1, nDenom)) (ho : after.collaterals.length = 1) :
    ∃ s s1, ({} : Server).run params (accepted nDenom) = .ok s ∧ pool s = before ∧
      Server.Creates params s (context, .message peer (.dsvin data)) s1 ∧ pool s1 = after := by
  obtain ⟨s, hs, ht⟩ := exists_of_map_toOption h
  simp only [taken, Prod.mk.injEq] at ht
  obtain ⟨⟨hd, he⟩, hb, ha⟩ := ht
  obtain ⟨error, he, hq⟩ := exists_of_map_toOption (f := id) (b := none) (by rw [he]; rfl)
  obtain rfl : error = none := hq
  obtain ⟨result, hr, hp⟩ := exists_of_map_toOption ha
  cases result with
  | error message => cases hp
  | ok s1 =>
    have hp : pool s1 = after := Option.some.inj hp
    rw [← hp] at hf ho
    simp only [pool, Prod.mk.injEq] at hf
    rw [pool, length_map] at ho
    refine ⟨s, s1.pushStatus peer.addr .STATUS_ACCEPTED .MSG_ENTRIES_ADDED, hs, hb,
      ⟨rfl, .dsvin hd he hr, hf.1, ?_⟩, hp⟩
    show s1.nSessionMaxParticipants ≤ s1.vecEntries.length
    rw [hf.2.1, ho]

/-- The final transaction spends an input twice and pays no denominations of the session, for a
participant that the session does not have. -/
theorem unfair_transaction_created : ∃ s s1, ({} : Server).run params (accepted 8) = .ok s ∧
      Server.Creates params s (context, .message peer (.dsvin twice)) s1 ∧
      ¬ ((s1.finalTransaction params).vin.map TxIn.prevout).Nodup ∧
      (∃ out ∈ (s1.finalTransaction params).vout, out.nValue ∉ denominations s1.nSessionDenom) ∧
      ∃ entry ∈ s1.vecEntries, entry.txCollateral ∉ s1.vecSessionCollaterals := by
  obtain ⟨s, s1, hs, -, hr, hp⟩ := creates_of_taken 8 twice
    (show _ = some ((true, some none), ⟨(.acceptingEntries, 1, 8), [], [], [], [collateral]⟩,
      some (some ⟨(.acceptingEntries, 1, 8), [⟨2, 0⟩, ⟨2, 0⟩], [COIN / 1000 + 1, COIN / 1000 + 1],
        [twice.txCollateral], [collateral]⟩)) by decide +kernel) rfl rfl
  simp only [pool, Pool.mk.injEq, Prod.mk.injEq] at hp
  obtain ⟨⟨-, -, hd⟩, hvn, ht, he, hc⟩ := hp
  refine ⟨s, s1, hs, hr, ?_, ?_, ?_⟩
  · rw [hvn]
    decide
  · obtain ⟨out, ho, hv⟩ := List.mem_map.1
      (show COIN / 1000 + 1 ∈ (s1.finalTransaction params).vout.map TxOut.nValue by simp [ht])
    refine ⟨out, ho, ?_⟩
    rw [hv, hd]
    decide
  · obtain ⟨entry, hn, hl⟩ := List.mem_map.1
      (show twice.txCollateral ∈ s1.vecEntries.map txCollateral by simp [he])
    refine ⟨entry, hn, ?_⟩
    rw [hl, hc]
    decide

lemma context_shows : context.Shows values := by
  intro prevout value h
  exact (Option.some.inj (ok.inj h)).symm

theorem fair_transaction_created : ∃ s s1, ({} : Server).run params (accepted 16) = .ok s ∧
      Server.Creates params s (context, .message peer (.dsvin entry)) s1 ∧
      Server.FairlyMixed values s1 (s1.finalTransaction params) := by
  obtain ⟨s, s1, hs, hb, hr, -⟩ := creates_of_taken 16 entry
    (show _ = some ((true, some none), ⟨(.acceptingEntries, 1, 16), [], [], [], [collateral]⟩,
      some (some ⟨(.acceptingEntries, 1, 16), [⟨2, 0⟩], [COIN / 1000 + 1], [collateral],
        [collateral]⟩)) by decide +kernel) rfl rfl
  simp only [pool, Pool.mk.injEq, Prod.mk.injEq] at hb
  obtain ⟨⟨-, -, hd⟩, -, -, hn, hc⟩ := hb
  have hk : Server.KeepsTo values s context entry := by
    refine ⟨context_shows, by decide, ?_, ?_, ?_⟩
    · rw [hd]
      decide
    · rw [hc]
      decide
    · rw [List.map_eq_nil_iff.1 hn]
      exact fun entry ht => absurd ht List.not_mem_nil
  refine ⟨s, s1, hs, hr, fairlyMixed_of_run params values (accepted 16)
    (.of_forall fun e he s => ?_) hs (e := (context, .message peer (.dsvin entry))) hk hr⟩
  simp only [accepted, List.mem_cons, List.not_mem_nil, or_false] at he
  rcases he with rfl | rfl <;> trivial

end Unsigned
end Trivechain.ExclusiveSend
