import Trivechain.ExclusiveSend.FinalTransaction

/-!
# The end of a session

A timeout moves a session on or resets it, so that three of them end every session. Those who did
not do their part can be charged a fee, unless the unsigned inputs outnumber the participants. The
participants are told when the final transaction is accepted, but not when it is refused: then the
session is reset before.
-/

namespace Trivechain.ExclusiveSend
open List Except Server Entry
variable {p : Params} {ctx : Context} {s s' : Server} {early late : Int → Prop} {dsa : Accept}
  {e : Context × Server.Event}

/-- The number of timeouts until the session is over. -/
def PoolState.rank : PoolState → Nat
  | .queue => 3
  | .acceptingEntries => 2
  | .signing => 1
  | _ => 0

namespace Server

/-- An idle server has no session, a queue got its last step from a message, and no session has too
many collaterals. -/
structure Steady (early late : Int → Prop) (s : Server) : Prop where
  state : s.nState ≠ .error ∧ s.nState ≠ .success
  idle : s.nState = .idle →
    s.vecEntries = [] ∧ s.vecSessionCollaterals = [] ∧ s.nSessionMaxParticipants = 0
  queue : s.nState = .queue → s.vecSessionCollaterals ≠ [] ∧ early s.nTimeLastSuccessfulStep ∧
    (s.nSessionMaxParticipants = 0 ∨ s.vecSessionCollaterals.length ≤ s.nSessionMaxParticipants)
  accepting : s.nState = .acceptingEntries →
    s.vecSessionCollaterals.length ≤ s.nSessionMaxParticipants
  late : s.nState ≠ .idle → late s.nTimeLastSuccessfulStep

lemma Steady.of_idle (hs : s.nState = .idle) (he : s.vecEntries = [])
    (hc : s.vecSessionCollaterals = []) (hm : s.nSessionMaxParticipants = 0) :
    s.Steady early late := by
  constructor <;> simp_all

lemma Steady.setNull : (s.setNull ctx).Steady early late := .of_idle rfl rfl rfl rfl

lemma Steady.act {a : Action} (h : s.Steady early late) : (s.act a).Steady early late :=
  ⟨h.state, h.idle, h.queue, h.accepting, h.late⟩

lemma Steady.relayStatus (h : s.Steady early late) (status : PoolStatusUpdate)
    (message : PoolMessage) : (s.relayStatus ctx status message).Steady early late :=
  relayStatus_rule h (fun h _ => h.act) (fun _ => .setNull) ..

lemma commitFinalTransaction_eq_setNull (ctx : Context) (s : Server) :
    ∃ t : Server, s.commitFinalTransaction ctx = t.setNull ctx := by
  unfold commitFinalTransaction
  dsimp only
  split_ifs
  · exact ⟨_, rfl⟩
  · exact ⟨_, rfl⟩

def Spaced (t t' : Int) : Prop :=
  t + max EXCLUSIVESEND_QUEUE_TIMEOUT EXCLUSIVESEND_SIGNING_TIMEOUT ≤ t'

lemma checkTimeout_cases (p : Params) (ctx : Context) (s : Server) : ∃ q,
    (s.checkTimeout p ctx = { s with vecExclusiveSendQueue := q } ∧
      (s.nState ≠ .idle → ¬ Spaced s.nTimeLastSuccessfulStep ctx.getTime)) ∨
    (s.checkTimeout p ctx = { s with
      vecExclusiveSendQueue := q
      nSessionMaxParticipants := s.vecSessionCollaterals.length } ∧ s.nState = .queue) ∨
    (∃ t : Server, s.checkTimeout p ctx = t.createFinalTransaction p ctx ∧
      s.nState = .acceptingEntries) ∨
    ∃ t : Server, s.checkTimeout p ctx = t.setNull ctx := by
  obtain ⟨q, hq⟩ : ∃ q, s.checkQueue ctx = { s with vecExclusiveSendQueue := q } := by
    unfold checkQueue
    split_ifs
    · exact ⟨_, rfl⟩
    · exact ⟨_, rfl⟩
  have ht : (if s.nState = .signing then EXCLUSIVESEND_SIGNING_TIMEOUT
      else EXCLUSIVESEND_QUEUE_TIMEOUT) ≤ EXCLUSIVESEND_QUEUE_TIMEOUT := by
    split_ifs <;> decide
  unfold checkTimeout
  dsimp only
  rw [hq]
  dsimp only
  generalize (if s.nState = .signing then EXCLUSIVESEND_SIGNING_TIMEOUT
    else EXCLUSIVESEND_QUEUE_TIMEOUT) = nTimeout at ht
  split_ifs with hi ha hc he
  · exact ⟨_, .inl ⟨rfl, fun hn => absurd hi hn⟩⟩
  · exact ⟨q, .inl ⟨rfl, fun _ => by unfold Spaced; omega⟩⟩
  · exact ⟨q, .inr (.inl ⟨rfl, hc.1⟩)⟩
  · -- the pool is complete with the entries that it has
    refine ⟨q, .inr (.inr (.inl ⟨_, if_pos ⟨?_, le_rfl⟩, he.1⟩))⟩
    exact chargeFees_rule (I := fun t => t.nState = _) he.1 fun h _ => h
  · exact ⟨q, .inr (.inr (.inr ⟨_, rfl⟩))⟩

section
variable (hl : late ctx.getTime)
include hl

lemma Steady.createFinalTransaction : (s.createFinalTransaction p ctx).Steady early late := by
  refine relayEach_rule ?_ (fun h _ => h.act) (fun _ => .setNull) (by simp) _
  exact ⟨by simp [setState], nofun, nofun, nofun, fun _ => hl⟩

lemma Steady.checkPool (h : s.Steady early late) : (s.checkPool p ctx).Steady early late := by
  unfold Server.checkPool
  split_ifs
  · exact .createFinalTransaction hl
  · obtain ⟨t, ht⟩ := commitFinalTransaction_eq_setNull ctx s
    exact ht ▸ .setNull
  · exact h

lemma Steady.doMaintenance (h : s.Steady early late) :
    (s.doMaintenance p ctx).Steady early late := by
  have ht : (s.checkTimeout p ctx).Steady early late := by
    obtain ⟨q, ⟨he, -⟩ | ⟨he, hq⟩ | ⟨t, he, -⟩ | ⟨t, he⟩⟩ := checkTimeout_cases p ctx s
    · exact he ▸ ⟨h.state, h.idle, h.queue, h.accepting, h.late⟩
    · obtain ⟨hc, hb, -⟩ := h.queue hq
      refine he ▸ ⟨h.state, fun hi => ?_, fun _ => ⟨hc, hb, .inr le_rfl⟩, fun _ => le_rfl, h.late⟩
      cases hq.symm.trans hi
    · exact he ▸ .createFinalTransaction hl
    · exact he ▸ .setNull
  unfold Server.doMaintenance checkForCompleteQueue
  split_ifs with hq
  · refine Steady.act ⟨by simp [setState], nofun, nofun, fun _ => ?_, fun _ => hl⟩
    have hr := hq.2
    rw [isSessionReady, Bool.and_eq_true, bne_iff_ne] at hr
    exact (ht.queue hq.1).2.2.resolve_left hr.1
  · exact ht

end

lemma Steady.createNewSession (h : s.Steady early late) (he : early ctx.getTime)
    (hl : late ctx.getTime) (hs' : s.createNewSession p ctx dsa = .ok (.ok s')) :
    s'.Steady early late := by
  obtain ⟨hi, id, n, dsq, rfl⟩ := createNewSession_ok hs'
  refine ⟨⟨nofun, nofun⟩, nofun, fun _ => ⟨by simp, he, ?_⟩, nofun, fun _ => hl⟩
  -- there were no collaterals before
  have hc := (h.idle hi).2.1
  simp only [setState, hc]
  simp
  omega

lemma Steady.addUserToExistingSession (h : s.Steady early late) (hr : ¬ s.isSessionReady)
    (hs' : s.addUserToExistingSession ctx dsa = .ok (.ok s')) : s'.Steady early late := by
  obtain ⟨hq, rfl⟩ := addUserToExistingSession_ok hs'
  simp [isSessionReady] at hr
  refine ⟨h.state, fun hi => ?_, fun _ => ⟨by simp, (h.queue hq).2.1, ?_⟩, fun ha => ?_, h.late⟩
  · cases hq.symm.trans hi
  · simp
    omega
  · cases hq.symm.trans ha

lemma Steady.addEntry (h : s.Steady early late) {entry : Entry}
    (hs' : s.addEntry ctx entry = .ok (.ok s')) : s'.Steady early late := by
  obtain ⟨rfl, hr, -⟩ := addEntry_ok hs'
  refine ⟨h.state, fun hi => ?_, h.queue, h.accepting, h.late⟩
  rw [(h.idle hi).2.2] at hr
  cases hr

lemma Steady.addScriptSig (h : s.Steady early late) (txin : TxIn) :
    (s.addScriptSig p txin).2.Steady early late := by
  unfold Server.addScriptSig
  split_ifs
  · exact h
  · exact h
  · dsimp only
    cases hs : signEntries txin s.vecEntries with
    | none => exact ⟨h.state, h.idle, h.queue, h.accepting, h.late⟩
    | some es =>
      refine ⟨h.state, fun hi => ?_, h.queue, h.accepting, h.late⟩
      rw [(h.idle hi).1] at hs
      cases hs

lemma Steady.processSignFinalTx (hl : late ctx.getTime) (h : s.Steady early late)
    (vecTxIn : List TxIn) : (processSignFinalTx p ctx vecTxIn s).Steady early late := by
  induction vecTxIn generalizing s with
  | nil => exact h.checkPool hl
  | cons txin rest ih =>
    have hs := h.addScriptSig (p := p) txin
    rw [processSignFinalTx]
    generalize s.addScriptSig p txin = r at hs ⊢
    obtain ⟨_ | _, s1⟩ := r
    · exact hs.relayStatus ..
    · exact ih hs

def InTime (early late : Int → Prop) (e : Context × Event) : Prop :=
  late e.1.getTime ∧ (e.2 ≠ .maintenance → early e.1.getTime)

lemma Steady.step (h : s.Steady early late) (he : InTime early late e)
    (hs' : step p s e = .ok s') : s'.Steady early late := by
  refine step_rule h (fun h _ => h.act) he (fun he => h.doMaintenance he.1) (fun he => ?_)
    (fun he => ?_) (fun he => h.processSignFinalTx he.1 _) hs'
  · exact processAccept_rule h (fun h _ => h.act)
      (fun _ => h.createNewSession (he.2 (by simp)) he.1) (fun hr _ => h.addUserToExistingSession hr)
  · exact processVin_rule h (fun h _ => h.act) (fun _ _ => h.addEntry)
      fun h => (h.checkPool he.1).relayStatus ..

lemma steady_of_run {events : List (Context × Event)} (he : ∀ e ∈ events, InTime early late e)
    (hr : ({} : Server).run p events = .ok s) : s.Steady early late :=
  Run.Guarded.invariant (G := fun _ => InTime early late) (Steady early late)
    (fun _ _ _ h he => h.step he) (.of_forall fun e hm _ => he e hm) (.of_idle rfl rfl rfl rfl) hr

lemma rank_createFinalTransaction (p : Params) (ctx : Context) (s : Server) :
    (s.createFinalTransaction p ctx).nState.rank ≤ 1 :=
  relayEach_rule (I := fun t => t.nState.rank ≤ 1) le_rfl (fun h _ => h) (fun _ => zero_le_one)
    (by simp) _

lemma rank_checkForCompleteQueue (p : Params) (ctx : Context) (s : Server) :
    (s.checkForCompleteQueue p ctx).nState.rank ≤ s.nState.rank := by
  unfold checkForCompleteQueue
  split_ifs with hq
  · rw [hq.1]
    exact Nat.le_succ 2
  · exact le_rfl

lemma rank_doMaintenance_le (p : Params) (ctx : Context) (s : Server) :
    (s.doMaintenance p ctx).nState.rank ≤ s.nState.rank := by
  refine (rank_checkForCompleteQueue ..).trans ?_
  obtain ⟨q, ⟨he, -⟩ | ⟨he, -⟩ | ⟨t, he, hs⟩ | ⟨t, he⟩⟩ := checkTimeout_cases p ctx s
  · rw [he]
  · rw [he]
  · rw [he, hs]
    exact (rank_createFinalTransaction ..).trans one_le_two
  · rw [he]
    exact Nat.zero_le _

lemma Steady.rank_doMaintenance (h : s.Steady early late)
    (ht : s.nState ≠ .idle → Spaced s.nTimeLastSuccessfulStep ctx.getTime) :
    (s.doMaintenance p ctx).nState.rank ≤ s.nState.rank - 1 := by
  by_cases hi : s.nState = .idle
  · have hm := rank_doMaintenance_le p ctx s
    rwa [hi] at hm ⊢
  obtain ⟨q, ⟨he, ha⟩ | ⟨he, hs⟩ | ⟨t, he, hs⟩ | ⟨t, he⟩⟩ := checkTimeout_cases p ctx s
  · exact absurd (ht hi) (ha hi)
  · -- the participants that are there are enough
    unfold Server.doMaintenance checkForCompleteQueue
    rw [if_pos, hs]
    · exact le_rfl
    · simpa [he, hs, isSessionReady] using (h.queue hs).1
  · refine (rank_checkForCompleteQueue ..).trans ?_
    rw [he, hs]
    exact rank_createFinalTransaction ..
  · refine (rank_checkForCompleteQueue ..).trans ?_
    rw [he]
    exact Nat.zero_le _

lemma Steady.idle_of_rank (h : s.Steady early late) (hr : s.nState.rank = 0) :
    s.nState = .idle := by
  have hn := h.state
  generalize s.nState = state at hr hn
  cases state <;> simp [PoolState.rank] at hr hn ⊢

lemma Steady.timeout {t : Int} (h : s.Steady early (· ≤ t)) (ht : Spaced t ctx.getTime) :
    (s.doMaintenance p ctx).Steady (fun _ => True) (· ≤ ctx.getTime) ∧
      (s.doMaintenance p ctx).nState.rank ≤ s.nState.rank - 1 := by
  have hl : ∀ {u}, u ≤ t → u ≤ ctx.getTime := fun hu => by
    unfold Spaced EXCLUSIVESEND_QUEUE_TIMEOUT at ht
    omega
  have hs : s.Steady (fun _ => True) (· ≤ ctx.getTime) :=
    ⟨h.state, h.idle, fun hq => ⟨(h.queue hq).1, trivial, (h.queue hq).2.2⟩, h.accepting,
      fun hi => hl (h.late hi)⟩
  refine ⟨hs.doMaintenance le_rfl, h.rank_doMaintenance fun hi => ?_⟩
  exact (Int.add_le_add_right (h.late hi) _).trans ht

/-- Every session ends by three timeouts, if no messages arrive. -/
theorem idle_of_maintenance (p : Params) (events : List (Context × Event)) (s : Server)
    (c c' c'' : Context) (hr : ({} : Server).run p events = .ok s)
    (hs : c.isBlockchainSynced ∧ c'.isBlockchainSynced ∧ c''.isBlockchainSynced)
    (hl : ∀ e ∈ events, e.1.getTime ≤ c.getTime)
    (hm : ∀ e ∈ events, e.2 ≠ .maintenance → Spaced e.1.getTime c.getTime)
    (hc : Spaced c.getTime c'.getTime) (hc' : Spaced c'.getTime c''.getTime) :
    ∃ s', s.run p [(c, .maintenance), (c', .maintenance), (c'', .maintenance)] = .ok s' ∧
      s'.nState = .idle ∧ s'.vecEntries = [] ∧ s'.vecSessionCollaterals = [] := by
  have h : s.Steady (Spaced · c.getTime) (· ≤ c.getTime) :=
    steady_of_run (fun e he => ⟨hl e he, hm e he⟩) hr
  -- only a queue takes all three timeouts, and its first one is due
  have h1 : (s.doMaintenance p c).nState.rank ≤ 2 := by
    by_cases hq : s.nState = .queue
    · have hk := h.rank_doMaintenance (p := p) fun _ => (h.queue hq).2.1
      rwa [hq] at hk
    · refine (rank_doMaintenance_le p c s).trans ?_
      generalize s.nState = state at hq
      cases state <;> simp [PoolState.rank] at hq ⊢
  have hs1 : (s.doMaintenance p c).Steady _ (· ≤ c.getTime) := h.doMaintenance le_rfl
  obtain ⟨hs2, h2⟩ := hs1.timeout (p := p) hc
  obtain ⟨hs3, h3⟩ := hs2.timeout (p := p) hc'
  have hi := hs3.idle_of_rank (by omega)
  refine ⟨_, ?_, hi, (hs3.idle hi).1, (hs3.idle hi).2.1⟩
  simp [run, step, hs]

end Server

namespace Unsigned

lemma session_run : ∃ s, ({} : Server).run lenientParams session = .ok s ∧ s.nState = .signing ∧
    s.vecEntries.map addr = [peer.addr] := by
  have hs : (({} : Server).run lenientParams session).toOption.map (fun s =>
    (s.nState, s.vecEntries.map addr)) = some (.signing, [peer.addr]) := by decide +kernel
  obtain ⟨s, hr, hs⟩ := Run.exists_of_map_toOption hs
  exact ⟨s, hr, Prod.mk.inj hs⟩

def timeout (getTime : Int) : Context × Server.Event := ({ context with getTime }, .maintenance)

theorem session_idle : ∃ s s', ({} : Server).run lenientParams session = .ok s ∧
    s.nState = .signing ∧ s.run lenientParams [timeout 30, timeout 60, timeout 90] = .ok s' ∧
    s'.nState = .idle ∧ s'.vecEntries = [] ∧ s'.vecSessionCollaterals = [] := by
  obtain ⟨s, hr, hs, -⟩ := session_run
  obtain ⟨s', h⟩ := idle_of_maintenance lenientParams session s (timeout 30).1 (timeout 60).1
    (timeout 90).1 hr (by decide) (by simp [session, context, timeout])
    (by simp +decide [session, context, timeout, Server.Spaced]) (by unfold Server.Spaced; decide)
    (by unfold Server.Spaced; decide)
  exact ⟨s, s', hr, hs, h⟩

end Unsigned

namespace Server

/-- There are random choices with which the collaterals are submitted. -/
def CanCharge (s : Server) (Offends : MutableTransaction → Prop) : Prop :=
  ∀ tx, Offends tx → ∀ ctx : Context, ∃ i,
    s.chargeFees { ctx with randCharge := 0, randChargeAll := 0, randOffender := i } =
      s.act (.submitCollateral tx)

def ChargesOnly (s : Server) (Offends : MutableTransaction → Prop) : Prop :=
  ∀ ctx, s.chargeFees ctx = s ∨
    ∃ tx, Offends tx ∧ s.chargeFees ctx = s.act (.submitCollateral tx)

def LeftUnsigned (s : Server) (tx : MutableTransaction) : Prop :=
  ∃ entry ∈ s.vecEntries, entry.txCollateral = tx ∧ ∃ x ∈ entry.vecTxDSIn, x.fHasSig = false

def LeftOut (s : Server) (tx : MutableTransaction) : Prop :=
  tx ∈ s.vecSessionCollaterals ∧ ∀ entry ∈ s.vecEntries, entry.txCollateral ≠ tx

lemma canCharge (h : s.offenders.length < s.nSessionMaxParticipants) :
    s.CanCharge (· ∈ s.offenders) := by
  intro tx ht ctx
  obtain ⟨i, hi, he⟩ := mem_iff_getElem.1 ht
  refine ⟨i, ?_⟩
  have hn : s.offenders ≠ [] := ne_nil_of_mem ht
  have hg : s.offenders[i % s.offenders.length]? = some tx := by
    rw [Nat.mod_eq_of_lt hi, getElem?_eq_getElem hi, he]
  simp [chargeFees, hn, h, hg]

lemma canCharge_iff (ctx : Context) : s.CanCharge (· ∈ s.offenders) ↔
    s.offenders.length < s.nSessionMaxParticipants ∨ s.offenders = [] := by
  refine ⟨fun hc => ?_, fun h => h.elim canCharge fun he tx ht => ?_⟩
  · by_contra hn
    rw [not_or, not_lt] at hn
    obtain ⟨tx, ht⟩ := exists_mem_of_ne_nil _ hn.2
    obtain ⟨i, hi⟩ := hc tx ht ctx
    have hs : s = s.act (.submitCollateral tx) := by simpa [chargeFees, hn.1] using hi
    simpa [act] using congrArg Server.log hs
  · rw [he] at ht
    cases ht

lemma chargesOnly (s : Server) : s.ChargesOnly (· ∈ s.offenders) := by
  intro ctx
  unfold chargeFees
  dsimp only
  split_ifs
  · exact .inl rfl
  · exact .inl rfl
  · exact .inl rfl
  · exact .inl rfl
  · split
    · exact .inl rfl
    · next tx ht => exact .inr ⟨tx, mem_of_getElem? ht, rfl⟩

lemma offenders_signing (hs : s.nState = .signing) : (· ∈ s.offenders) = s.LeftUnsigned := by
  funext tx
  simp only [offenders, hs, mem_flatMap, mem_map, mem_filter, Bool.not_eq_true', LeftUnsigned,
    eq_iff_iff]
  constructor
  · rintro ⟨entry, he, x, hx, rfl⟩
    exact ⟨entry, he, rfl, x, hx⟩
  · rintro ⟨entry, he, rfl, x, hx⟩
    exact ⟨entry, he, x, hx, rfl⟩

lemma length_offenders (hs : s.nState = .signing) :
    s.offenders.length = s.inputs.countP fun x => !x.fHasSig := by
  simp only [offenders, hs, inputs, length_flatMap, length_map, countP_flatMap,
    ← countP_eq_length_filter, Function.comp_def]

lemma offenders_accepting (hs : s.nState = .acceptingEntries) : (· ∈ s.offenders) = s.LeftOut := by
  funext tx
  simp [offenders, hs, LeftOut]

lemma length_offenders_lt (hs : s.nState = .acceptingEntries) {entry : Entry}
    (he : entry ∈ s.vecEntries) (hc : entry.txCollateral ∈ s.vecSessionCollaterals) :
    s.offenders.length < s.vecSessionCollaterals.length := by
  simp only [offenders, hs]
  exact length_filter_lt_length_iff_exists.2 ⟨_, hc, by simpa using ⟨entry, he, rfl⟩⟩

/-- Exactly those who did not do their part can be charged: when the pool is signing, exactly if
fewer inputs are unsigned than there are participants, or none is. -/
theorem offenders_charged (p : Params) (events : List (Context × Event)) (s : Server)
    (hr : ({} : Server).run p events = .ok s) :
    (s.nState = .signing → s.ChargesOnly s.LeftUnsigned ∧
      (s.CanCharge s.LeftUnsigned ↔
        (s.inputs.countP fun x => !x.fHasSig) < s.nSessionMaxParticipants ∨
        ∀ x ∈ s.inputs, x.fHasSig)) ∧
    (s.nState = .acceptingEntries → s.ChargesOnly s.LeftOut ∧
      ((∃ entry ∈ s.vecEntries, entry.txCollateral ∈ s.vecSessionCollaterals) →
        s.CanCharge s.LeftOut)) := by
  constructor
  · intro hs
    obtain ⟨ctx⟩ : Nonempty Context := by
      rcases events with _ | ⟨e, events⟩
      · cases hr
        cases hs
      · exact ⟨e.1⟩
    have hn : s.offenders = [] ↔ ∀ x ∈ s.inputs, x.fHasSig := by
      rw [← length_eq_zero_iff, length_offenders hs, countP_eq_zero]
      simp
    rw [← offenders_signing hs, ← length_offenders hs, ← hn]
    exact ⟨s.chargesOnly, canCharge_iff ctx⟩
  · intro hs
    have h : s.Steady (fun _ => True) (fun _ => True) :=
      steady_of_run (fun _ _ => ⟨trivial, fun _ => trivial⟩) hr
    rw [← offenders_accepting hs]
    refine ⟨s.chargesOnly, fun ⟨entry, he, hc⟩ => canCharge ?_⟩
    exact (length_offenders_lt hs he hc).trans_le (h.accepting hs)

end Server

namespace Unsigned

def collateral' : MutableTransaction where
  vin := [{ prevout := ⟨4, 0⟩ }]
  vout := [⟨90001, .pubKeyHash 4⟩]

def entry' (inputs : List TxIn) : EntryData where
  vecTxDSIn := inputs
  txCollateral := collateral'
  vecTxOut := inputs.map fun txin => coins txin.prevout

def halfSigned (inputs : List TxIn) : List (Context × Server.Event) :=
  [({ context with randParticipants := 1 }, .message peer (.dsaccept ⟨16, collateral⟩)),
    (context, .message peer (.dsaccept ⟨16, collateral'⟩)), (context, .maintenance),
    (context, .message peer (.dsvin entry)), (context, .message peer (.dsvin (entry' inputs))),
    signature [0x51]]

/-- The second participant has two inputs, and is never charged. -/
theorem offender_not_charged : ∃ s,
    ({} : Server).run lenientParams (halfSigned [{ prevout := ⟨5, 0⟩ }, { prevout := ⟨6, 0⟩ }]) =
      .ok s ∧ s.nState = .signing ∧
    s.vecEntries.map (fun entry => entry.vecTxDSIn.map (·.fHasSig)) = [[true], [false, false]] ∧
    ∀ ctx, s.chargeFees ctx = s := by
  have hs : (({} : Server).run lenientParams
      (halfSigned [{ prevout := ⟨5, 0⟩ }, { prevout := ⟨6, 0⟩ }])).toOption.map (fun s => (s.nState,
        s.vecEntries.map (fun entry => entry.vecTxDSIn.map (·.fHasSig)), s.offenders.length,
        s.nSessionMaxParticipants)) = some (.signing, [[true], [false, false]], 2, 2) := by
    decide +kernel
  obtain ⟨s, hr, hs⟩ := Run.exists_of_map_toOption hs
  simp only [Prod.mk.injEq] at hs
  refine ⟨s, hr, hs.1, hs.2.1, fun ctx => ?_⟩
  simp [chargeFees, hs]

theorem offender_charged : ∃ s,
    ({} : Server).run lenientParams (halfSigned [{ prevout := ⟨5, 0⟩ }]) = .ok s ∧
    s.nState = .signing ∧
    s.vecEntries.map (fun entry => entry.vecTxDSIn.map (·.fHasSig)) = [[true], [false]] ∧
    s.CanCharge s.LeftUnsigned := by
  have hs : (({} : Server).run lenientParams (halfSigned [{ prevout := ⟨5, 0⟩ }])).toOption.map
      (fun s => (s.nState, s.vecEntries.map (fun entry => entry.vecTxDSIn.map (·.fHasSig)),
        s.inputs.countP fun x => !x.fHasSig, s.nSessionMaxParticipants)) =
      some (.signing, [[true], [false]], 1, 2) := by
    decide +kernel
  obtain ⟨s, hr, hs⟩ := Run.exists_of_map_toOption hs
  simp only [Prod.mk.injEq] at hs
  have hc := ((offenders_charged lenientParams _ s hr).1 hs.1).2
  exact ⟨s, hr, hs.1, hs.2.1, hc.2 (.inl (by simp [hs]))⟩

end Unsigned

namespace Server

def completions (s : Server) : List Action :=
  s.log.filter fun
    | .complete .. => true
    | _ => false

lemma relayEach_of_connected {message : Service → Action} {entries : List Entry}
    (hc : ∀ entry ∈ entries, ctx.connected entry.addr) : relayEach ctx message entries s =
      { s with log := s.log ++ entries.map fun entry => message entry.addr } := by
  induction entries generalizing s with
  | nil => simp [relayEach]
  | cons entry entries ih =>
    rw [relayEach, if_pos (hc entry (by simp)), ih fun e he => hc e (by simp [he])]
    simp [act]

lemma completions_relayCompletedTransaction (message : PoolMessage)
    (hc : ∀ entry ∈ s.vecEntries, ctx.connected entry.addr) :
    (s.relayCompletedTransaction ctx message).completions = s.completions ++
      s.vecEntries.map fun entry => .complete entry.addr s.nSessionID message := by
  rw [relayCompletedTransaction, relayEach_of_connected hc]
  simp [completions, filter_map, Function.comp_def]

lemma completions_chargeRandomFees (collaterals : List MutableTransaction) (i : Nat) :
    (chargeRandomFees ctx collaterals i s).completions = s.completions := by
  induction collaterals generalizing i s with
  | nil => rfl
  | cons tx rest ih =>
    rw [chargeRandomFees]
    split_ifs
    · rfl
    · rw [ih]
      simp [completions, act]

/-- All participants are told about the end of their session exactly if the transaction is accepted;
the session is reset anyway. -/
theorem completions_commitFinalTransaction (ctx : Context) (s : Server)
    (hc : ∀ entry ∈ s.vecEntries, ctx.connected entry.addr) :
    ((s.commitFinalTransaction ctx).completions = s.completions ++ s.vecEntries.map (fun entry =>
        .complete entry.addr s.nSessionID
          (if ctx.lockMain && ctx.accepts s.finalMutableTransaction then .MSG_SUCCESS
            else .ERR_INVALID_TX)) ↔
      (ctx.lockMain && ctx.accepts s.finalMutableTransaction) ∨ s.vecEntries = []) ∧
    (s.commitFinalTransaction ctx).nState = .idle ∧
    (s.commitFinalTransaction ctx).vecEntries = [] := by
  obtain ⟨t, ht⟩ := commitFinalTransaction_eq_setNull ctx s
  refine ⟨?_, by rw [ht]; rfl, by rw [ht]; rfl⟩
  have hs : (s.act (.submitFinal s.finalMutableTransaction)).completions = s.completions := by
    simp [completions, act]
  cases ha : ctx.lockMain && ctx.accepts s.finalMutableTransaction with
  | false =>
    -- the session is over before anybody is told
    have hn : (s.commitFinalTransaction ctx).completions = s.completions := by
      simp only [commitFinalTransaction, ha]
      exact hs
    simp [hn]
  | true =>
    refine iff_of_true ?_ (.inl rfl)
    simp only [commitFinalTransaction, ha, ← hs]
    exact (completions_chargeRandomFees _ _).trans (completions_relayCompletedTransaction _ hc)

end Server

namespace Unsigned

/-- The final transaction is refused, and nobody is told. -/
theorem failure_not_told : ∃ s, ({} : Server).run lenientParams session = .ok s ∧
    s.vecEntries.map addr = [peer.addr] ∧
    (s.commitFinalTransaction { context with accepts := fun _ => false }).completions = [] := by
  have hs : (({} : Server).run lenientParams session).toOption.map (fun s =>
      (s.vecEntries.map addr,
        (s.commitFinalTransaction { context with accepts := fun _ => false }).completions)) =
      some ([peer.addr], []) := by decide +kernel
  obtain ⟨s, hr, hs⟩ := Run.exists_of_map_toOption hs
  exact ⟨s, hr, Prod.mk.inj hs⟩

theorem success_told : ∃ s, ({} : Server).run lenientParams session = .ok s ∧
    (s.commitFinalTransaction context).completions =
      s.completions ++ [.complete peer.addr s.nSessionID .MSG_SUCCESS] := by
  obtain ⟨s, hr, -, hs⟩ := session_run
  refine ⟨s, hr, ?_⟩
  rw [(completions_commitFinalTransaction context s fun _ _ => rfl).1.2 (.inl rfl)]
  have hm := congrArg (map (Action.complete · s.nSessionID .MSG_SUCCESS)) hs
  rw [map_map] at hm
  exact congrArg _ hm

end Unsigned
end Trivechain.ExclusiveSend
