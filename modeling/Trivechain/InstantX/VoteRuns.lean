import Trivechain.Evo.TableHash
import Trivechain.InstantX.Integrity

/-!
# Runs of the vote-based locks

A node handles lock requests, votes and blocks. The votes it creates and relays are kept in a log
for as long as the candidates of their transactions are stored.

If votes are only for inputs of their transactions, every voted transaction has a candidate, and
`Vote` never looks for a missing one. If the own votes that are out are found in the stored
candidates when the node votes again, it does not vote for an outpoint in two transactions.
-/

namespace Trivechain.InstantX
open Evo
open Std (ExtTreeMap ExtTreeSet)
open List DirectSend Run

namespace DirectSend

section Vote
variable {p : VoteParams} {ctx : VoteContext} {s : DirectSend} {txHash : Uint256} {o : OutPoint}
  {v v' : Voting}

variable (ctx o) in
lemma alreadyVoted_returns {hashes : List Uint256}
    (h : ∀ hash ∈ hashes, ∃ c, s.mapTxLockCandidates[hash]? = some c) :
    ∃ b, s.alreadyVoted ctx o hashes = .ok b := by
  induction hashes with
  | nil => exact ⟨false, rfl⟩
  | cons hash hashes ih =>
    obtain ⟨c, hc⟩ := h hash (by simp)
    rw [alreadyVoted, hc, demand_some, ok_bind]
    split_ifs
    · exact ⟨true, rfl⟩
    · exact ih fun hash' hm => h hash' (by simp [hm])

lemma alreadyVoted_false {hashes : List Uint256} (h : s.alreadyVoted ctx o hashes = .ok false) :
    ∀ hash ∈ hashes, ∃ c, s.mapTxLockCandidates[hash]? = some c ∧
      c.hasMasternodeVoted o ctx.outpoint = false := by
  induction hashes with
  | nil => exact fun hash hm => absurd hm not_mem_nil
  | cons hash hashes ih =>
    rw [alreadyVoted] at h
    obtain ⟨c, hc, h⟩ := bind_ok.1 h
    rw [demand_ok] at hc
    split_ifs at h with hv
    · cases h
    · intro hash' hm
      rcases mem_cons.1 hm with rfl | hm
      · exact ⟨c, hc, by simpa using hv⟩
      · exact ih h hash' hm

lemma voteFor_cases {b : Bool} (h : voteFor p ctx txHash v o = .ok (b, v')) :
    v' = v ∨ ∃ vote : TxLockVote, vote.txHash = txHash ∧ vote.outpoint = o ∧
      v.s.alreadyVoted ctx o (v.s.mapVotedOutpoints[o]?.getD ∅).toList = .ok false ∧
      v' = v.addVote p vote := by
  unfold voteFor at h
  split at h
  · cases h
    exact .inl rfl
  · split at h
    · cases h
      exact .inl rfl
    · split_ifs at h
      · cases h
        exact .inl rfl
      · obtain ⟨voted, hv, h⟩ := bind_ok.1 h
        cases voted with
        | true =>
          cases h
          exact .inl rfl
        | false =>
          simp only [Bool.false_eq_true, if_false] at h
          split at h
          · cases h
            exact .inl rfl
          · cases h
            exact .inr ⟨_, rfl, rfl, hv, rfl⟩

variable (p ctx txHash) in
lemma voteFor_returns
    (h : ∀ hash, v.s.Voted o hash → ∃ c, v.s.mapTxLockCandidates[hash]? = some c) :
    ∃ b v', voteFor p ctx txHash v o = .ok (b, v') := by
  obtain ⟨voted, hv⟩ := alreadyVoted_returns ctx o
    fun hash hm => h hash (ExtTreeSet.mem_toList.1 hm)
  unfold voteFor
  split
  · exact ⟨_, _, rfl⟩
  · split
    · exact ⟨_, _, rfl⟩
    · rw [hv, ok_bind]
      split_ifs
      · exact ⟨_, _, rfl⟩
      · exact ⟨_, _, rfl⟩
      · dsimp only
        split <;> exact ⟨_, _, rfl⟩

@[simp] lemma Voting.addVote_candidates (vote : TxLockVote) :
    (v.addVote p vote).s.mapTxLockCandidates = v.s.mapTxLockCandidates := by
  unfold Voting.addVote
  simp only
  split_ifs <;> rfl

lemma Sound.addOwnVote [ChainHash] (hs : v.s.Sound) {vote : TxLockVote}
    (hl : v.s.HasLock vote.txHash vote.outpoint) : (v.addVote p vote).s.Sound := by
  unfold Voting.addVote
  simp only
  split_ifs
  · exact hs.insertVoted hl rfl rfl
  · exact hs.of_shaped (.of_eq rfl) rfl

lemma Sound.voteLoop [ChainHash] {os : List OutPoint} (hs : v.s.Sound)
    (hl : ∀ o ∈ os, v.s.HasLock txHash o) :
    ∃ v', voteLoop p ctx txHash os v = .ok v' ∧ v'.s.Sound := by
  induction os generalizing v with
  | nil => exact ⟨v, rfl, hs⟩
  | cons o os ih =>
    obtain ⟨goOn, v1, hr⟩ := voteFor_returns p ctx txHash fun hash h =>
      (hs.voted o hash h).imp fun _ => And.left
    have hv₁ : v1.s.Sound ∧ v1.s.mapTxLockCandidates = v.s.mapTxLockCandidates := by
      rcases voteFor_cases hr with rfl | ⟨vote, rfl, rfl, -, rfl⟩
      · exact ⟨hs, rfl⟩
      · exact ⟨hs.addOwnVote (hl vote.outpoint (by simp)), by simp⟩
    rw [voteLoop, hr, ok_bind]
    cases goOn with
    | false => exact ⟨v1, rfl, hv₁.1⟩
    | true =>
      refine ih hv₁.1 fun o' ho' => ?_
      rw [HasLock, hv₁.2]
      exact hl o' (by simp [ho'])

variable (p ctx txHash) in
lemma Sound.vote [ChainHash] (hs : s.Sound) :
    ∃ s' relayed, s.vote p ctx txHash = .ok (s', relayed) ∧ s'.Sound := by
  have hn : ∀ c, s.mapTxLockCandidates[txHash]? = some c →
      ∃ v, s.voteCandidate p ctx c = .ok v ∧ v.s.Sound := by
    intro c hc
    unfold voteCandidate
    split_ifs
    · exact ⟨_, rfl, hs⟩
    · exact ⟨_, rfl, hs⟩
    · refine Sound.voteLoop hs fun o ho => ?_
      have hl := ExtTreeMap.mem_keys.1 ho
      exact ⟨c, by rw [hs.keyed txHash c hc o hl]; exact hc, hl⟩
  unfold DirectSend.vote
  split
  · exact ⟨s, [], rfl, hs⟩
  · rename_i c hc
    obtain ⟨v, hv, hsn⟩ := hn c hc
    rw [hv, ok_bind]
    exact ⟨_, _, rfl, hsn.tryToFinalizeLockCandidate v.c⟩

/-- In the loop: candidates stay, the outpoints to come are voted as before, and relayed votes are
for outpoints in which the masternode was found nowhere. -/
structure Voting.Fresh (s : DirectSend) (ctx : VoteContext) (txHash : Uint256)
    (all os : List OutPoint) (v : Voting) : Prop where
  candidates : v.s.mapTxLockCandidates = s.mapTxLockCandidates
  voted : ∀ o ∈ os, v.s.mapVotedOutpoints[o]? = s.mapVotedOutpoints[o]?
  relayed : ∀ w ∈ v.relayed, w.txHash = txHash ∧ w.outpoint ∈ all ∧
    ∀ hash, s.Voted w.outpoint hash → ∃ c, s.mapTxLockCandidates[hash]? = some c ∧
      c.hasMasternodeVoted w.outpoint ctx.outpoint = false

lemma Voting.Fresh.voteFor {all os : List OutPoint} {b : Bool}
    (hv : v.Fresh s ctx txHash all (o :: os)) (ho : o ∈ all) (hn : o ∉ os)
    (h : voteFor p ctx txHash v o = .ok (b, v')) : v'.Fresh s ctx txHash all os := by
  rcases voteFor_cases h with rfl | ⟨vote, rfl, rfl, ht, rfl⟩
  · exact ⟨hv.candidates, fun o' ho' => hv.voted o' (by simp [ho']), hv.relayed⟩
  · have hf : ∀ hash, s.Voted vote.outpoint hash → ∃ c, s.mapTxLockCandidates[hash]? = some c ∧
          c.hasMasternodeVoted vote.outpoint ctx.outpoint = false := by
      intro hash hm
      rw [← hv.candidates]
      refine alreadyVoted_false ht hash (ExtTreeSet.mem_toList.2 ?_)
      rwa [hv.voted vote.outpoint (by simp)]
    refine ⟨by simp [hv.candidates], fun o' ho' => ?_, fun w hw => ?_⟩
    · rw [← hv.voted o' (by simp [ho'])]
      have hne : o' ≠ vote.outpoint := fun he => hn (he ▸ ho')
      unfold Voting.addVote
      simp only
      split_ifs
      · rw [Maps.getElem?_insert, if_neg hne]
      · rfl
    · unfold Voting.addVote at hw
      simp only at hw
      split_ifs at hw
      · rcases mem_append.1 hw with hw | hw
        · exact hv.relayed w hw
        · obtain rfl := mem_singleton.1 hw
          exact ⟨rfl, ho, hf⟩
      · exact hv.relayed w hw

lemma Voting.Fresh.voteLoop {all os : List OutPoint} (hv : v.Fresh s ctx txHash all os)
    (ha : ∀ o ∈ os, o ∈ all) (hn : os.Nodup)
    (h : voteLoop p ctx txHash os v = .ok v') : v'.Fresh s ctx txHash all [] := by
  induction os generalizing v with
  | nil =>
    cases h
    exact hv
  | cons o os ih =>
    obtain ⟨hw, hn⟩ := nodup_cons.1 hn
    obtain ⟨⟨goOn, v1⟩, hr, h⟩ := bind_ok.1 h
    have hv₁ := hv.voteFor (ha o (by simp)) hw hr
    cases goOn with
    | false =>
      cases h
      exact ⟨hv₁.candidates, fun _ ho => absurd ho not_mem_nil, hv₁.relayed⟩
    | true => exact ih hv₁ (fun o' ho' => ha o' (by simp [ho'])) hn h

lemma vote_relayed [ChainHash] {s' : DirectSend} {relayed : List TxLockVote}
    (h : s.vote p ctx txHash = .ok (s', relayed)) {w : TxLockVote} (hw : w ∈ relayed) :
    ∃ c, s.mapTxLockCandidates[txHash]? = some c ∧ w.txHash = c.getHash ∧
      w.outpoint ∈ c.mapOutPointLocks ∧
      ∀ hash, s.Voted w.outpoint hash → ∃ c', s.mapTxLockCandidates[hash]? = some c' ∧
        c'.hasMasternodeVoted w.outpoint ctx.outpoint = false := by
  unfold vote at h
  split at h
  · cases h
    exact absurd hw not_mem_nil
  · rename_i c hc
    obtain ⟨v, hv, h⟩ := bind_ok.1 h
    cases h
    refine ⟨c, hc, ?_⟩
    unfold voteCandidate at hv
    split_ifs at hv
    · cases hv
      exact absurd hw not_mem_nil
    · cases hv
      exact absurd hw not_mem_nil
    · have hs : Voting.Fresh s ctx c.getHash c.mapOutPointLocks.keys c.mapOutPointLocks.keys
          { s, c } := ⟨rfl, fun _ _ => rfl, fun w hw => absurd hw not_mem_nil⟩
      have he := hs.voteLoop (fun _ ho => ho) ExtTreeMap.nodup_keys hv
      obtain ⟨hh, ho, hf⟩ := he.relayed w hw
      exact ⟨hh, ExtTreeMap.mem_keys.1 ho, hf⟩

end Vote

inductive VoteEvent where
  | request (tx : Transaction)
  | accept (tx : Transaction)
  | reject (tx : Transaction)
  | vote (txHash : Uint256)
  | message (vote : TxLockVote)
  | sync (tx : Transaction) (nHeight : Option Int)
  | tip (nHeight : Int)
  | maintain
  | clear

def handle [ChainHash] (p : VoteParams) (s : DirectSend) (ctx : VoteContext) :
    VoteEvent → Run (DirectSend × List TxLockVote)
  | .request tx => .ok ((s.processTxLockRequest p ctx tx).2, [])
  | .accept tx => .ok (s.acceptLockRequest tx, [])
  | .reject tx => .ok (s.rejectLockRequest tx, [])
  | .vote txHash => s.vote p ctx txHash
  | .message vote => .ok (s.processMessage p ctx vote, [])
  | .sync tx nHeight => .ok (s.syncTransaction p ctx tx nHeight, [])
  | .tip nHeight => .ok (s.updatedBlockTip nHeight, [])
  | .maintain => .ok (s.checkAndRemove p ctx, [])
  | .clear => .ok (clear, [])

/-- Votes are for inputs: the votes that are processed now for transactions that are known. -/
def VotesForInputs [ChainHash] (s : DirectSend) : VoteEvent → Prop
  | .request tx => s.OrphansForInputs tx
  | .message vote => s.ForInputs vote
  | _ => True

section Step
variable [ChainHash] {p : VoteParams} {ctx : VoteContext} {s : DirectSend}

lemma sound_empty : ({} : DirectSend).Sound :=
  ⟨fun o hash h => by simp [Voted] at h, fun hash c hc => by simp at hc⟩

lemma Sound.syncTransaction (hs : s.Sound) (tx : Transaction) (nHeight : Option Int) :
    (s.syncTransaction p ctx tx nHeight).Sound := by
  have hc : ∀ (s : DirectSend) (hash : Uint256) (n : Int), s.Sound →
      (s.confirmVote ctx hash n).Sound := fun s hash n hs => hs.of_shaped (.of_eq rfl) rfl
  have hn : (s.confirmCandidate p ctx tx.getHash (nHeight.getD (-1))).Sound := by
    unfold confirmCandidate
    split
    · exact hs
    · refine List.foldlRecOn (motive := Sound) _ _ ?_ fun s' hs' e _ => ?_
      · exact hs.of_shaped (shaped_modifyCandidate _ fun c => ⟨rfl, fun _ => Iff.rfl⟩) (by simp)
      · split_ifs
        · exact hc s' _ _ hs'
        · exact hs'
  unfold DirectSend.syncTransaction
  split_ifs
  · exact hs
  · unfold confirmOrphans
    refine List.foldlRecOn (motive := Sound) _ _ hn fun s' hs' e _ => ?_
    split_ifs
    · exact hc s' _ _ hs'
    · exact hs'

lemma Sound.processMessage (hs : s.Sound) {vote : TxLockVote} (hv : s.ForInputs vote) :
    (s.processMessage p ctx vote).Sound := by
  unfold DirectSend.processMessage
  simp only
  split_ifs
  · exact hs
  · exact hs
  · refine Sound.processNewTxLockVote (hs.of_shaped (.of_eq rfl) rfl) ?_
    exact hv

variable (p ctx) in
lemma Sound.handle (hs : s.Sound) {e : VoteEvent} (he : s.VotesForInputs e) :
    ∃ s' relayed, s.handle p ctx e = .ok (s', relayed) ∧ s'.Sound := by
  cases e with
  | request tx => exact ⟨_, _, rfl, hs.processTxLockRequest he⟩
  | accept tx => exact ⟨_, _, rfl, hs.of_shaped (.of_eq rfl) rfl⟩
  | reject tx => exact ⟨_, _, rfl, hs.of_shaped (.of_eq rfl) rfl⟩
  | vote txHash => exact hs.vote p ctx txHash
  | message vote => exact ⟨_, _, rfl, hs.processMessage he⟩
  | sync tx nHeight => exact ⟨_, _, rfl, hs.syncTransaction tx nHeight⟩
  | tip nHeight => exact ⟨_, _, rfl, hs.of_shaped (.of_eq rfl) rfl⟩
  | maintain => exact ⟨_, _, rfl, hs.checkAndRemove p ctx⟩
  | clear => exact ⟨_, _, rfl, sound_empty⟩

end Step
end DirectSend

structure VoteNode where
  s : DirectSend := {}
  own : List TxLockVote := []

namespace VoteNode

/-- Before each step the votes whose candidates are gone are dropped from the log. -/
def handle [ChainHash] (p : VoteParams) (n : VoteNode) (e : VoteContext × DirectSend.VoteEvent) :
    Run VoteNode := do
  let (s, relayed) ← n.s.handle p e.1 e.2
  .ok { s, own := n.own.filter (fun v => v.txHash ∈ n.s.mapTxLockCandidates) ++ relayed }

/-- If at every step the processed votes are for inputs of their transactions, the node never stops,
and every voted transaction has its candidate. -/
theorem sound_of_run [ChainHash] (p : VoteParams)
    (events : List (VoteContext × DirectSend.VoteEvent))
    (hinputs : Run.Guarded (handle p) (fun n e => n.s.VotesForInputs e.2) {} events) :
    ∃ n, events.foldlM (handle p) {} = .ok n ∧
      ∀ o hash, n.s.Voted o hash → hash ∈ n.s.mapTxLockCandidates := by
  have hr := hinputs.progress (S := fun _ _ => False) (fun n : VoteNode => n.s.Sound)
    (fun n e hn he => by
      obtain ⟨s', relayed, ht, hs'⟩ := hn.handle p e.1 he
      have ho : handle p n e = .ok ⟨s', n.own.filter
          (fun v => v.txHash ∈ n.s.mapTxLockCandidates) ++ relayed⟩ := by
        rw [handle, ht]
        rfl
      exact .inl ⟨_, ho, hs'⟩) sound_empty
  rcases hr with ⟨n, hn, hs⟩ | ⟨pre, e, post, n, -, -, -, hf⟩
  · refine ⟨n, hn, fun o hash h => ?_⟩
    obtain ⟨c, hc, -⟩ := hs.voted o hash h
    rw [ExtTreeMap.mem_iff_isSome_getElem?, hc]
    rfl
  · exact hf.elim

namespace Foreign

/-- The transaction has one input, and `(10, 0)` is another coin. -/
def tx1 : Transaction := ⟨2, .normal, [⟨9, 0⟩], [⟨1, .pubKeyHash 1⟩], 0⟩

def tx2 : Transaction := ⟨2, .normal, [⟨10, 0⟩], [⟨1, .pubKeyHash 1⟩], 0⟩

def params : VoteParams where
  voteHash txHash o mn _ _ := 100 * txHash + 10 * o.hash + mn.hash
  nDirectSendConfirmationsRequired := 2
  nDirectSendSigsRequired := 6
  nDirectSendSigsTotal := 10
  nDirectSendKeepLock := 24

def ctx : VoteContext where
  now := 0
  outpoint := ⟨1, 0⟩
  proTxHash := 1
  getUTXOHeight _ := some 1
  getMasternodeRank _ _ := some (1, 7)
  sign _ := some []
  isValidVote _ := true
  isValidRequest _ := true
  mempoolSpender _ := none
  isInBlock _ := false

def voteOf (txHash : Uint256) (o : OutPoint) : TxLockVote :=
  { txHash, outpoint := o, outpointMasternode := ⟨2, 0⟩, quorumModifierHash := 7
    masternodeProTxHash := 2, nTimeCreated := 0 }

/-- The first transaction is voted for the coin of the second one, is mined and expires. -/
def events : List (VoteContext × DirectSend.VoteEvent) :=
  [(ctx, .request tx1), (ctx, .message (voteOf 1 ⟨10, 0⟩)), (ctx, .sync tx1 (some 5)),
    (ctx, .tip 30), (ctx, .maintain)]

def eventsVote : List (VoteContext × DirectSend.VoteEvent) :=
  [(ctx, .request tx2), (ctx, .accept tx2), (ctx, .vote 2)]

local instance : ChainHash := tableHash [tx1, tx2] []

/-- The first transaction is still voted for the coin, without a candidate, which a vote for the
second one looks for. -/
theorem foreign_vote_left_behind :
    (∃ n, events.foldlM (handle params) {} = .ok n ∧ n.s.Voted ⟨10, 0⟩ 1 ∧
      1 ∉ n.s.mapTxLockCandidates) ∧
    (events ++ eventsVote).foldlM (handle params) {} = .error (.fault .undefined) := by
  refine ⟨?_, by decide +kernel⟩
  obtain ⟨n, hn, h⟩ := exists_of_map_toOption (b := (true, false))
    (f := fun n : VoteNode => (decide (1 ∈ n.s.mapVotedOutpoints[(⟨10, 0⟩ : OutPoint)]?.getD ∅),
      decide (1 ∈ n.s.mapTxLockCandidates)))
    (show (events.foldlM (handle params) {}).toOption.map _ = _ by decide +kernel)
  simp only [Prod.mk.injEq, decide_eq_true_eq, decide_eq_false_iff_not] at h
  exact ⟨n, hn, h.1, h.2⟩

theorem sound_of_vote_for_input :
    ∃ n, ([(ctx, .request tx1)] ++ [(ctx, .message (voteOf 1 ⟨9, 0⟩))] ++ [(ctx, .accept tx1)] ++
        [(ctx, .vote 1)] : List (VoteContext × DirectSend.VoteEvent)).foldlM (handle params) {} =
          .ok n ∧ ∀ o hash, n.s.Voted o hash → hash ∈ n.s.mapTxLockCandidates := by
  refine sound_of_run params _ (.concat (.concat (.concat (.concat (l := []) (by simp [Run.Guarded])
    ?_) ?_) fun _ _ => trivial) fun _ _ => trivial)
  · intro n hn hash vote hv
    cases hn
    simp at hv
  · intro n hn c hc _
    obtain ⟨n', hn', hl⟩ := exists_of_map_toOption (b := true)
      (f := fun n : VoteNode => (n.s.mapTxLockCandidates[1]?).all fun c : TxLockCandidate =>
        decide ((⟨9, 0⟩ : OutPoint) ∈ c.mapOutPointLocks))
      (show (List.foldlM (handle params) {} [(ctx, .request tx1)]).toOption.map _ = _ by
        decide +kernel)
    obtain rfl := Except.ok.inj (hn.symm.trans hn')
    rw [show n.s.mapTxLockCandidates[1]? = some c from hc] at hl
    exact of_decide_eq_true hl

end Foreign

/-- The own votes that are out are for different outpoints, unless they are for one
transaction. -/
def VotesOnce (n : VoteNode) : Prop :=
  ∀ v ∈ n.own, ∀ w ∈ n.own, v.outpoint = w.outpoint → v.txHash = w.txHash

/-- When the node votes for a transaction, its own votes for the same outpoints in other
transactions are found: the outpoint is known as voted, and the stored candidate has the vote. -/
def Recorded [ChainHash] (n : VoteNode) (e : VoteContext × DirectSend.VoteEvent) : Prop :=
  ∀ txHash, e.2 = .vote txHash → ∀ c, n.s.mapTxLockCandidates[txHash]? = some c →
    ∀ v ∈ n.own, v.txHash ∈ n.s.mapTxLockCandidates → v.outpoint ∈ c.mapOutPointLocks →
      v.txHash ≠ c.getHash → n.s.Voted v.outpoint v.txHash ∧
        ∀ c', n.s.mapTxLockCandidates[v.txHash]? = some c' →
          c'.hasMasternodeVoted v.outpoint e.1.outpoint = true

section Once
variable [ChainHash] {p : VoteParams} {n n' : VoteNode} {e : VoteContext × DirectSend.VoteEvent}

lemma VotesOnce.handle (hn : n.VotesOnce) (he : n.Recorded e) (h : handle p n e = .ok n') :
    n'.VotesOnce := by
  obtain ⟨⟨s', relayed⟩, hs, h⟩ := bind_ok.1 h
  cases h
  -- a relayed vote against any vote that is out
  have hr : ∀ w ∈ relayed, ∀ v ∈ n.own.filter
      (fun v => v.txHash ∈ n.s.mapTxLockCandidates) ++ relayed,
        v.outpoint = w.outpoint → v.txHash = w.txHash := by
    intro w hw v hv hq
    obtain ⟨ctx, ev⟩ := e
    cases ev with
    | vote txHash =>
      obtain ⟨c, hc, hh, hl, hfr⟩ := vote_relayed hs hw
      rcases mem_append.1 hv with hv | hv
      · obtain ⟨hm, hst⟩ := mem_filter.1 hv
        by_contra hne
        obtain ⟨hvt, hf⟩ := he txHash rfl c hc v hm (by simpa using hst)
          (hq ▸ hl) (hh ▸ hne)
        rw [hq] at hvt hf
        obtain ⟨c', hc', ht⟩ := hfr v.txHash hvt
        rw [hf c' hc'] at ht
        cases ht
      · obtain ⟨c', hc', hh', -, -⟩ := vote_relayed hs hv
        rw [hc] at hc'
        cases hc'
        exact hh'.trans hh.symm
    | request | accept | reject | message | sync | tip | maintain | clear =>
      cases hs
      exact absurd hw not_mem_nil
  intro v hv w hw hq
  rcases mem_append.1 hw with hw' | hw'
  · rcases mem_append.1 hv with hv' | hv'
    · exact hn v (mem_filter.1 hv').1 w (mem_filter.1 hw').1 hq
    · exact (hr v hv' w hw hq.symm).symm
  · exact hr w hw' v hv hq

/-- If the own votes that are out are found at every step, no outpoint gets votes of the node for
two transactions. -/
theorem votes_once_of_run (p : VoteParams) (events : List (VoteContext × DirectSend.VoteEvent))
    (hrecorded : Run.Guarded (VoteNode.handle p) Recorded {} events)
    (h : events.foldlM (VoteNode.handle p) {} = .ok n) : n.VotesOnce :=
  hrecorded.invariant VotesOnce (fun _ _ _ hn he hstep => hn.handle he hstep)
    (fun _ hv => absurd hv List.not_mem_nil) h

end Once

namespace Twice
open Foreign (tx1 tx2 params ctx)

def tx3 : Transaction := ⟨2, .normal, [⟨9, 0⟩], [⟨1, .pubKeyHash 2⟩], 0⟩

local instance : ChainHash := tableHash [tx1, tx2, tx3] []

def requestAndVote (tx : Transaction) (txHash : Uint256) :
    List (VoteContext × DirectSend.VoteEvent) :=
  [(ctx, .request tx)] ++ [(ctx, .accept tx)] ++ [(ctx, .vote txHash)]

/-- The first vote is not in its stored candidate, so the node votes for the same coin in the other
transaction. -/
theorem votes_twice : ∃ n,
    (requestAndVote tx1 1 ++ requestAndVote tx3 3).foldlM (handle params) {} = .ok n ∧
      ¬ n.VotesOnce := by
  obtain ⟨n, hn, ho⟩ := exists_of_map_toOption
    (b := [((1 : Uint256), (⟨9, 0⟩ : OutPoint)), (3, ⟨9, 0⟩)])
    (f := fun n : VoteNode => n.own.map fun v => (v.txHash, v.outpoint))
    (show (List.foldlM (handle params) {}
      (requestAndVote tx1 1 ++ requestAndVote tx3 3)).toOption.map _ = _ by decide +kernel)
  refine ⟨n, hn, fun h => ?_⟩
  obtain ⟨v, hv, hv1⟩ := List.mem_map.1
    (show ((1 : Uint256), (⟨9, 0⟩ : OutPoint)) ∈ n.own.map fun v => (v.txHash, v.outpoint) by
      simp [ho])
  obtain ⟨w, hw, hw3⟩ := List.mem_map.1
    (show ((3 : Uint256), (⟨9, 0⟩ : OutPoint)) ∈ n.own.map fun v => (v.txHash, v.outpoint) by
      simp [ho])
  have he := h v hv w hw ((Prod.mk.inj hv1).2.trans (Prod.mk.inj hw3).2.symm)
  rw [(Prod.mk.inj hv1).1, (Prod.mk.inj hw3).1] at he
  exact absurd he (by decide)

def eventsTwo : List (VoteContext × DirectSend.VoteEvent) :=
  requestAndVote tx1 1 ++ [(ctx, .request tx2)] ++ [(ctx, .accept tx2)]

def voteTwo : VoteContext × DirectSend.VoteEvent := (ctx, .vote 2)

theorem votes_once_of_two : ∃ n, (eventsTwo ++ [voteTwo]).foldlM (handle params) {} = .ok n ∧
    n.own.length = 2 ∧ n.VotesOnce := by
  obtain ⟨n, hn, hln⟩ := exists_of_map_toOption (b := 2) (f := fun n : VoteNode => n.own.length)
    (show ((eventsTwo ++ [voteTwo]).foldlM (handle params) {}).toOption.map _ = _ by
      decide +kernel)
  refine ⟨n, hn, hln, votes_once_of_run params _ (.concat (.concat (.concat
    (.concat (.concat (.concat (l := []) (by simp [Run.Guarded]) ?_) ?_) ?_) ?_) ?_) ?_) hn⟩
  · exact fun _ _ _ h => by cases h
  · exact fun _ _ _ h => by cases h
  · -- nothing is out when the node votes for the first time
    intro n hn txHash _ c hc v hv
    obtain ⟨n', hn', ho⟩ := exists_of_map_toOption (b := 0)
      (f := fun n : VoteNode => n.own.length)
      (show (List.foldlM (handle params) {} [(ctx, .request tx1), (ctx, .accept tx1)]).toOption.map
        _ = _ by decide +kernel)
    obtain rfl := Except.ok.inj (hn.symm.trans hn')
    rw [List.length_eq_zero_iff.1 ho] at hv
    exact absurd hv List.not_mem_nil
  · exact fun _ _ _ h => by cases h
  · exact fun _ _ _ h => by cases h
  · rintro n hn txHash ⟨⟩ c hc v hv _ hl
    obtain ⟨n', hn', hb⟩ := exists_of_map_toOption (b := ([(⟨9, 0⟩ : OutPoint)], some false))
      (f := fun n : VoteNode => (n.own.map TxLockVote.outpoint,
        n.s.mapTxLockCandidates[2]?.map fun c : TxLockCandidate =>
          decide ((⟨9, 0⟩ : OutPoint) ∈ c.mapOutPointLocks)))
      (show (List.foldlM (handle params) {} eventsTwo).toOption.map _ = _ by decide +kernel)
    obtain rfl := Except.ok.inj (hn.symm.trans hn')
    obtain ⟨ho, hnn⟩ := Prod.mk.inj hb
    have hv9 : v.outpoint ∈ [(⟨9, 0⟩ : OutPoint)] := ho ▸ List.mem_map_of_mem hv
    rw [List.mem_singleton.1 hv9] at hl
    rw [show n.s.mapTxLockCandidates[2]? = some c from hc] at hnn
    exact absurd hl (by simpa using hnn)

end Twice
end VoteNode
end Trivechain.InstantX
