import Trivechain.Lib.LastWriter
import Trivechain.Spork.Process

/-!
# The order of sporks

A node keeps one spork for each id and signer, the one with the latest time. So the order of arrival
matters only where a signer has signed several sporks for the same id and time: the first one stays.
With more than half of the keys needed for a value, it does not matter in which order the kept
sporks are counted.
-/

namespace Trivechain.Spork
open Std (ExtTreeMap)
open LastWriter (keep Latest)
open List SignedSpork SporkNode LastWriter

section Counting
variable {nMinSporkKeys v : Int} {mapValueCounts : Int → Int} {values pre : List Int}

section
variable (h : ∀ w, mapValueCounts w = pre.count w)
include h

lemma counts_update (v w : Int) :
    Function.update mapValueCounts v (mapValueCounts v + 1) w = (pre ++ [v]).count w := by
  rw [count_append, count_singleton, Function.update_apply]
  by_cases hw : w = v
  · simp [hw, h]
  · simp [hw, Ne.symm hw, h]

lemma le_count_of_valueLoop (hs : valueLoop nMinSporkKeys mapValueCounts values = some v) :
    nMinSporkKeys ≤ (pre ++ values).count v := by
  induction values generalizing mapValueCounts pre with
  | nil => cases hs
  | cons x values ih =>
    rw [valueLoop, counts_update h] at hs
    split_ifs at hs with hx
    · obtain rfl := Option.some.inj hs
      have : (pre ++ [x]).count x ≤ (pre ++ x :: values).count x := by
        rw [append_cons pre x values]
        exact (sublist_append_left _ _).count_le x
      omega
    · rw [append_cons]
      exact ih (counts_update h x) hs

lemma valueLoop_isSome (hb : ∀ w, (pre.count w : Int) < nMinSporkKeys)
    (hv : nMinSporkKeys ≤ (pre ++ values).count v) :
    (valueLoop nMinSporkKeys mapValueCounts values).isSome := by
  induction values generalizing mapValueCounts pre with
  | nil =>
    rw [append_nil] at hv
    exact absurd (hb v) (not_lt.2 hv)
  | cons x values ih =>
    rw [valueLoop, counts_update h]
    split_ifs with hx
    · rfl
    · refine ih (counts_update h x) (fun w => ?_) (by rwa [← append_cons])
      by_cases hw : w = x
      · rw [hw]
        exact not_le.1 hx
      · rw [count_append, count_singleton, if_neg (by simpa using Ne.symm hw), add_zero]
        exact hb w

end

lemma count_add_count_le {w : Int} (hn : w ≠ v) (l : List Int) :
    l.count w + l.count v ≤ l.length := by
  induction l with
  | nil => rfl
  | cons x l ih =>
    simp only [count_cons, length_cons, beq_iff_eq]
    split_ifs <;> omega

lemma valueLoop_eq_some (hm : (values.length : Int) < 2 * nMinSporkKeys) :
    valueLoop nMinSporkKeys (fun _ => 0) values = some v ↔ nMinSporkKeys ≤ values.count v := by
  have hz : ∀ w : Int, (fun _ => 0 : Int → Int) w = ([] : List Int).count w := fun w => rfl
  refine ⟨le_count_of_valueLoop hz, fun hv => ?_⟩
  obtain ⟨w, hw⟩ := Option.isSome_iff_exists.1 (valueLoop_isSome hz (fun w => by simp; omega) hv)
  have hc := le_count_of_valueLoop hz hw
  rw [hw]
  by_contra hn
  have hn : w ≠ v := fun h => hn (by rw [h])
  have := count_add_count_le hn values
  simp only [nil_append] at hc
  omega

end Counting

/-! ## What is kept -/

section Orders
variable (env : SignatureEnv)

/-- The key has signed the spork, and no other authorised key has. -/
structure SignedSpork.ValidlySigned (spork : SignedSpork) (keys : List KeyID) (key : KeyID) :
    Prop where
  authorised : key ∈ keys
  signed : ∃ six, spork.getSignerKeyID env six = some key
  only : ∀ six k, spork.getSignerKeyID env six = some k → k ∈ keys → k = key

structure Arrival where
  ctx : SporkContext
  spork : SignedSpork
  fLiteMode : ctx.fLiteMode = false
  hasTip : ctx.hasTip = true
  timely : spork.content.nTimeSigned ≤ ctx.adjustedTime + 2 * 60 * 60

def SporkNode.receiveAll (s : SporkNode) (arrivals : List Arrival) : SporkNode :=
  arrivals.foldl (fun s a => s.processSpork env a.ctx a.spork) s

def IsOrder (arrivals : List Arrival) (sporks : List SignedSpork) : Prop :=
  (arrivals.map Arrival.spork).Perm sporks

def SignedSpork.time (spork : SignedSpork) : Int := spork.content.nTimeSigned

variable {env} {s : SporkNode} {spork : SignedSpork} {key : KeyID}

namespace SporkNode

lemma accept_keys : (s.accept env key spork).setSporkPubKeyIDs = s.setSporkPubKeyIDs := by
  rcases @accept_cases env s spork key with h | h <;> rw [h]
  rfl

lemma stored_accept (id : Int) (k : KeyID) : (s.accept env key spork).stored id k =
      if id = spork.content.nSporkID ∧ k = key then keep time (s.stored id k) spork
      else s.stored id k := by
  rw [accept]
  by_cases hh : id = spork.content.nSporkID ∧ k = key
  · rw [if_pos hh, hh.1, hh.2]
    cases hold : s.stored spork.content.nSporkID key with
    | none => exact (stored_store _ _).trans (if_pos ⟨rfl, rfl⟩)
    | some old =>
      by_cases ht : spork.content.nTimeSigned ≤ old.content.nTimeSigned
      · rw [keep_of_le (show spork.time ≤ old.time from ht)]
        dsimp only
        rw [if_pos ht, hold]
      · have hn : ∀ a, some old = some a → a.time < spork.time := by
          rintro a ⟨⟩
          exact not_le.1 ht
        rw [keep_of_newer hn]
        dsimp only
        rw [if_neg ht]
        exact (stored_store _ _).trans (if_pos ⟨rfl, rfl⟩)
  · rw [if_neg hh]
    split
    · split_ifs
      · rfl
      · rw [stored_store, if_neg hh]
    · rw [stored_store, if_neg hh]

lemma isSome_accept (id : Int) : (s.accept env key spork).mapSporksActive[id]?.isSome ↔
    s.mapSporksActive[id]?.isSome ∨ id = spork.content.nSporkID := by
  have hs : (s.store env key spork).mapSporksActive[id]?.isSome ↔
      s.mapSporksActive[id]?.isSome ∨ id = spork.content.nSporkID := by
    rw [store, Maps.getElem?_insert]
    split_ifs with hi <;> simp [hi]
  rw [accept]
  split
  case _ old hold =>
    split_ifs
    · have : s.mapSporksActive[spork.content.nSporkID]?.isSome := by
        obtain ⟨signers, hg, -⟩ := Option.bind_eq_some_iff.1 hold
        rw [hg]
        rfl
      constructor
      · exact .inl
      · rintro (h | rfl)
        · exact h
        · exact this
    · exact hs
  case _ => exact hs

lemma mapSporksActive_eq {s' : SporkNode}
    (hi : ∀ id : Int, s.mapSporksActive[id]?.isSome ↔ s'.mapSporksActive[id]?.isSome)
    (hs : ∀ id k, s.stored id k = s'.stored id k) : s.mapSporksActive = s'.mapSporksActive := by
  refine ExtTreeMap.ext_getElem? fun id => ?_
  have hi := hi id
  have hs := hs id
  simp only [stored] at hs
  cases h : s.mapSporksActive[id]? with
  | none => cases h' : s'.mapSporksActive[id]? with
    | none => rfl
    | some signers' => simp [h, h'] at hi
  | some signers => cases h' : s'.mapSporksActive[id]? with
    | none => simp [h, h'] at hi
    | some signers' =>
      rw [h, h'] at hs
      exact congrArg some (ExtTreeMap.ext_getElem? hs)

lemma receiveAll_eq {signer : SignedSpork → KeyID} {arrivals : List Arrival}
    (hvalid : ∀ a ∈ arrivals, a.spork.ValidlySigned env s.setSporkPubKeyIDs (signer a.spork)) :
    s.receiveAll env arrivals =
      (arrivals.map Arrival.spork).foldl (fun s m => s.accept env (signer m) m) s := by
  induction arrivals generalizing s with
  | nil => rfl
  | cons a arrivals ih =>
    have ha := hvalid a mem_cons_self
    have hm : ∃ six, s.signer env a.spork six = some (signer a.spork) :=
      ha.signed.imp fun six h => signer_eq_some.2 ⟨h, ha.authorised⟩
    have ho : ∀ six k, s.signer env a.spork six = some k → k = signer a.spork := by
      intro six k hk
      obtain ⟨hs, hy⟩ := signer_eq_some.1 hk
      exact ha.only six k hs hy
    have hr := fun b hb => hvalid b (mem_cons_of_mem a hb)
    rw [← @accept_keys env s a.spork (signer a.spork)] at hr
    rw [receiveAll, foldl_cons, processSpork_eq_accept a.fLiteMode a.hasTip a.timely hm ho,
      map_cons, foldl_cons, ← ih hr]
    rfl

lemma stored_foldl_accept (signer : SignedSpork → KeyID) (sporks : List SignedSpork) (id : Int)
    (k : KeyID) : (sporks.foldl (fun s m => s.accept env (signer m) m) s).stored id k =
      (sporks.filter fun m => id = m.content.nSporkID ∧ k = signer m).foldl
        (keep time) (s.stored id k) := by
  induction sporks generalizing s with
  | nil => rfl
  | cons m sporks ih =>
    rw [foldl_cons, ih, stored_accept, filter_cons]
    split_ifs <;> simp_all

lemma isSome_foldl_accept (signer : SignedSpork → KeyID) (sporks : List SignedSpork) (id : Int) :
    (sporks.foldl (fun s m => s.accept env (signer m) m) s).mapSporksActive[id]?.isSome ↔
      s.mapSporksActive[id]?.isSome ∨ ∃ m ∈ sporks, id = m.content.nSporkID := by
  induction sporks generalizing s with
  | nil => simp
  | cons m sporks ih =>
    rw [foldl_cons, ih, isSome_accept]
    simp [or_assoc]

lemma foldl_accept_frame (signer : SignedSpork → KeyID) (sporks : List SignedSpork) :
    (sporks.foldl (fun s m => s.accept env (signer m) m) s).setSporkPubKeyIDs =
        s.setSporkPubKeyIDs ∧
      (sporks.foldl (fun s m => s.accept env (signer m) m) s).nMinSporkKeys = s.nMinSporkKeys := by
  induction sporks generalizing s with
  | nil => exact ⟨rfl, rfl⟩
  | cons m sporks ih =>
    rw [foldl_cons]
    refine ⟨ih.1.trans accept_keys, ih.2.trans ?_⟩
    rcases @accept_cases env s m (signer m) with h | h <;> rw [h]
    rfl

def register (signer : SignedSpork → KeyID) (sporks : List SignedSpork) (id : Int) (k : KeyID) :
    List SignedSpork :=
  sporks.filter fun m => id = m.content.nSporkID ∧ k = signer m

/-- Of the sporks of a signer for an id, at most one is the latest, if any is newer than what the
node has. -/
def OneLatest (s : SporkNode) (signer : SignedSpork → KeyID) (sporks : List SignedSpork) : Prop :=
  ∀ id k m m', Latest time (s.stored id k) (register signer sporks id k) m →
    Latest time (s.stored id k) (register signer sporks id k) m' → m = m'

def arrival (m : SignedSpork) : Arrival :=
  ⟨⟨false, true, m.content.nTimeSigned⟩, m, rfl, rfl, by dsimp only; omega⟩

variable {signer : SignedSpork → KeyID} {sporks : List SignedSpork}

section Valid
variable (hvalid : ∀ m ∈ sporks, m.ValidlySigned env s.setSporkPubKeyIDs (signer m))
include hvalid

variable {arrivals : List Arrival}

lemma receiveAll_order (ho : IsOrder arrivals sporks) : s.receiveAll env arrivals =
      (arrivals.map Arrival.spork).foldl (fun s m => s.accept env (signer m) m) s :=
  receiveAll_eq fun a ha => hvalid a.spork (ho.mem_iff.1 (mem_map_of_mem ha))

lemma stored_receiveAll (ho : IsOrder arrivals sporks) (id : Int) (k : KeyID) :
    (s.receiveAll env arrivals).stored id k =
      (register signer (arrivals.map Arrival.spork) id k).foldl (keep time) (s.stored id k) := by
  rw [receiveAll_order hvalid ho, stored_foldl_accept]
  rfl

lemma exists_order_of_latest {id : Int} {k : KeyID} {m : SignedSpork}
    (hm : Latest time (s.stored id k) (register signer sporks id k) m) :
    ∃ arrivals, IsOrder arrivals sporks ∧ (s.receiveAll env arrivals).stored id k = some m := by
  have hi := mem_filter.1 hm.1
  have hp : ((m :: sporks.erase m).map arrival).map Arrival.spork = m :: sporks.erase m := by
    rw [map_map]
    exact map_id _
  have ho : IsOrder ((m :: sporks.erase m).map arrival) sporks := by
    rw [IsOrder, hp]
    exact (perm_cons_erase hi.1).symm
  refine ⟨_, ho, ?_⟩
  rw [stored_receiveAll hvalid ho, hp, register, filter_cons, if_pos hi.2]
  refine foldl_keep_cons hm fun x hx => ?_
  obtain ⟨hx, hr⟩ := mem_filter.1 hx
  exact mem_filter.2 ⟨mem_of_mem_erase hx, hr⟩

lemma mapSporksActive_eq_of_oneLatest (ho : s.OneLatest signer sporks) {l1 l2 : List Arrival}
    (h1 : IsOrder l1 sporks) (h2 : IsOrder l2 sporks) :
    (s.receiveAll env l1).mapSporksActive = (s.receiveAll env l2).mapSporksActive := by
  have hp : (l1.map Arrival.spork).Perm (l2.map Arrival.spork) := List.Perm.trans h1 h2.symm
  refine mapSporksActive_eq (fun id => ?_) fun id k => ?_
  · rw [receiveAll_order hvalid h1, receiveAll_order hvalid h2, isSome_foldl_accept,
      isSome_foldl_accept]
    simp only [hp.mem_iff]
  · rw [stored_receiveAll hvalid h1, stored_receiveAll hvalid h2]
    refine foldl_keep_perm (hp.filter _) fun m m' hm hm' => ?_
    exact ho id k m m' (hm.perm (List.Perm.filter _ h1)) (hm'.perm (List.Perm.filter _ h1))

lemma authorised_receiveAll (ha : ∀ id k, (s.stored id k).isSome → k ∈ s.setSporkPubKeyIDs)
    (ho : IsOrder arrivals sporks) (id : Int) {k : KeyID}
    (hs : ((s.receiveAll env arrivals).stored id k).isSome) : k ∈ s.setSporkPubKeyIDs := by
  rw [stored_receiveAll hvalid ho] at hs
  rcases (foldl_keep_spec time (s.stored id k)
    (register signer (arrivals.map Arrival.spork) id k)).1 with he | ⟨m, hm, -⟩
  · rw [he] at hs
    exact ha id k hs
  · obtain ⟨hm, hr⟩ := mem_filter.1 hm
    rw [(of_decide_eq_true hr).2]
    exact (hvalid m (ho.mem_iff.1 hm)).authorised

lemma length_signers_le (ha : ∀ id k, (s.stored id k).isSome → k ∈ s.setSporkPubKeyIDs)
    (ho : IsOrder arrivals sporks) {id : Int} {signers : ExtTreeMap KeyID SignedSpork}
    (hs : (s.receiveAll env arrivals).mapSporksActive[id]? = some signers) :
    signers.toList.length ≤ s.setSporkPubKeyIDs.length := by
  rw [← length_map Prod.fst]
  refine ((Maps.nodup_keys_toList signers).subperm fun k hk => ?_).length_le
  obtain ⟨e, he, rfl⟩ := mem_map.1 hk
  refine authorised_receiveAll hvalid ha ho id ?_
  rw [stored, hs, Option.bind_some, ExtTreeMap.mem_toList_iff_getElem?_eq_some.1 he]
  rfl

end Valid

/-- All orders lead to the same sporks, and so to the same values, exactly if no signer has several
latest sporks for one id. A value that needs more than half of the keys does not depend on the order
of counting. -/
theorem converges_iff (hvalid : ∀ m ∈ sporks, m.ValidlySigned env s.setSporkPubKeyIDs (signer m))
    (hauth : ∀ id k, (s.stored id k).isSome → k ∈ s.setSporkPubKeyIDs) :
    ((∀ l1 l2, IsOrder l1 sporks → IsOrder l2 sporks →
      (s.receiveAll env l1).mapSporksActive = (s.receiveAll env l2).mapSporksActive ∧
      ∀ id, (s.receiveAll env l1).sporkValueIsActive id =
        (s.receiveAll env l2).sporkValueIsActive id) ↔ s.OneLatest signer sporks) ∧
    ((s.setSporkPubKeyIDs.length : Int) < 2 * s.nMinSporkKeys → ∀ l, IsOrder l sporks →
      ∀ id signers, (s.receiveAll env l).mapSporksActive[id]? = some signers →
      ∀ values, values.Perm (signers.toList.map fun e => e.2.content.nValue) →
      valueLoop s.nMinSporkKeys (fun _ => 0) values =
        (s.receiveAll env l).sporkValueIsActive id) := by
  have hn : ∀ l, IsOrder l sporks → (s.receiveAll env l).nMinSporkKeys = s.nMinSporkKeys :=
    fun l hl => by rw [receiveAll_order hvalid hl, (foldl_accept_frame _ _).2]
  refine ⟨⟨fun h id k m m' hm hm' => ?_, fun ho l1 l2 h1 h2 => ?_⟩,
    fun hms l hl id signers hs values hp => ?_⟩
  · obtain ⟨l1, h1, hs1⟩ := exists_order_of_latest hvalid hm
    obtain ⟨l2, h2, hs2⟩ := exists_order_of_latest hvalid hm'
    rw [stored, (h l1 l2 h1 h2).1] at hs1
    exact Option.some.inj (hs1.symm.trans hs2)
  · have he := mapSporksActive_eq_of_oneLatest hvalid ho h1 h2
    exact ⟨he, fun id => by rw [sporkValueIsActive, sporkValueIsActive, he, hn l1 h1, hn l2 h2]⟩
  · have hln := length_signers_le hvalid hauth hl hs
    have hv : values.length = signers.toList.length := by simpa using hp.length_eq
    rw [sporkValueIsActive, hs, Option.bind_some, hn l hl]
    ext v
    rw [valueLoop_eq_some (by omega), valueLoop_eq_some (by rw [List.length_map]; omega),
      hp.count_eq]

end SporkNode
end Orders

namespace Tie
open TwoReadings (env vchSig recover)

def low : SporkContent := TwoReadings.limit
def high : SporkContent := { low with nValue := 2000, value_range := by decide }

def spork (c : SporkContent) : SignedSpork := ⟨c, vchSig c true⟩

def node : SporkNode := { setSporkPubKeyIDs := [7], nMinSporkKeys := 1 }

lemma validlySigned (c : SporkContent) : (spork c).ValidlySigned env node.setSporkPubKeyIDs 7 := by
  refine ⟨mem_singleton_self 7, ⟨true, ?_⟩, fun six k _ hk => mem_singleton.1 hk⟩
  rw [getSignerKeyID, spork, recover, if_pos rfl]

lemma not_authorised (id : Int) (k : KeyID) :
    (node.stored id k).isSome → k ∈ node.setSporkPubKeyIDs := by
  simp [stored, node]

def arrivals (l : List SporkContent) : List Arrival := l.map fun c => arrival (spork c)

lemma isOrder_arrivals (l : List SporkContent) : IsOrder (arrivals l) (l.map spork) := by
  rw [IsOrder, arrivals, map_map]
  rfl

lemma valid {l : List SporkContent} :
    ∀ m ∈ l.map spork, m.ValidlySigned env node.setSporkPubKeyIDs ((fun _ => 7) m) := by
  intro m hm
  obtain ⟨c, -, rfl⟩ := mem_map.1 hm
  exact validlySigned c

lemma stored_first (c c' : SporkContent) (hi : c'.nSporkID = c.nSporkID)
    (ht : c'.nTimeSigned ≤ c.nTimeSigned) :
    (node.receiveAll env (arrivals [c, c'])).stored c.nSporkID 7 = some (spork c) := by
  rw [stored_receiveAll valid (isOrder_arrivals [c, c'])]
  have hn : node.stored c.nSporkID 7 = none := by simp [stored, node]
  have hr : register (fun _ => 7) ((arrivals [c, c']).map Arrival.spork) c.nSporkID 7 =
      [spork c, spork c'] := by
    simp [register, arrivals, arrival, spork, hi]
  rw [hn, hr]
  exact keep_of_le (show (spork c').time ≤ (spork c).time from ht)

/-- The first of two sporks stays, and with it its value. -/
theorem orders_differ : ∃ (env : SignatureEnv) (s : SporkNode) (sporks : List SignedSpork)
    (l1 l2 : List Arrival), (∀ m ∈ sporks, m.ValidlySigned env s.setSporkPubKeyIDs 7) ∧
      IsOrder l1 sporks ∧ IsOrder l2 sporks ∧
      (s.receiveAll env l1).mapSporksActive ≠ (s.receiveAll env l2).mapSporksActive := by
  refine ⟨env, node, [low, high].map spork, arrivals [low, high], arrivals [high, low], valid,
    isOrder_arrivals _, (isOrder_arrivals [high, low]).trans (List.Perm.swap _ _ _), fun he => ?_⟩
  have h1 := stored_first low high rfl le_rfl
  have h2 := stored_first high low rfl le_rfl
  rw [stored, he] at h1
  exact absurd (Option.some.inj (h1.symm.trans h2)) (by decide)

def later : SporkContent := { high with nTimeSigned := 1600000001, time_range := by decide }

/-- Of two sporks of different times the later one wins in both orders. -/
theorem converges_later : (node.receiveAll env (arrivals [low, later])).mapSporksActive =
    (node.receiveAll env (arrivals [later, low])).mapSporksActive := by
  refine ((converges_iff valid not_authorised).1.2 ?_ _ _ (isOrder_arrivals [low, later])
    ((isOrder_arrivals [later, low]).trans (List.Perm.swap _ _ _))).1
  rintro id k m m' ⟨hin, hm, -⟩ ⟨hin', hm', -⟩
  have ht : time m = time m' := le_antisymm (hm' m hin) (hm m' hin')
  have hc : m ∈ [spork low, spork later] := mem_of_mem_filter hin
  have hc' : m' ∈ [spork low, spork later] := mem_of_mem_filter hin'
  simp only [mem_cons, not_mem_nil, or_false] at hc hc'
  rcases hc with rfl | rfl <;> rcases hc' with rfl | rfl
  · rfl
  · exact absurd ht (by decide)
  · exact absurd ht (by decide)
  · rfl

end Tie
end Trivechain.Spork
