import Trivechain.Validation.UndoBlock

/-!
# The indexes after a block was disconnected

Connecting a block writes three batches, disconnecting it two: the batch for the spent index is
collected and never written, and a coin paid to a public key is taken for an output of the
transaction that spent it. The indexes are as before exactly when the block spends nothing.
-/

namespace Trivechain.Validation
open Evo Coins Run
open List

def receiptKey (nHeight i : Nat) (txhash : Uint256) (x : TxOut × Nat) : Option AddressIndexKey :=
  (addressOf x.1.scriptPubKey).map fun a => ⟨a.1, a.2, nHeight, i, txhash, x.2, false⟩

def unspentKey (txhash : Uint256) (x : TxOut × Nat) : Option AddressUnspentKey :=
  (addressOf x.1.scriptPubKey).map fun a => ⟨a.1, a.2, txhash, x.2⟩

namespace IndexBatches
variable (b : IndexBatches) (nHeight i : Nat) (txhash : Uint256)

def addressKeys : List AddressIndexKey := b.addressIndex.map Prod.fst

def unspentKeys : List AddressUnspentKey := b.addressUnspentIndex.map Prod.fst

/-- A step adds the keys of one output. -/
def AddsKeys (f : IndexBatches → TxOut × Nat → IndexBatches) : Prop :=
  ∀ b x, (f b x).addressKeys = b.addressKeys ++ (receiptKey nHeight i txhash x).toList ∧
    (f b x).unspentKeys = b.unspentKeys ++ (unspentKey txhash x).toList

variable {nHeight i txhash} in
lemma AddsKeys.foldl {f : IndexBatches → TxOut × Nat → IndexBatches}
    (hf : AddsKeys nHeight i txhash f) (xs : List (TxOut × Nat)) :
    (xs.foldl f b).addressKeys = b.addressKeys ++ xs.filterMap (receiptKey nHeight i txhash) ∧
    (xs.foldl f b).unspentKeys = b.unspentKeys ++ xs.filterMap (unspentKey txhash) := by
  induction xs generalizing b with
  | nil => simp
  | cons x xs ih =>
    rw [foldl_cons, (ih _).1, (ih _).2, (hf b x).1, (hf b x).2, filterMap_cons, filterMap_cons]
    cases receiptKey nHeight i txhash x <;> cases unspentKey txhash x <;> simp

lemma addOutput_keys :
    AddsKeys nHeight i txhash fun b x => b.addOutput nHeight i txhash x.2 x.1 := by
  intro b x
  dsimp only
  unfold addOutput receiptKey unspentKey addressKeys unspentKeys
  cases addressOf x.1.scriptPubKey <;> simp

lemma addOutput_spentIndex (x : TxOut × Nat) :
    (b.addOutput nHeight i txhash x.2 x.1).spentIndex = b.spentIndex := by
  unfold addOutput
  cases addressOf x.1.scriptPubKey <;> rfl

lemma undoOutput_keys :
    AddsKeys nHeight i txhash fun b x => b.undoOutput nHeight i txhash x.2 x.1 := by
  intro b x
  dsimp only
  unfold undoOutput receiptKey unspentKey addressKeys unspentKeys
  cases addressOf x.1.scriptPubKey <;> simp

lemma undoOutput_null (x : TxOut × Nat) (h : ∀ e ∈ b.addressUnspentIndex, e.2 = .null) :
    ∀ e ∈ (b.undoOutput nHeight i txhash x.2 x.1).addressUnspentIndex, e.2 = .null := by
  unfold undoOutput
  cases addressOf x.1.scriptPubKey with
  | none => exact h
  | some a =>
    intro e he
    rcases mem_append.1 he with he | he
    · exact h e he
    · rw [mem_singleton.1 he]

lemma addSpends_spent (xs : List ((OutPoint × Coin) × Nat)) :
    ∃ l : List (OutPoint × SpentIndexValue),
      (xs.foldl (fun b e => b.addSpend nHeight i txhash e.2 e.1.1 e.1.2) b).spentIndex =
        b.spentIndex ++ l ∧ l.map Prod.fst = xs.map (fun e => e.1.1) ∧
      ∀ e ∈ l, e.2.txid = txhash := by
  induction xs generalizing b with
  | nil => exact ⟨[], by simp, rfl, by simp⟩
  | cons x xs ih =>
    obtain ⟨l, hl, hk, ht⟩ := ih (b.addSpend nHeight i txhash x.2 x.1.1 x.1.2)
    obtain ⟨v, hv, hx⟩ : ∃ v : SpentIndexValue, v.txid = txhash ∧
        (b.addSpend nHeight i txhash x.2 x.1.1 x.1.2).spentIndex =
          b.spentIndex ++ [(x.1.1, v)] := by
      unfold addSpend
      dsimp only
      split_ifs <;> exact ⟨_, rfl, rfl⟩
    refine ⟨(x.1.1, v) :: l, ?_, by simp [hk], by simpa [hv] using ht⟩
    rw [foldl_cons, hl, hx]
    simp

end IndexBatches

section Blocks
variable [ChainHash] {known : Set OutPoint} {u u' : Utxo} {tx : Transaction} {env : BlockEnv}
  {st st' : ConnectState}

lemma connectInputs_batches {i : Nat} (h : st.view.Sees u known)
    (ho : connectInputs env i tx st = .ok st') :
    ∃ xs : List ((OutPoint × Coin) × Nat), xs.map (fun e => e.1.1) = spentInputs tx ∧
      st'.batches = xs.foldl (fun b e => b.addSpend env.nHeight i tx.getHash e.2 e.1.1 e.1.2)
        st.batches := by
  unfold spentInputs
  split_ifs with hb
  · rw [connectInputs, if_pos hb] at ho
    cases ho
    exact ⟨[], rfl, rfl⟩
  · obtain ⟨-, coins, -, -, hc, -, -, rfl⟩ := connectInputs_ok h hb ho
    refine ⟨(tx.vin.zip coins).zipIdx, ?_, rfl⟩
    have hf : (tx.vin.zip coins).map Prod.fst = tx.vin := map_fst_zip (le_of_eq hc.length_eq)
    show (tx.vin.zip coins).zipIdx.map (Prod.fst ∘ Prod.fst) = tx.vin
    rw [← map_map, zipIdx_map_fst, hf]

lemma connectTx_batches {i : Nat} (h : st.view.Sees u known)
    (ho : connectTx env st (tx, i) = .ok st') :
    (∃ l : List (OutPoint × SpentIndexValue), st'.batches.spentIndex = st.batches.spentIndex ++ l ∧
      l.map Prod.fst = spentInputs tx ∧ ∀ e ∈ l, e.2.txid ≠ 0) ∧
    (spentInputs tx = [] → st'.batches.addressKeys = st.batches.addressKeys ++
        tx.vout.zipIdx.filterMap (receiptKey env.nHeight i tx.getHash) ∧
      st'.batches.unspentKeys = st.batches.unspentKeys ++
        tx.vout.zipIdx.filterMap (unspentKey tx.getHash)) := by
  obtain ⟨st1, hi, ho⟩ := Run.bind_ok.1 ho
  obtain ⟨⟨undo, view⟩, hp, ho⟩ := Run.bind_ok.1 ho
  cases ho
  obtain ⟨xs, hx, hb⟩ := connectInputs_batches h hi
  have hkeys := (IndexBatches.addOutput_keys env.nHeight i tx.getHash).foldl st1.batches
    tx.vout.zipIdx
  obtain ⟨l, hl, hk, ht⟩ := st.batches.addSpends_spent env.nHeight i tx.getHash xs
  refine ⟨⟨l, ?_, hk.trans hx, fun e he => ?_⟩, fun hn => ?_⟩
  · rw [← hl, ← hb]
    refine foldlRecOn (motive := fun b : IndexBatches => b.spentIndex = st1.batches.spentIndex) _ _
      rfl fun b h x _ => ?_
    exact (b.addOutput_spentIndex _ _ _ x).trans h
  · rw [ht e he]
    exact ChainHash.txHash_ne_zero tx
  · -- without inputs nothing was added before the outputs
    have hx0 : xs = [] := by
      rw [hn] at hx
      exact map_eq_nil_iff.1 hx
    rw [hx0, foldl_nil] at hb
    rw [← hb]
    exact hkeys

lemma connectTxs_batches {txs : List Transaction} {n : Nat} (h : st.view.Sees u known)
    (hn : ∀ tx ∈ txs, tx.vin.Nodup)
    (hk : ∀ tx ∈ txs, ∀ e ∈ outputCoins env.nHeight tx, e.1 ∈ known)
    (hb : ∀ e ∈ txs.zipIdx n, e.1.isCoinBase = true ↔ e.2 = 0)
    (hw : n = 0 → ∀ tx ∈ txs, ∀ e ∈ outputCoins env.nHeight tx, u e.1 = none)
    (ho : (txs.zipIdx n).foldlM (connectTx env) st = .ok st') :
    (∃ l : List (OutPoint × SpentIndexValue), st'.batches.spentIndex = st.batches.spentIndex ++ l ∧
      l.map Prod.fst = txs.flatMap spentInputs ∧ ∀ e ∈ l, e.2.txid ≠ 0) ∧
    ((∀ tx ∈ txs, spentInputs tx = []) →
      st'.batches.addressKeys = st.batches.addressKeys ++ (txs.zipIdx n).flatMap (fun e =>
        e.1.vout.zipIdx.filterMap (receiptKey env.nHeight e.2 e.1.getHash)) ∧
      st'.batches.unspentKeys = st.batches.unspentKeys ++ (txs.zipIdx n).flatMap (fun e =>
        e.1.vout.zipIdx.filterMap (unspentKey e.1.getHash))) := by
  induction txs generalizing n u st with
  | nil =>
    cases ho
    exact ⟨⟨[], by simp⟩, by simp⟩
  | cons tx txs ih =>
    obtain ⟨st1, hs, ho⟩ := Run.bind_ok.1 ho
    have hc0 := hb (tx, n) (by simp)
    obtain ⟨undo, u1, -, hss, -⟩ := connectTx_applies h (hn tx (by simp))
      (hk tx (by simp)) (fun hc => hw (hc0.1 hc) tx (by simp)) hs
    obtain ⟨⟨l, hl, hy, ht⟩, hnn⟩ := connectTx_batches h hs
    obtain ⟨⟨l', hl', hk', ht'⟩, hn'⟩ := ih hss
      (fun tx' h' => hn tx' (by simp [h'])) (fun tx' h' => hk tx' (by simp [h']))
      (fun e he => hb e (by simp [he])) (fun h0 => absurd h0 (Nat.succ_ne_zero n)) ho
    refine ⟨⟨l ++ l', by simp [hl', hl], by simp [hy, hk'], fun e he => ?_⟩, fun ha => ?_⟩
    · rcases mem_append.1 he with he | he
      · exact ht e he
      · exact ht' e he
    · obtain ⟨h1, h2⟩ := hnn (ha tx (by simp))
      obtain ⟨h1', h2'⟩ := hn' fun tx' h' => ha tx' (by simp [h'])
      rw [h1', h2', h1, h2]
      simp

lemma AppliesAll.mem_inputs {nHeight : Nat} {txs : List (Transaction × List Coin)}
    (h : AppliesAll nHeight txs u u') {o : OutPoint}
    (ho : ∃ e ∈ txs, o ∈ spentInputs e.1) : (u o).isSome ∨ ∃ e ∈ txs, o.hash = e.1.getHash := by
  induction txs generalizing u with
  | nil =>
    obtain ⟨e, he, -⟩ := ho
    exact absurd he not_mem_nil
  | cons a txs ih =>
    obtain ⟨tx, undo⟩ := a
    obtain ⟨u1, ha, hl⟩ := h
    obtain ⟨e, he, hm⟩ := ho
    rcases mem_cons.1 he with rfl | he
    · exact .inl (ha.spent.isSome hm)
    · rcases ih hl ⟨e, he, hm⟩ with hs | ⟨e', he', hq⟩
      · rw [ha.result] at hs
        by_cases hu : o ∈ (outputCoins nHeight tx).map Prod.fst
        · obtain ⟨c, hc, rfl⟩ := mem_map.1 hu
          obtain ⟨k, -, hk⟩ := mem_outputCoins hc
          exact .inr ⟨(tx, undo), by simp, by rw [hk]⟩
        · rw [addAll_of_notMem hu] at hs
          exact .inl (isSome_of_spendAll hs)
      · exact .inr ⟨e', by simp [he'], hq⟩

end Blocks

section Undo
variable {st st' : DisconnectState}

lemma disconnectOutputs_batches (coins : List (OutPoint × Coin)) :
    (coins.foldl disconnectOutput st).batches = st.batches := by
  induction coins generalizing st with
  | nil => rfl
  | cons e coins ih =>
    rw [foldl_cons, ih]
    unfold disconnectOutput
    split_ifs <;> rfl

variable [ChainHash]

lemma disconnectTx_batches {nHeight i : Nat} {tx : Transaction} {undo : List Coin}
    (hn : i = 0 ∨ tx.vin = []) (ho : disconnectTx nHeight st ((tx, undo), i) = .ok st') :
    st'.batches = tx.vout.zipIdx.reverse.foldl
      (fun b o => b.undoOutput nHeight i tx.getHash o.2 o.1) st.batches := by
  unfold disconnectTx disconnectInputs at ho
  dsimp only at ho
  split_ifs at ho with hi hl
  · cases ho
    exact disconnectOutputs_batches _
  · cases ho
  · have hv := hn.resolve_left hi
    rw [hv] at ho
    cases ho
    exact disconnectOutputs_batches _

lemma disconnectTxs_batches {nHeight : Nat} {txs : List ((Transaction × List Coin) × Nat)}
    (hn : ∀ e ∈ txs, e.2 = 0 ∨ e.1.1.vin = [])
    (ho : txs.foldlM (disconnectTx nHeight) st = .ok st') :
    st'.batches.addressKeys = st.batches.addressKeys ++ txs.flatMap (fun e =>
      e.1.1.vout.zipIdx.reverse.filterMap (receiptKey nHeight e.2 e.1.1.getHash)) ∧
    st'.batches.unspentKeys = st.batches.unspentKeys ++ txs.flatMap (fun e =>
      e.1.1.vout.zipIdx.reverse.filterMap (unspentKey e.1.1.getHash)) ∧
    ((∀ e ∈ st.batches.addressUnspentIndex, e.2 = .null) →
      ∀ e ∈ st'.batches.addressUnspentIndex, e.2 = .null) := by
  induction txs generalizing st with
  | nil =>
    cases ho
    simp
  | cons e txs ih =>
    obtain ⟨st1, hs, ho⟩ := Run.bind_ok.1 ho
    have hb := disconnectTx_batches (hn e (by simp)) hs
    obtain ⟨h1, h2⟩ := (IndexBatches.undoOutput_keys nHeight e.2 e.1.1.getHash).foldl st.batches
      e.1.1.vout.zipIdx.reverse
    rw [← hb] at h1 h2
    obtain ⟨ih1, ih2, ih3⟩ := ih (fun e' he' => hn e' (by simp [he'])) ho
    refine ⟨?_, ?_, fun h => ih3 ?_⟩
    · rw [ih1, h1]
      simp
    · rw [ih2, h2]
      simp
    · rw [hb]
      refine foldlRecOn (motive := fun b : IndexBatches =>
        ∀ e ∈ b.addressUnspentIndex, e.2 = .null) _ _ h fun b h x _ => ?_
      exact b.undoOutput_null _ _ _ x h

end Undo

def unspentIndexOf (u : Utxo) : AddressUnspentKey → Option AddressUnspentValue := fun k =>
  match u ⟨k.txhash, k.index⟩ with
  | none => none
  | some coin =>
    if addressOf coin.out.scriptPubKey = some (k.type, k.hashBytes) then
      some ⟨coin.out.nValue, coin.out.scriptPubKey, coin.nHeight⟩
    else none

structure IndexDb.Fits [ChainHash] (db : IndexDb) (u : Utxo) (nHeight : Nat) (block : Block) :
    Prop where
  unspent : db.addressUnspentIndex = unspentIndexOf u
  address : ∀ k, k.blockHeight = nHeight → db.addressIndex k = none
  spent : ∀ o v, db.spentIndex o = some v → u o = none ∧ ∀ tx ∈ block.vtx, o.hash ≠ tx.getHash

section Restored
variable [ChainHash] {env : BlockEnv} {block : Block} {db : IndexDb} {u : Utxo}
  {st : ConnectState} {st' : DisconnectState}

lemma spentIndex_ne (hf : db.Fits u env.nHeight block) {l : List (OutPoint × SpentIndexValue)}
    (hl : st.batches.spentIndex = l) (ht : ∀ e ∈ l, e.2.txid ≠ 0) {o : OutPoint}
    (ho : o ∈ l.map Prod.fst) (hn : (u o).isSome ∨ ∃ tx ∈ block.vtx, o.hash = tx.getHash) :
    ((db.connect st.batches).disconnect st'.batches).spentIndex o ≠ db.spentIndex o := by
  have hb : db.spentIndex o = none := by
    cases hv : db.spentIndex o with
    | none => rfl
    | some v =>
      obtain ⟨hu, hx⟩ := hf.spent o v hv
      rcases hn with hs | ⟨tx, hm, hq⟩
      · simp [hu] at hs
      · exact absurd hq (hx tx hm)
  rw [hb, IndexDb.disconnect_spentIndex, hl]
  rcases applyBatch_cases (fun v : SpentIndexValue => if v.txid = 0 then none else some v) l
    db.spentIndex o with ⟨hnt, -⟩ | ⟨e, he, -, hvl⟩
  · exact absurd ho hnt
  · rw [hvl, if_neg (ht e he)]
    simp

variable {txs : List Transaction}

section

omit [ChainHash]

lemma mem_tail_zipIdx {e : Transaction × Nat} (he : e ∈ txs.zipIdx) : e.2 = 0 ∨ e.1 ∈ txs.tail := by
  cases txs with
  | nil => simp at he
  | cons tx txs =>
    rw [zipIdx_cons, mem_cons] at he
    rcases he with rfl | he
    · exact .inl rfl
    · exact .inr (fst_mem_of_mem_zipIdx he)

lemma spentInputs_of_mem_tail (hb : ∀ e ∈ txs.zipIdx, e.1.isCoinBase = true ↔ e.2 = 0)
    {tx : Transaction} (ht : tx ∈ txs.tail) : spentInputs tx = tx.vin := by
  obtain ⟨i, hi⟩ := getElem?_of_mem ht
  rw [getElem?_tail] at hi
  have hf := hb (tx, i + 1) (mem_zipIdx_iff_getElem?.2 hi)
  exact if_neg fun hc => Nat.succ_ne_zero i (hf.1 hc)

lemma spentInputs_eq (hb : ∀ e ∈ txs.zipIdx, e.1.isCoinBase = true ↔ e.2 = 0) {tx : Transaction}
    (hx : tx ∈ txs) :
    spentInputs tx = [] ∨ tx ∈ txs.tail ∧ spentInputs tx = tx.vin := by
  obtain ⟨i, hi⟩ := getElem?_of_mem hx
  have hm : (tx, i) ∈ txs.zipIdx := mem_zipIdx_iff_getElem?.2 hi
  rcases mem_tail_zipIdx hm with h0 | ht
  · exact .inl (if_pos ((hb _ hm).2 h0))
  · by_cases hc : tx.isCoinBase = true
    · exact .inl (if_pos hc)
    · exact .inr ⟨ht, if_neg hc⟩

end

lemma unspentIndexOf_eq_none {nHeight : Nat}
    (ho : ∀ tx ∈ txs, ∀ e ∈ outputCoins nHeight tx, u e.1 = none) {k : AddressUnspentKey}
    (hk : k ∈ txs.zipIdx.flatMap fun e => e.1.vout.zipIdx.filterMap (unspentKey e.1.getHash)) :
    unspentIndexOf u k = none := by
  obtain ⟨e, he, hk⟩ := mem_flatMap.1 hk
  obtain ⟨x, hx, hk⟩ := mem_filterMap.1 hk
  obtain ⟨a, -, rfl⟩ := Option.map_eq_some_iff.1 hk
  have hn : u ⟨e.1.getHash, x.2⟩ = none :=
    ho e.1 (fst_mem_of_mem_zipIdx he) _ (mem_map.2 ⟨x, hx, rfl⟩)
  unfold unspentIndexOf
  simp only [hn]

omit [ChainHash] in
lemma receiptKey_height {nHeight i : Nat} {txhash : Uint256} {x : TxOut × Nat}
    {k : AddressIndexKey} (h : receiptKey nHeight i txhash x = some k) :
    k.blockHeight = nHeight := by
  obtain ⟨a, -, rfl⟩ := Option.map_eq_some_iff.1 h
  rfl

omit [ChainHash] in
lemma mem_keys_reverse {K : Type} {undos : List (List Coin)} (hl : txs.length ≤ undos.length)
    (key : Transaction × Nat → TxOut × Nat → Option K) (k : K) :
    (k ∈ (txs.zip undos).zipIdx.reverse.flatMap fun e =>
      e.1.1.vout.zipIdx.reverse.filterMap (key (e.1.1, e.2))) ↔
    k ∈ txs.zipIdx.flatMap fun e => e.1.vout.zipIdx.filterMap (key e) := by
  have hz : txs.zipIdx = (txs.zip undos).zipIdx.map (Prod.map Prod.fst id) := by
    rw [← zipIdx_map, map_fst_zip hl]
  rw [hz]
  simp only [mem_flatMap, mem_reverse, mem_filterMap, mem_map]
  constructor
  · rintro ⟨e, he, x, hx, hk⟩
    exact ⟨_, ⟨e, he, rfl⟩, x, hx, hk⟩
  · rintro ⟨_, ⟨e, he, rfl⟩, x, hx, hk⟩
    exact ⟨e, he, x, hx, hk⟩

end Restored

namespace Sample

def db : IndexDb := { addressUnspentIndex := unspentIndexOf view.tip.coins }

def coinbase0 : Transaction := ⟨1, .normal, [.null], [⟨50, .pubKeyHash 3⟩], 0⟩

local instance : ChainHash := tableHash [coinbase, tx1, tx2] []

lemma db_fits (b : Block) : db.Fits view.tip.coins env.nHeight b :=
  ⟨rfl, fun _ _ => rfl, fun _ _ h => by cases h⟩

end Sample
end Trivechain.Validation
