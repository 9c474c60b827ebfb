import Trivechain.Evo.SpecialTx

/-!
# Checks of provider transactions

`CheckProRegTx`, `CheckProUpServTx`, `CheckProUpRegTx` and `CheckProUpRevTx`: what a
provider transaction has to satisfy on its own, and against the list and the coins of the
block it builds on.
-/

namespace Trivechain.Evo
open Bls Llmq
open Run (denyIf orDeny dos)
open Run

structure ChainView where
  getUTXOCoin : OutPoint → Option TxOut
  /-- `mapBlockIndex` -/
  findBlock : Uint256 → Option BlockIndex
  /-- `CDeterministicMNManager::GetListForBlock` -/
  getListForBlock : BlockIndex → DeterministicMNList
  /-- `VersionBitsState(..) == THRESHOLD_ACTIVE` for `DEPLOYMENT_DIP0008`. -/
  dip0008Active : BlockIndex → Bool

def collateralAmount : Amount := 10000 * COIN

variable [PropertyHash] [ChainHash] (env : Env)

def checkService (addr : Service) : Run Unit := do
  denyIf (!env.addrIsValid addr) 10 .invalid "bad-protx-addr"
  denyIf (env.networkID ≠ .regTest ∧ !env.addrIsRoutable addr) 10 .invalid "bad-protx-addr"
  denyIf (if env.networkID = .main then addr.port ≠ mainnetDefaultPort
    else addr.port = mainnetDefaultPort) 10 .invalid "bad-protx-addr-port"
  denyIf (!env.addrIsIPv4 addr) 10 .invalid "bad-protx-addr"

/-- `if (addr != CService() && !CheckService(..)) return false;` -/
def checkServiceIfSet (addr : Service) : Run Unit :=
  if addr = .null then .ok () else checkService env addr

def checkInputsHash (tx : Transaction) (inputsHash : Uint256) : Run Unit :=
  denyIf (env.calcTxInputsHash tx.vin ≠ inputsHash) 100 .invalid "bad-protx-inputs-hash"

/-- `CheckHashSig` with an owner key. -/
def checkHashSig (hash : Uint256) (keyID : KeyID) (vchSig : VchSig) : Run Unit :=
  denyIf (!env.verifyHash hash keyID vchSig) 100 .invalid "bad-protx-sig"

/-- `CheckHashSig` with an operator key. -/
def checkOperatorSig (hash : Uint256) (pubKey : Option PubKey) (sig : Option Sig) : Run Unit :=
  denyIf (!verifyInsecure env.verify sig pubKey hash) 100 .invalid "bad-protx-sig"

/-- `mnList.HasUniqueProperty(v) && p(mnList.GetUniquePropertyMN(v))` -/
def heldBy (mnList : DeterministicMNList) (v : UniqueProperty) (p : DeterministicMN → Bool) :
    Run Bool :=
  if mnList.hasUniqueProperty v then do
    let dmn ← Run.demand .undefined (mnList.getUniquePropertyMN v)
    return p dmn
  else return false

/-- `collateralOutpoint.hash.IsNull()` -/
def ProRegTx.internalCollateral (ptx : ProRegTx) : Bool := ptx.collateralOutpoint.hash == 0

/-- The collateral is either external or an output of the transaction itself. -/
def ProRegTx.collateralOf (ptx : ProRegTx) (tx : Transaction) : OutPoint :=
  if ptx.internalCollateral then ⟨tx.getHash, ptx.collateralOutpoint.n⟩
  else ptx.collateralOutpoint

/-- The destination of the collateral, and the key that has to sign for an external one. -/
def checkCollateral (view : ChainView) (tx : Transaction) (ptx : ProRegTx) :
    Run (Destination × KeyID) :=
  if !ptx.internalCollateral then do
    let coin ← orDeny (view.getUTXOCoin ptx.collateralOutpoint) 10 .invalid "bad-protx-collateral"
    denyIf (coin.nValue ≠ collateralAmount) 10 .invalid "bad-protx-collateral"
    let dest ← orDeny coin.scriptPubKey.extractDestination 10 .invalid "bad-protx-collateral-dest"
    match dest with
    | .keyID id => return (dest, id)
    | .scriptID _ => dos 10 .invalid "bad-protx-collateral-pkh"
  else do
    let out ← orDeny tx.vout[ptx.collateralOutpoint.n]? 10 .invalid "bad-protx-collateral-index"
    denyIf (out.nValue ≠ collateralAmount) 10 .invalid "bad-protx-collateral"
    let dest ← orDeny out.scriptPubKey.extractDestination 10 .invalid "bad-protx-collateral-dest"
    return (dest, 0)

/-- The checks of `CheckProRegTx` against the list of the previous block. -/
def checkProRegTxAgainst (view : ChainView) (tx : Transaction) (ptx : ProRegTx) :
    Option BlockIndex → Run Unit
  | none => .ok ()
  | some pindexPrev => do
    let mnList := view.getListForBlock pindexPrev
    denyIf (← heldBy mnList (.addr ptx.addr) fun dmn =>
      dmn.collateralOutpoint ≠ ptx.collateralOf tx) 10 .duplicate "bad-protx-dup-addr"
    denyIf (mnList.hasUniqueProperty (.keyIDOwner ptx.keyIDOwner) ∨
      mnList.hasUniqueProperty (.pubKeyOperator ptx.pubKeyOperator)) 10 .duplicate
      "bad-protx-dup-key"
    denyIf (pindexPrev.nHeight < env.consensus.DIP0003EnforcementHeight ∧
      ptx.keyIDOwner ≠ ptx.keyIDVoting) 10 .invalid "bad-protx-key-not-same"

/-- The signature of `CheckProRegTx`: an external collateral has to sign. -/
def checkPayloadSig (ptx : ProRegTx) (keyForPayloadSig : KeyID) : Run Unit :=
  if keyForPayloadSig ≠ 0 then
    denyIf (!env.verifyMessage keyForPayloadSig ptx.vchSig
      { payout := ptx.scriptPayout, nOperatorReward := ptx.nOperatorReward
        keyIDOwner := ptx.keyIDOwner, keyIDVoting := ptx.keyIDVoting
        hash := ChainHash.payloadHash (.providerRegister (some ptx)) })
      100 .invalid "bad-protx-sig"
  else denyIf (ptx.vchSig ≠ []) 100 .invalid "bad-protx-sig"

def checkProRegTx (view : ChainView) (pindexPrev : Option BlockIndex) (tx : Transaction) :
    Run Unit :=
  match tx.payload with
  | .providerRegister payload => do
    let ptx ← orDeny payload 100 .invalid "bad-protx-payload"
    denyIf (ptx.nVersion = 0 ∨ 1 < ptx.nVersion) 100 .invalid "bad-protx-version"
    denyIf (ptx.nType ≠ 0) 100 .invalid "bad-protx-type"
    denyIf (ptx.nMode ≠ 0) 100 .invalid "bad-protx-mode"
    denyIf (ptx.keyIDOwner = 0 ∨ ptx.pubKeyOperator = none ∨ ptx.keyIDVoting = 0) 10 .invalid
      "bad-protx-key-null"
    denyIf (!ptx.scriptPayout.isPayToPublicKeyHash ∧ !ptx.scriptPayout.isPayToScriptHash) 10
      .invalid "bad-protx-payee"
    let payoutDest ← orDeny ptx.scriptPayout.extractDestination 10 .invalid "bad-protx-payee-dest"
    denyIf (payoutDest = .keyID ptx.keyIDOwner ∨ payoutDest = .keyID ptx.keyIDVoting) 10 .invalid
      "bad-protx-payee-reuse"
    checkServiceIfSet env ptx.addr
    denyIf (10000 < ptx.nOperatorReward) 10 .invalid "bad-protx-operator-reward"
    let (collateralTxDest, keyForPayloadSig) ← checkCollateral view tx ptx
    denyIf (collateralTxDest = .keyID ptx.keyIDOwner ∨ collateralTxDest = .keyID ptx.keyIDVoting)
      10 .invalid "bad-protx-collateral-reuse"
    checkProRegTxAgainst env view tx ptx pindexPrev
    checkInputsHash env tx ptx.inputsHash
    checkPayloadSig env ptx keyForPayloadSig
  | _ => dos 100 .invalid "bad-protx-type"

def checkProUpServTx (view : ChainView) (pindexPrev : Option BlockIndex) (tx : Transaction) :
    Run Unit :=
  match tx.payload with
  | .providerUpdateService payload => do
    let ptx ← orDeny payload 100 .invalid "bad-protx-payload"
    denyIf (ptx.nVersion = 0 ∨ 1 < ptx.nVersion) 100 .invalid "bad-protx-version"
    checkService env ptx.addr
    if let some pindexPrev := pindexPrev then
      let mnList := view.getListForBlock pindexPrev
      let mn ← orDeny (mnList.getMN ptx.proTxHash) 100 .invalid "bad-protx-hash"
      denyIf (← heldBy mnList (.addr ptx.addr) fun dmn => dmn.proTxHash ≠ ptx.proTxHash) 10
        .duplicate "bad-protx-dup-addr"
      denyIf (ptx.scriptOperatorPayout ≠ .empty ∧ mn.nOperatorReward = 0) 10 .invalid
        "bad-protx-operator-payee"
      denyIf (ptx.scriptOperatorPayout ≠ .empty ∧
        !ptx.scriptOperatorPayout.isPayToPublicKeyHash ∧
        !ptx.scriptOperatorPayout.isPayToScriptHash) 10 .invalid "bad-protx-operator-payee"
      checkInputsHash env tx ptx.inputsHash
      checkOperatorSig env (ChainHash.payloadHash tx.payload) mn.pdmnState.pubKeyOperator ptx.sig
  | _ => dos 100 .invalid "bad-protx-type"

def checkProUpRegTx (view : ChainView) (pindexPrev : Option BlockIndex) (tx : Transaction) :
    Run Unit :=
  match tx.payload with
  | .providerUpdateRegistrar payload => do
    let ptx ← orDeny payload 100 .invalid "bad-protx-payload"
    denyIf (ptx.nVersion = 0 ∨ 1 < ptx.nVersion) 100 .invalid "bad-protx-version"
    denyIf (ptx.nMode ≠ 0) 100 .invalid "bad-protx-mode"
    denyIf (ptx.pubKeyOperator = none ∨ ptx.keyIDVoting = 0) 10 .invalid "bad-protx-key-null"
    denyIf (!ptx.scriptPayout.isPayToPublicKeyHash ∧ !ptx.scriptPayout.isPayToScriptHash) 10
      .invalid "bad-protx-payee"
    let payoutDest ← orDeny ptx.scriptPayout.extractDestination 10 .invalid "bad-protx-payee-dest"
    if let some pindexPrev := pindexPrev then
      let mnList := view.getListForBlock pindexPrev
      let dmn ← orDeny (mnList.getMN ptx.proTxHash) 100 .invalid "bad-protx-hash"
      denyIf (payoutDest = .keyID dmn.pdmnState.keyIDOwner ∨
        payoutDest = .keyID ptx.keyIDVoting) 10 .invalid "bad-protx-payee-reuse"
      let coin ← orDeny (view.getUTXOCoin dmn.collateralOutpoint) 100 .invalid
        "bad-protx-collateral"
      let collateralTxDest ← orDeny coin.scriptPubKey.extractDestination 100 .invalid
        "bad-protx-collateral-dest"
      denyIf (collateralTxDest = .keyID dmn.pdmnState.keyIDOwner ∨
        collateralTxDest = .keyID ptx.keyIDVoting) 10 .invalid "bad-protx-collateral-reuse"
      denyIf (← heldBy mnList (.pubKeyOperator ptx.pubKeyOperator) fun otherDmn =>
        ptx.proTxHash ≠ otherDmn.proTxHash) 10 .duplicate "bad-protx-dup-key"
      denyIf (pindexPrev.nHeight < env.consensus.DIP0003EnforcementHeight ∧
        dmn.pdmnState.keyIDOwner ≠ ptx.keyIDVoting) 10 .invalid "bad-protx-key-not-same"
      checkInputsHash env tx ptx.inputsHash
      checkHashSig env (ChainHash.payloadHash tx.payload) dmn.pdmnState.keyIDOwner ptx.vchSig
  | _ => dos 100 .invalid "bad-protx-type"

def reasonLast : Nat := 3

def checkProUpRevTx (view : ChainView) (pindexPrev : Option BlockIndex) (tx : Transaction) :
    Run Unit :=
  match tx.payload with
  | .providerUpdateRevoke payload => do
    let ptx ← orDeny payload 100 .invalid "bad-protx-payload"
    denyIf (ptx.nVersion = 0 ∨ 1 < ptx.nVersion) 100 .invalid "bad-protx-version"
    denyIf (reasonLast < ptx.nReason) 100 .invalid "bad-protx-reason"
    if let some pindexPrev := pindexPrev then
      let mnList := view.getListForBlock pindexPrev
      let dmn ← orDeny (mnList.getMN ptx.proTxHash) 100 .invalid "bad-protx-hash"
      checkInputsHash env tx ptx.inputsHash
      checkOperatorSig env (ChainHash.payloadHash tx.payload) dmn.pdmnState.pubKeyOperator ptx.sig
  | _ => dos 100 .invalid "bad-protx-type"

section Passed
variable {env} {view : ChainView} {tx : Transaction} {ptx : ProRegTx}

structure CollateralChecked (view : ChainView) (tx : Transaction) (ptx : ProRegTx) : Prop where
  external : ptx.internalCollateral = false → ∃ coin, view.getUTXOCoin ptx.collateralOutpoint =
    some coin ∧ coin.nValue = collateralAmount
  internal : ptx.internalCollateral = true → ∃ out, tx.vout[ptx.collateralOutpoint.n]? = some out ∧
    out.nValue = collateralAmount ∧ out.scriptPubKey.isUnspendable = false

omit [PropertyHash] [ChainHash] in
lemma checkCollateral_ok {res : Destination × KeyID}
    (h : checkCollateral view tx ptx = .ok res) : CollateralChecked view tx ptx := by
  unfold checkCollateral at h
  by_cases hi : ptx.internalCollateral = true
  · simp only [hi, Bool.not_true, Bool.false_eq_true, if_false] at h
    obtain ⟨out, ho, h⟩ := bind_ok.1 h
    obtain ⟨_, hv, h⟩ := bind_ok.1 h
    obtain ⟨dest, hd, -⟩ := bind_ok.1 h
    refine ⟨by simp [hi], fun _ => ⟨out, orDeny_ok.1 ho, ?_, ?_⟩⟩
    · simpa using hv
    · exact Script.spendable_of_extractDestination (orDeny_ok.1 hd)
  · simp only [hi, Bool.not_false, if_true] at h
    obtain ⟨coin, hc, h⟩ := bind_ok.1 h
    obtain ⟨_, hv, -⟩ := bind_ok.1 h
    refine ⟨fun _ => ⟨coin, orDeny_ok.1 hc, ?_⟩, by simp [hi]⟩
    simpa using hv

lemma checkProRegTx_ok {prev : BlockIndex} {payload : Option ProRegTx}
    (hp : tx.payload = .providerRegister payload)
    (h : checkProRegTx env view (some prev) tx = .ok ()) :
    ∃ ptx, payload = some ptx ∧ ptx.keyIDOwner ≠ 0 ∧ ptx.pubKeyOperator ≠ none ∧
      CollateralChecked view tx ptx ∧
      checkProRegTxAgainst env view tx ptx (some prev) = .ok () := by
  unfold checkProRegTx at h
  simp only [hp] at h
  obtain ⟨ptx, hy, h⟩ := bind_ok.1 h
  iterate 3 obtain ⟨_, -, h⟩ := bind_ok.1 h
  obtain ⟨_, hk, h⟩ := bind_ok.1 h
  iterate 5 obtain ⟨_, -, h⟩ := bind_ok.1 h
  obtain ⟨_, hc, h⟩ := bind_ok.1 h
  obtain ⟨_, -, h⟩ := bind_ok.1 h
  obtain ⟨_, ha, -⟩ := bind_ok.1 h
  rw [denyIf_ok, not_or, not_or] at hk
  exact ⟨ptx, orDeny_ok.1 hy, hk.1, hk.2.1, checkCollateral_ok hc, ha⟩

lemma checkProUpServTx_ok {prev : BlockIndex} {payload : Option ProUpServTx}
    (hp : tx.payload = .providerUpdateService payload)
    (h : checkProUpServTx env view (some prev) tx = .ok ()) : ∃ ptx, payload = some ptx ∧
      heldBy (view.getListForBlock prev) (.addr ptx.addr)
        (fun dmn => dmn.proTxHash ≠ ptx.proTxHash) = .ok false := by
  unfold checkProUpServTx at h
  simp only [hp] at h
  obtain ⟨ptx, hy, h⟩ := bind_ok.1 h
  iterate 3 obtain ⟨_, -, h⟩ := bind_ok.1 h
  obtain ⟨he, hh, h⟩ := bind_ok.1 h
  obtain ⟨_, hn, -⟩ := bind_ok.1 h
  obtain rfl : he = false := by simpa using hn
  exact ⟨ptx, orDeny_ok.1 hy, hh⟩

lemma checkProUpRegTx_ok {prev : BlockIndex} {payload : Option ProUpRegTx}
    (hp : tx.payload = .providerUpdateRegistrar payload)
    (h : checkProUpRegTx env view (some prev) tx = .ok ()) :
    ∃ ptx, payload = some ptx ∧ ptx.pubKeyOperator ≠ none ∧
      heldBy (view.getListForBlock prev) (.pubKeyOperator ptx.pubKeyOperator)
        (fun dmn => ptx.proTxHash ≠ dmn.proTxHash) = .ok false := by
  unfold checkProUpRegTx at h
  simp only [hp] at h
  obtain ⟨ptx, hy, h⟩ := bind_ok.1 h
  obtain ⟨_, -, h⟩ := bind_ok.1 h
  obtain ⟨_, -, h⟩ := bind_ok.1 h
  obtain ⟨_, hk, h⟩ := bind_ok.1 h
  iterate 7 obtain ⟨_, -, h⟩ := bind_ok.1 h
  obtain ⟨he, hh, h⟩ := bind_ok.1 h
  obtain ⟨_, hn, -⟩ := bind_ok.1 h
  obtain rfl : he = false := by simpa using hn
  rw [denyIf_ok, not_or] at hk
  exact ⟨ptx, orDeny_ok.1 hy, hk.1, hh⟩

omit [PropertyHash] in
lemma checkProUpRevTx_ok {prev : Option BlockIndex} {payload : Option ProUpRevTx}
    (hp : tx.payload = .providerUpdateRevoke payload)
    (h : checkProUpRevTx env view prev tx = .ok ()) : ∃ ptx, payload = some ptx := by
  unfold checkProUpRevTx at h
  simp only [hp] at h
  obtain ⟨ptx, hy, -⟩ := bind_ok.1 h
  exact ⟨ptx, orDeny_ok.1 hy⟩

end Passed
end Trivechain.Evo
