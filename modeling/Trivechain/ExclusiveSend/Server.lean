import Mathlib.Data.List.Sort
import Trivechain.Primitives.Transaction

/-!
# The mixing server

`CExclusiveSendServer` merges the inputs and outputs of several participants into one transaction,
collects signatures for it and submits it. A session goes through the states queue, accepting
entries and signing, and back to idle.

What a message meets outside of the server (coins, the mempool, peers, time and random numbers) is a
parameter of the step. What the server sends and submits is kept in its log.
-/

namespace Trivechain.ExclusiveSend
open Run (demand)

abbrev ScriptSig := List UInt8

structure TxIn where
  prevout : OutPoint
  scriptSig : ScriptSig := []
  nSequence : Nat := 0xffffffff
deriving DecidableEq

structure MutableTransaction where
  vin : List TxIn := []
  vout : List TxOut := []
  nLockTime : Nat := 0
deriving DecidableEq

structure TxDSIn extends TxIn where
  -- memory only
  prevPubKey : Script := .empty
  fHasSig : Bool := false
deriving DecidableEq

/-- `CExclusiveSendEntry` -/
structure Entry where
  vecTxDSIn : List TxDSIn
  vecTxOut : List TxOut
  txCollateral : MutableTransaction
  -- memory only
  addr : Service := .null
deriving DecidableEq

structure EntryData where
  vecTxDSIn : List TxIn
  txCollateral : MutableTransaction
  vecTxOut : List TxOut

def EntryData.deserialize (data : EntryData) : Entry where
  vecTxDSIn := data.vecTxDSIn.map fun txin => { txin with }
  vecTxOut := data.vecTxOut
  txCollateral := data.txCollateral

/-- `CExclusiveSendAccept` -/
structure Accept where
  nDenom : Int
  txCollateral : MutableTransaction

/-- `CExclusiveSendQueue` -/
structure Queue where
  nDenom : Int
  masternodeOutpoint : OutPoint
  nTime : Int
  fReady : Bool
deriving DecidableEq

inductive PoolState where
  | idle | queue | acceptingEntries | signing | error | success
deriving DecidableEq, Repr

inductive PoolMessage where
  | ERR_ALREADY_HAVE | ERR_DENOM | ERR_ENTRIES_FULL | ERR_EXISTING_TX | ERR_FEES
  | ERR_INVALID_COLLATERAL | ERR_INVALID_INPUT | ERR_INVALID_SCRIPT | ERR_INVALID_TX | ERR_MAXIMUM
  | ERR_MN_LIST | ERR_MODE | ERR_NON_STANDARD_PUBKEY | ERR_QUEUE_FULL | ERR_RECENT | ERR_SESSION
  | ERR_MISSING_TX | ERR_VERSION | MSG_NOERR | MSG_SUCCESS | MSG_ENTRIES_ADDED
deriving DecidableEq, Repr

inductive PoolStatusUpdate where
  | STATUS_REJECTED | STATUS_ACCEPTED
deriving DecidableEq, Repr

inductive Action where
  /-- `REJECT` with `REJECT_OBSOLETE` -/
  | rejectObsolete (addr : Service)
  | statusUpdate (addr : Service) (nSessionID : Nat) (nState : PoolState) (entries : Nat)
    (status : PoolStatusUpdate) (message : PoolMessage)
  | finalTx (addr : Service) (nSessionID : Nat) (tx : MutableTransaction)
  | complete (addr : Service) (nSessionID : Nat) (message : PoolMessage)
  | queue (dsq : Queue)
  /-- The final transaction goes to `AcceptToMemoryPool`. -/
  | submitFinal (tx : MutableTransaction)
  /-- A collateral does. -/
  | submitCollateral (tx : MutableTransaction)
deriving DecidableEq

structure Server where
  nState : PoolState := .idle
  nSessionID : Nat := 0
  nSessionDenom : Int := 0
  nSessionMaxParticipants : Nat := 0
  vecSessionCollaterals : List MutableTransaction := []
  vecEntries : List Entry := []
  finalMutableTransaction : MutableTransaction := {}
  nTimeLastSuccessfulStep : Int := 0
  vecExclusiveSendQueue : List Queue := []
  log : List Action := []

structure Params where
  poolMinParticipants : Nat
  poolMaxParticipants : Nat
  /-- `VerifyScript` with the checker for an input of a transaction. -/
  verifyScript : ScriptSig → Script → MutableTransaction → Nat → Bool
  scriptSize : Script → Nat
  scriptLess : Script → Script → Bool
  /-- `activeMasternodeInfo.outpoint` -/
  outpoint : OutPoint

inductive Found where
  | mempool (isSpent isLocked : Bool) (vout : List TxOut)
  | utxo (out : TxOut)
  | missing

structure Context where
  isBlockchainSynced : Bool := true
  getTime : Int := 0
  getAdjustedTime : Int := 0
  /-- `connman.ForNode` finds the peer. -/
  connected : Service → Bool := fun _ => true
  find : OutPoint → Found
  /-- `AcceptToMemoryPool` -/
  accepts : MutableTransaction → Bool
  /-- `TRY_LOCK(cs_main)` and `TRY_LOCK(cs_vecqueue)` -/
  lockMain : Bool := true
  lockQueue : Bool := true
  /-- The masternode is in the valid list. -/
  isValidMN : Bool := true
  /-- Its last queue is too recent. -/
  lastDsqTooRecent : Bool := false
  /-- The random numbers, by the place where they are drawn. -/
  randSessionID : Nat := 0
  randParticipants : Nat := 0
  randCharge : Nat := 0
  randChargeAll : Nat := 0
  randOffender : Nat := 0
  randFee : Nat → Nat := fun _ => 0

def vecStandardDenominations : List Amount :=
  [10 * COIN + 10000, COIN + 1000, COIN / 10 + 100, COIN / 100 + 10, COIN / 1000 + 1]

/-- `GetDenominations`, with all denominations that are used. -/
def getDenominations (vecTxOut : List TxOut) : Int :=
  if vecTxOut.all fun txout => vecStandardDenominations.contains txout.nValue then
    (vecStandardDenominations.zipIdx.map fun (value, i) =>
      if vecTxOut.any fun txout => txout.nValue = value then (2 ^ i : Int) else 0).sum
  else 0

/-- `GetDenominationsBits`. The denomination of a message can be negative. -/
def getDenominationsBits (nDenom : Int) : Option (List Nat) :=
  if 2 ^ vecStandardDenominations.length ≤ nDenom then none
  else
    let vecBits := (List.range vecStandardDenominations.length).filter fun i => nDenom / 2 ^ i % 2 = 1
    if vecBits.isEmpty then none else some vecBits

def getCollateralAmount : Amount := (COIN / 1000 + 1) / 10

def Context.inputValue (ctx : Context) (prevout : OutPoint) : Run (Option Amount) :=
  match ctx.find prevout with
  | .mempool isSpent isLocked vout =>
    if isSpent || !isLocked then .ok none
    else do
      -- the index is not checked
      let out ← demand .undefined vout[prevout.n]?
      return some out.nValue
  | .utxo out => .ok (some out.nValue)
  | .missing => .ok none

def Context.valueIn (ctx : Context) (vin : List TxIn) : Run (Option Amount) :=
  vin.foldlM (fun nValueIn txin =>
    match nValueIn with
    | none => .ok none
    | some nValueIn => do
      let nValue ← ctx.inputValue txin.prevout
      return nValue.map (nValueIn + ·)) (some 0)

def valueOut (vout : List TxOut) : Amount := (vout.map TxOut.nValue).sum

def Context.isCollateralValid (ctx : Context) (txCollateral : MutableTransaction) : Run Bool :=
  if txCollateral.vout.isEmpty then .ok false
  else if txCollateral.nLockTime ≠ 0 then .ok false
  else if txCollateral.vout.any fun txout =>
      !txout.scriptPubKey.isPayToPublicKeyHash && !txout.scriptPubKey.isUnspendable then .ok false
  else do
    let nValueIn ← ctx.valueIn txCollateral.vin
    return nValueIn.any fun nValueIn =>
      !(nValueIn - valueOut txCollateral.vout < getCollateralAmount) && ctx.accepts txCollateral

def compareInputBIP69 (a b : TxIn) : Bool :=
  if a.prevout.hash = b.prevout.hash then a.prevout.n < b.prevout.n
  else a.prevout.hash < b.prevout.hash

def compareOutputBIP69 (p : Params) (a b : TxOut) : Bool :=
  a.nValue < b.nValue || (a.nValue == b.nValue && p.scriptLess a.scriptPubKey b.scriptPubKey)

namespace Server
variable (p : Params) (ctx : Context) (s : Server)

def committed : List MutableTransaction :=
  s.log.filterMap fun
    | .submitFinal tx => some tx
    | _ => none

def act (a : Action) : Server := { s with log := s.log ++ [a] }

def setNull : Server where
  finalMutableTransaction := { s.finalMutableTransaction with vin := [], vout := [] }
  nTimeLastSuccessfulStep := ctx.getTime
  log := s.log

def setState (nStateNew : PoolState) : Server :=
  if nStateNew = .error ∨ nStateNew = .success then s
  else { s with nTimeLastSuccessfulStep := ctx.getTime, nState := nStateNew }

def pushStatus (addr : Service) (status : PoolStatusUpdate) (message : PoolMessage) : Server :=
  s.act (.statusUpdate addr s.nSessionID s.nState s.vecEntries.length status message)

def pushStatusAll (status : PoolStatusUpdate) (message : PoolMessage) : Server :=
  s.vecEntries.foldl (fun s entry =>
    if ctx.connected entry.addr then s.pushStatus entry.addr status message else s) s

def relayStatus (status : PoolStatusUpdate) (message : PoolMessage) : Server :=
  let nDisconnected := s.vecEntries.countP fun entry => !ctx.connected entry.addr
  let s1 := s.pushStatusAll ctx status message
  if nDisconnected = 0 then s1
  else
    let s2 := s1.pushStatusAll ctx .STATUS_REJECTED .MSG_NOERR
    if nDisconnected = s2.vecEntries.length then s2.setNull ctx else s2

/-- Each participant gets a message, up to the first that is not connected. -/
def relayEach (message : Service → Action) : List Entry → Server → Server
  | [], s => s
  | entry :: entries, s =>
    if ctx.connected entry.addr then relayEach message entries (s.act (message entry.addr))
    else s.relayStatus ctx .STATUS_REJECTED .MSG_NOERR

def relayFinalTransaction (txFinal : MutableTransaction) : Server :=
  relayEach ctx (fun addr => .finalTx addr s.nSessionID txFinal) s.vecEntries s

def relayCompletedTransaction (message : PoolMessage) : Server :=
  relayEach ctx (fun addr => .complete addr s.nSessionID message) s.vecEntries s

def inputs : List TxDSIn := s.vecEntries.flatMap Entry.vecTxDSIn

def outputs : List TxOut := s.vecEntries.flatMap Entry.vecTxOut

def createFinalTransaction : Server :=
  let txNew : MutableTransaction :=
    { vin := (s.inputs.map TxDSIn.toTxIn).insertionSort fun a b => !compareInputBIP69 b a
      vout := s.outputs.insertionSort fun a b => !compareOutputBIP69 p b a }
  let s := ({ s with finalMutableTransaction := txNew } : Server).setState ctx .signing
  s.relayFinalTransaction ctx s.finalMutableTransaction

/-- The loop of `ChargeRandomFees`, from a place in the collaterals on. -/
def chargeRandomFees : List MutableTransaction → Nat → Server → Server
  | [], _, s => s
  | txCollateral :: rest, i, s =>
    if 10 < ctx.randFee i then s
    else chargeRandomFees rest (i + 1) (s.act (.submitCollateral txCollateral))

def commitFinalTransaction : Server :=
  let tx := s.finalMutableTransaction
  let s := s.act (.submitFinal tx)
  if !(ctx.lockMain && ctx.accepts tx) then
    (s.setNull ctx).relayCompletedTransaction ctx .ERR_INVALID_TX
  else
    let s := s.relayCompletedTransaction ctx .MSG_SUCCESS
    (chargeRandomFees ctx s.vecSessionCollaterals 0 s).setNull ctx

def isSignaturesComplete : Bool := s.inputs.all TxDSIn.fHasSig

def checkPool : Server :=
  if s.nState = .acceptingEntries ∧ s.nSessionMaxParticipants ≤ s.vecEntries.length then
    s.createFinalTransaction p ctx
  else if s.nState = .signing ∧ s.isSignaturesComplete then s.commitFinalTransaction ctx
  else s

def offenders : List MutableTransaction :=
  match s.nState with
  | .acceptingEntries => s.vecSessionCollaterals.filter fun txCollateral =>
      !s.vecEntries.any fun entry => entry.txCollateral = txCollateral
  | .signing => s.vecEntries.flatMap fun entry =>
      (entry.vecTxDSIn.filter fun txdsin => !txdsin.fHasSig).map fun _ => entry.txCollateral
  | _ => []

def chargeFees : Server :=
  if 33 < ctx.randCharge then s
  else
    let vecOffendersCollaterals := s.offenders
    if vecOffendersCollaterals.isEmpty then s
    else if s.nSessionMaxParticipants ≤ vecOffendersCollaterals.length + 1 ∧
        33 < ctx.randChargeAll then s
    else if s.nSessionMaxParticipants ≤ vecOffendersCollaterals.length then s
    else
      match vecOffendersCollaterals[ctx.randOffender % vecOffendersCollaterals.length]? with
      | none => s
      | some txCollateral => s.act (.submitCollateral txCollateral)

def isSessionReady : Bool :=
  s.nSessionMaxParticipants != 0 && s.nSessionMaxParticipants ≤ s.vecSessionCollaterals.length

def isOutputsCompatibleWithSessionDenom (vecTxOut : List TxOut) : Bool :=
  getDenominations vecTxOut != 0 &&
    s.vecEntries.all fun entry => getDenominations vecTxOut == getDenominations entry.vecTxOut

/-- `AddEntry`; an entry that is refused comes with the message for its sender. -/
def addEntry (entryNew : Entry) : Run (Except PoolMessage Server) :=
  if entryNew.vecTxDSIn.any fun txin => txin.prevout = .null then .ok (.error .ERR_INVALID_INPUT)
  else do
    if !(← ctx.isCollateralValid entryNew.txCollateral) then
      return .error .ERR_INVALID_COLLATERAL
    else if s.nSessionMaxParticipants ≤ s.vecEntries.length then return .error .ERR_ENTRIES_FULL
    else if entryNew.vecTxDSIn.any fun txin =>
        s.inputs.any fun txdsin => txdsin.prevout = txin.prevout then
      return .error .ERR_ALREADY_HAVE
    else return .ok { s with vecEntries := s.vecEntries ++ [entryNew] }

/-- `IsInputScriptSigValid`: in the transaction put together from the entries, the last input with
the outpoint is checked. -/
def isInputScriptSigValid (txin : TxIn) : Bool :=
  match (s.inputs.zipIdx.filter fun x => x.1.prevout = txin.prevout).getLast? with
  | none => false
  | some (txdsin, nTxInIndex) =>
    let txNew : MutableTransaction :=
      { vin := (s.inputs.map TxDSIn.toTxIn).modify nTxInIndex fun x =>
          { x with scriptSig := txin.scriptSig }
        vout := s.outputs }
    p.verifyScript txin.scriptSig txdsin.prevPubKey txNew nTxInIndex

def signInput (txin : TxIn) : List TxDSIn → Option (List TxDSIn)
  | [] => none
  | txdsin :: rest =>
    if txdsin.prevout = txin.prevout ∧ txdsin.nSequence = txin.nSequence then
      if txdsin.fHasSig then none
      else some ({ txdsin with scriptSig := txin.scriptSig, fHasSig := true } :: rest)
    else (signInput txin rest).map (txdsin :: ·)

/-- The entries after the first one whose `AddScriptSig` succeeds. -/
def signEntries (txin : TxIn) : List Entry → Option (List Entry)
  | [] => none
  | entry :: rest =>
    match signInput txin entry.vecTxDSIn with
    | some vecTxDSIn => some ({ entry with vecTxDSIn } :: rest)
    | none => (signEntries txin rest).map (entry :: ·)

def signFinal (txin : TxIn) (tx : MutableTransaction) : MutableTransaction :=
  { tx with vin := tx.vin.map fun x =>
      if x.prevout = txin.prevout ∧ x.nSequence = txin.nSequence then
        { x with scriptSig := txin.scriptSig }
      else x }

def addScriptSig (txinNew : TxIn) : Bool × Server :=
  if s.inputs.any fun txdsin => txdsin.scriptSig = txinNew.scriptSig then (false, s)
  else if !s.isInputScriptSigValid p txinNew then (false, s)
  else
    let s := { s with
      finalMutableTransaction := signFinal txinNew s.finalMutableTransaction }
    match signEntries txinNew s.vecEntries with
    | some vecEntries => (true, { s with vecEntries })
    | none => (false, s)

def isAcceptableDSA (dsa : Accept) : Run (Except PoolMessage Unit) := do
  if (getDenominationsBits dsa.nDenom).isNone then return .error .ERR_DENOM
  else if !(← ctx.isCollateralValid dsa.txCollateral) then return .error .ERR_INVALID_COLLATERAL
  else return .ok ()

/-- `CreateNewSession`, for a server without a session. -/
def createNewSession (dsa : Accept) : Run (Except PoolMessage Server) :=
  if s.nState ≠ .idle then .ok (.error .ERR_MODE)
  else do
    match ← isAcceptableDSA ctx dsa with
    | .error message => return .error message
    | .ok () =>
      let s := ({ s with
        nSessionID := ctx.randSessionID % 999999 + 1
        nSessionDenom := dsa.nDenom
        nSessionMaxParticipants := p.poolMinParticipants +
          ctx.randParticipants % (p.poolMaxParticipants - p.poolMinParticipants + 1) } : Server)
      let s := s.setState ctx .queue
      let dsq : Queue := ⟨s.nSessionDenom, p.outpoint, ctx.getAdjustedTime, false⟩
      let s := s.act (.queue dsq)
      return .ok { s with
        vecExclusiveSendQueue := s.vecExclusiveSendQueue ++ [dsq]
        vecSessionCollaterals := s.vecSessionCollaterals ++ [dsa.txCollateral] }

/-- `AddUserToExistingSession`, for a session that is not ready. -/
def addUserToExistingSession (dsa : Accept) : Run (Except PoolMessage Server) := do
  match ← isAcceptableDSA ctx dsa with
  | .error message => return .error message
  | .ok () =>
    if s.nState ≠ .queue then return .error .ERR_MODE
    else if dsa.nDenom ≠ s.nSessionDenom then return .error .ERR_DENOM
    else return .ok { s with
      vecSessionCollaterals := s.vecSessionCollaterals ++ [dsa.txCollateral] }

structure Peer where
  addr : Service
  nVersion : Nat

def MIN_EXCLUSIVESEND_PEER_PROTO_VERSION : Nat := 70213

def EXCLUSIVESEND_ENTRY_MAX_SIZE : Nat := 9

def EXCLUSIVESEND_QUEUE_TIMEOUT : Int := 30

def EXCLUSIVESEND_SIGNING_TIMEOUT : Int := 15

def answer (peer : Peer) : Except PoolMessage Server → PoolMessage → Server
  | .ok s', message => s'.pushStatus peer.addr .STATUS_ACCEPTED message
  | .error message, _ => s.pushStatus peer.addr .STATUS_REJECTED message

/-- `DSACCEPT` -/
def processAccept (peer : Peer) (dsa : Accept) : Run Server :=
  if peer.nVersion < MIN_EXCLUSIVESEND_PEER_PROTO_VERSION then
    .ok ((s.act (.rejectObsolete peer.addr)).pushStatus peer.addr .STATUS_REJECTED .ERR_VERSION)
  else if s.isSessionReady then .ok (s.pushStatus peer.addr .STATUS_ACCEPTED .ERR_QUEUE_FULL)
  else if !ctx.isValidMN then .ok (s.pushStatus peer.addr .STATUS_REJECTED .ERR_MN_LIST)
  else if s.vecSessionCollaterals.isEmpty ∧ !ctx.lockQueue then .ok s
  else if s.vecSessionCollaterals.isEmpty ∧
      ((s.vecExclusiveSendQueue.any fun q => q.masternodeOutpoint = p.outpoint) ∨
        ctx.lastDsqTooRecent) then
    .ok (s.pushStatus peer.addr .STATUS_REJECTED .ERR_RECENT)
  else do
    let fResult ← if s.nSessionID = 0 then s.createNewSession p ctx dsa
      else s.addUserToExistingSession ctx dsa
    return s.answer peer fResult .MSG_NOERR

def outputError (txout : TxOut) : Option PoolMessage :=
  if p.scriptSize txout.scriptPubKey ≠ 25 then some .ERR_NON_STANDARD_PUBKEY
  else if !txout.scriptPubKey.isPayToPublicKeyHash then some .ERR_INVALID_SCRIPT
  else none

def entryError (entry : Entry) : Run (Option PoolMessage) :=
  if EXCLUSIVESEND_ENTRY_MAX_SIZE < entry.vecTxDSIn.length then .ok (some .ERR_MAXIMUM)
  else if EXCLUSIVESEND_ENTRY_MAX_SIZE < entry.vecTxOut.length then .ok (some .ERR_MAXIMUM)
  else if !s.isOutputsCompatibleWithSessionDenom entry.vecTxOut then .ok (some .ERR_EXISTING_TX)
  else
    match entry.vecTxOut.findSome? (outputError p) with
    | some message => .ok (some message)
    | none => do
      match ← ctx.valueIn (entry.vecTxDSIn.map TxDSIn.toTxIn) with
      | none => return some .ERR_MISSING_TX
      | some nValueIn =>
        return if nValueIn - valueOut entry.vecTxOut ≠ 0 then some .ERR_FEES else none

/-- `DSVIN` -/
def processVin (peer : Peer) (data : EntryData) : Run Server :=
  if peer.nVersion < MIN_EXCLUSIVESEND_PEER_PROTO_VERSION then
    .ok ((s.act (.rejectObsolete peer.addr)).pushStatus peer.addr .STATUS_REJECTED .ERR_VERSION)
  else if !s.isSessionReady then .ok (s.pushStatus peer.addr .STATUS_REJECTED .ERR_SESSION)
  else do
    let entry := data.deserialize
    match ← s.entryError p ctx entry with
    | some message => return s.pushStatus peer.addr .STATUS_REJECTED message
    | none =>
      match ← s.addEntry ctx { entry with addr := peer.addr } with
      | .error message => return s.pushStatus peer.addr .STATUS_REJECTED message
      | .ok s =>
        let s := s.pushStatus peer.addr .STATUS_ACCEPTED .MSG_ENTRIES_ADDED
        return (s.checkPool p ctx).relayStatus ctx .STATUS_ACCEPTED .MSG_NOERR

/-- `DSSIGNFINALTX`, from an input of the message on. -/
def processSignFinalTx : List TxIn → Server → Server
  | [], s => s.checkPool p ctx
  | txin :: rest, s =>
    match s.addScriptSig p txin with
    | (true, s) => processSignFinalTx rest s
    | (false, s) => s.relayStatus ctx .STATUS_REJECTED .MSG_NOERR

inductive Message where
  | dsaccept (dsa : Accept)
  | dsvin (entry : EntryData)
  | dssignfinaltx (vecTxIn : List TxIn)

def processMessage (peer : Peer) : Message → Run Server
  | .dsaccept dsa => s.processAccept p ctx peer dsa
  | .dsvin entry => s.processVin p ctx peer entry
  | .dssignfinaltx vecTxIn =>
    if peer.nVersion < MIN_EXCLUSIVESEND_PEER_PROTO_VERSION then
      .ok (s.act (.rejectObsolete peer.addr))
    else .ok (processSignFinalTx p ctx vecTxIn s)

def checkQueue : Server :=
  if !ctx.lockQueue then s
  else { s with vecExclusiveSendQueue := s.vecExclusiveSendQueue.filter fun q =>
    !(EXCLUSIVESEND_QUEUE_TIMEOUT < ctx.getAdjustedTime - q.nTime) }

def checkTimeout : Server :=
  if s.nState = .idle then s
  else
    let s := s.checkQueue ctx
    let nTimeout := if s.nState = .signing then EXCLUSIVESEND_SIGNING_TIMEOUT
      else EXCLUSIVESEND_QUEUE_TIMEOUT
    if ctx.getTime - s.nTimeLastSuccessfulStep < nTimeout then s
    else if s.nState = .queue ∧ p.poolMinParticipants ≤ s.vecSessionCollaterals.length then
      { s with nSessionMaxParticipants := s.vecSessionCollaterals.length }
    else if s.nState = .acceptingEntries ∧ p.poolMinParticipants ≤ s.vecEntries.length then
      let s := s.chargeFees ctx
      ({ s with nSessionMaxParticipants := s.vecEntries.length } : Server).checkPool p ctx
    else (s.chargeFees ctx).setNull ctx

def checkForCompleteQueue : Server :=
  if s.nState = .queue ∧ s.isSessionReady then
    let s := s.setState ctx .acceptingEntries
    s.act (.queue ⟨s.nSessionDenom, p.outpoint, ctx.getAdjustedTime, true⟩)
  else s

def doMaintenance : Server := (s.checkTimeout p ctx).checkForCompleteQueue p ctx

inductive Event where
  | message (peer : Peer) (message : Message)
  | maintenance

/-- Nothing happens until the blockchain is synced. -/
def step (s : Server) (e : Context × Event) : Run Server :=
  if !e.1.isBlockchainSynced then .ok s
  else
    match e.2 with
    | .message peer message => s.processMessage p e.1 peer message
    | .maintenance => .ok (s.doMaintenance p e.1)

def run (events : List (Context × Event)) : Run Server := events.foldlM (step p) s

end Server
end Trivechain.ExclusiveSend
