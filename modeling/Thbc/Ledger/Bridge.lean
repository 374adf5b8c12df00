import Thbc.Ledger.ChainBridge
import Thbc.Lib.Run

/-!
# Writes of the real ledger

`ChainBridgeLedger` of `crates/thbc-ledger/src/chain_bridge.rs`, less its snapshot. A
write is an exchange with the broker: subscribe to the subject of the reply, publish
the message, wait for the broker's acknowledgement, wait for the reply. What the
broker, the serializer, the clock and the id generator answer is left open, and so is
the signature, which is a parameter; the schema's types of the three replies are cut
down to what the ledger goes by. The three subjects are constants of a schema that is
not here.
-/

namespace Thbc.ChainBridge

open Thbc.Lib

/-- What the bridge says became of a transaction. -/
inductive IssueOutcome where
  | confirmed
  | pending
  | failed
  deriving DecidableEq

/-- A reply of the bridge. -/
structure ResultMessage where
  outcome : IssueOutcome
  deriving DecidableEq

structure IssueThbcMessage (Auth : Type) where
  correlationId : String
  idempotencyKey : String
  replySubject : String
  beneficiaryWallet : String
  amountMinor : UInt64
  bankRefHash : BankRefHash
  serviceIdentity : String
  createdAtMs : UInt64
  auth : Option Auth

structure ConfirmRedemptionMessage (Auth : Type) where
  correlationId : String
  idempotencyKey : String
  replySubject : String
  userWallet : String
  seq : UInt64
  serviceIdentity : String
  createdAtMs : UInt64
  auth : Option Auth

structure UpdateAttestationMessage (Auth : Type) where
  correlationId : String
  idempotencyKey : String
  replySubject : String
  attestedReserveMinor : UInt64
  reserveEncumberedMinor : UInt64
  serviceIdentity : String
  createdAtMs : UInt64
  auth : Option Auth

inductive Message (Auth : Type) where
  | issueThbc (m : IssueThbcMessage Auth)
  | confirmRedemption (m : ConfirmRedemptionMessage Auth)
  | updateAttestation (m : UpdateAttestationMessage Auth)

namespace Message

variable {Auth : Type}

def idempotencyKey : Message Auth → String
  | .issueThbc m => m.idempotencyKey
  | .confirmRedemption m => m.idempotencyKey
  | .updateAttestation m => m.idempotencyKey

def replySubject : Message Auth → String
  | .issueThbc m => m.replySubject
  | .confirmRedemption m => m.replySubject
  | .updateAttestation m => m.replySubject

end Message

/-- How long to wait for a confirmed outcome, in seconds. -/
def confirmTimeoutSecs : UInt64 := 90

/-- The ledger as it is connected. -/
structure ChainBridgeLedger (Auth : Type) where
  config : ChainBridgeConfig
  confirmTimeoutSecs : UInt64
  serviceIdentity : String
  issueThbcSubject : String
  confirmRedemptionSubject : String
  attestSubject : String
  /-- `EnvelopeSigner::sign` on the canonical bytes of a message. -/
  signer : Option (Message Auth → Auth)

/-- What a write asks of the outside. -/
inductive Broker (Auth : Type) where
  | newV4
  | nowMs
  | subscribe (subject : String)
  | encode (msg : Message Auth)
  | publish (subject : String) (msg : Message Auth)
  | ack (subject : String)
  /-- The next message, unless the time is up or the subscription is closed. -/
  | next (subject : String) (timeoutSecs : UInt64)

@[reducible] def Broker.Reply {Auth : Type} : Broker Auth → Type
  | .newV4 => String
  | .nowMs => UInt64
  | .subscribe _ => Except String Unit
  | .encode _ => Except String Unit
  | .publish .. => Except String Unit
  | .ack _ => Except String Unit
  | .next .. => Option (Except String ResultMessage)

/-- A write, which may end in a `PortError`. -/
abbrev Exchange (Auth α : Type) : Type :=
  ExceptT PortError (Prog (Broker Auth) Broker.Reply) α

variable {Auth : Type}

/-- `map_err`, on what the broker answers. -/
def tried {α : Type} (wrap : String → PortError) (answer : Except String α) :
    Exchange Auth α :=
  ExceptT.mk (pure (answer.mapError wrap))

namespace ChainBridgeLedger

/-- Publish a message and await the bridge's reply on `replySubject`. That none comes
is no error. -/
def request (ledger : ChainBridgeLedger Auth) (subject : String) (msg : Message Auth)
    (replySubject : String) : Exchange Auth (Option ResultMessage) := do
  let subscribed ← ExceptT.lift (Prog.call (.subscribe replySubject))
  tried (fun e => .transient s!"subscribe {replySubject}: {e}") subscribed
  let encoded ← ExceptT.lift (Prog.call (.encode msg))
  tried (fun e => .rejected s!"encode {subject}: {e}") encoded
  let published ← ExceptT.lift (Prog.call (.publish subject msg))
  tried (fun e => .transient s!"publish {subject}: {e}") published
  let acked ← ExceptT.lift (Prog.call (.ack subject))
  tried (fun e => .transient s!"publish ack {subject}: {e}") acked
  let next : Option (Except String ResultMessage) ←
    ExceptT.lift (Prog.call (.next replySubject ledger.confirmTimeoutSecs : Broker Auth))
  match next with
  | none => return none
  | some reply =>
      let decoded ← tried (fun e => .transient s!"decode reply on {replySubject}: {e}") reply
      return some decoded

/-- No reply is unknown, not failed. The three maps of the source are this one. -/
def mapReply : Option ResultMessage → ConfirmOutcome
  | some ⟨.confirmed⟩ => .confirmed
  | some ⟨.pending⟩ => .submitted
  | some ⟨.failed⟩ => .failed
  | none => .submitted

def mapIssueReply : Option ResultMessage → ConfirmOutcome := mapReply

def mapConfirmRedeemReply : Option ResultMessage → ConfirmOutcome := mapReply

def mapAttestReply : Option ResultMessage → ConfirmOutcome := mapReply

/-- Stable for a logical issuance. -/
def issueKey (nullifier : BankRefHash) : String := "issue:" ++ nullifier.toHex

/-- Stable for a logical confirmation. -/
def confirmKey (user : String) (seq : UInt64) : String :=
  "confirmredeem:" ++ user ++ ":" ++ toString seq

def issue (ledger : ChainBridgeLedger Auth) (beneficiary : String) (amount : Thb)
    (nullifier : BankRefHash) : Exchange Auth ConfirmOutcome := do
  let correlationId ← ExceptT.lift (Prog.call .newV4)
  let replySubject := s!"chain.issue.result.{correlationId}"
  let createdAtMs ← ExceptT.lift (Prog.call .nowMs)
  let msg : IssueThbcMessage Auth := {
    correlationId
    idempotencyKey := issueKey nullifier
    replySubject
    beneficiaryWallet := beneficiary
    amountMinor := amount.minor
    bankRefHash := nullifier
    serviceIdentity := ledger.serviceIdentity
    createdAtMs
    auth := none }
  let msg := { msg with auth := ledger.signer.map fun sign => sign (.issueThbc msg) }
  let reply ← ledger.request ledger.issueThbcSubject (.issueThbc msg) replySubject
  return mapIssueReply reply

def confirmRedemption (ledger : ChainBridgeLedger Auth) (user : String) (seq : UInt64) :
    Exchange Auth ConfirmOutcome := do
  let correlationId ← ExceptT.lift (Prog.call .newV4)
  let replySubject := s!"chain.confirmredeem.result.{correlationId}"
  let createdAtMs ← ExceptT.lift (Prog.call .nowMs)
  let msg : ConfirmRedemptionMessage Auth := {
    correlationId
    idempotencyKey := confirmKey user seq
    replySubject
    userWallet := user
    seq
    serviceIdentity := ledger.serviceIdentity
    createdAtMs
    auth := none }
  let msg := { msg with auth := ledger.signer.map fun sign => sign (.confirmRedemption msg) }
  let reply ← ledger.request ledger.confirmRedemptionSubject (.confirmRedemption msg)
    replySubject
  return mapConfirmRedeemReply reply

/-- There is no dedup of an attestation. -/
def updateAttestation (ledger : ChainBridgeLedger Auth) (reserve encumbered : Thb) :
    Exchange Auth ConfirmOutcome := do
  let correlationId ← ExceptT.lift (Prog.call .newV4)
  let replySubject := s!"chain.attest.result.{correlationId}"
  let createdAtMs ← ExceptT.lift (Prog.call .nowMs)
  let msg : UpdateAttestationMessage Auth := {
    correlationId
    idempotencyKey := ""
    replySubject
    attestedReserveMinor := reserve.minor
    reserveEncumberedMinor := encumbered.minor
    serviceIdentity := ledger.serviceIdentity
    createdAtMs
    auth := none }
  let msg := { msg with auth := ledger.signer.map fun sign => sign (.updateAttestation msg) }
  let reply ← ledger.request ledger.attestSubject (.updateAttestation msg) replySubject
  return mapAttestReply reply

def escrowRedemption (_ : Redemption) : Exchange Auth ConfirmOutcome :=
  throw (.unsupported ("redeem_thbc_for_fiat exists on-chain but Chain Bridge has no route " ++
    "for it yet. Note it is USER-signed: the bridge would relay a transaction the holder " ++
    "already signed, never construct the signer set itself (F8)"))

def reclaimRedemption (_ : String) (_ : UInt64) : Exchange Auth ConfirmOutcome :=
  throw (.unsupported ("reclaim_redemption exists on-chain but Chain Bridge has no route for " ++
    "it yet; it is USER-signed, so the platform relays and never reclaims on a holder's " ++
    "behalf (F8)"))

end ChainBridgeLedger

end Thbc.ChainBridge
