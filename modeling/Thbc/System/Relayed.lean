import Thbc.Ledger.Bridge
import Thbc.Lib.Expand
import Thbc.System.Durable

/-!
# The services over the bridge

In a deployment a call of the ledger is no single step: `relay` puts the exchanges of
`ChainBridgeLedger` in its place, and a call then is a program that asks the broker
where it asked the ledger. Calls overlap between any two of these requests, and may
stop there; the broker answers as it likes.

The tables are the only thing that calls share, and an exchange does not touch them
(`carries_relay`). So what holds of the tables and the log of port calls, whatever the
ledger answers, holds here as well (`tracks_run`). Beside it stands what the broker was
told: a message says no more and no less than the port call it is published for
(`uses_messages`), and a confirmed write has been acknowledged and replied to on the subject
that the message names (`issue_receipt`,
`confirm_receipt`).
-/

namespace Thbc.Relayed

open Thbc.Lib Thbc.ChainBridge Thbc.Durable

variable {Auth : Type}

/-- What a deployed call asks of the outside. -/
inductive Wire (Auth : Type) where
  | port (s : Port)
  | broker (b : Broker Auth)

@[reducible] def Wire.Reply : Wire Auth → Type
  | .port s => s.Reply
  | .broker b => b.Reply

/-- An exchange with the broker, as part of a call. -/
def exchange (x : Exchange Auth ConfirmOutcome) :
    Prog (Wire Auth) Wire.Reply (PortResult ConfirmOutcome) :=
  x.run.expand fun b => Prog.call (Wire.broker b)

/-- `LedgerPort` for `ChainBridgeLedger`. Its snapshot is one request here: it reads
nothing that a call writes. -/
def relay (ledger : ChainBridgeLedger Auth) :
    (s : Port) → Prog (Wire Auth) Wire.Reply s.Reply
  | .ledger (.issue beneficiary amount nullifier) =>
      exchange (ledger.issue beneficiary amount nullifier)
  | .ledger (.escrowRedemption redemption) =>
      exchange (ChainBridgeLedger.escrowRedemption redemption)
  | .ledger (.confirmRedemption user seq) => exchange (ledger.confirmRedemption user seq)
  | .ledger (.reclaimRedemption user seq) =>
      exchange (ChainBridgeLedger.reclaimRedemption user seq)
  | .ledger (.updateAttestation reserve encumbered) =>
      exchange (ledger.updateAttestation reserve encumbered)
  | s => Prog.call (Wire.port s)

/-- What a request meets. -/
structure Moment (Auth : Type) where
  rest : Conditions
  broker : (b : Broker Auth) → b.Reply

section Execution

variable [Sha256]

def exec : Handler (Wire Auth) Wire.Reply (Moment Auth) Tables
  | e, .port s, w => Durable.exec e.rest s w
  | e, .broker b, w => (e.broker b, w)

abbrev Calls (Auth : Type) : Type :=
  Pool (Wire Auth) Wire.Reply (PortResult CallOutcome) Tables

/-- All calls at their beginning, their port calls carried out by `adapters`. -/
def Calls.start (adapters : (s : Port) → Prog (Wire Auth) Wire.Reply s.Reply)
    (deltaSecs : Int64) (calls : List Call) (w : Tables) : Calls Auth :=
  Pool.start ((calls.map (Call.prog deltaSecs)).map (Prog.expand adapters)) w

end Execution

/-! ## What is said to the broker -/

/-- The write that a message asks for. -/
def intent : Message Auth → LedgerPort
  | .issueThbc m => .issue m.beneficiaryWallet ⟨m.amountMinor⟩ m.bankRefHash
  | .confirmRedemption m => .confirmRedemption m.userWallet m.seq
  | .updateAttestation m =>
      .updateAttestation ⟨m.attestedReserveMinor⟩ ⟨m.reserveEncumberedMinor⟩

/-- The key under which a write is sent; the others are not sent. -/
def keyOf : LedgerPort → String
  | .issue _ _ nullifier => ChainBridgeLedger.issueKey nullifier
  | .confirmRedemption user seq => ChainBridgeLedger.confirmKey user seq
  | _ => ""

def subjectOf (ledger : ChainBridgeLedger Auth) : LedgerPort → String
  | .issue .. => ledger.issueThbcSubject
  | .confirmRedemption .. => ledger.confirmRedemptionSubject
  | _ => ledger.attestSubject

/-- What is published for a port call is that port call, under its key. -/
def Says (ledger : ChainBridgeLedger Auth) (s : Port) : Wire Auth → Prop
  | .broker (.publish subject m) => s = .ledger (intent m) ∧
      m.idempotencyKey = keyOf (intent m) ∧ subject = subjectOf ledger (intent m)
  | _ => True

section Exchange

variable {ledger : ChainBridgeLedger Auth} {subject replySubject : String}
  {msg : Message Auth}

theorem uses_request {N : Broker Auth → Prop} (hsubscribe : N (.subscribe replySubject))
    (hencode : N (.encode msg)) (hpublish : N (.publish subject msg)) (hack : N (.ack subject))
    (hnext : N (.next replySubject ledger.confirmTimeoutSecs)) :
    (ledger.request subject msg replySubject).run.Uses N := by
  have hlift : ∀ b : Broker Auth, N b →
      (ExceptT.lift (Prog.call b) : Exchange Auth b.Reply).run.Uses N :=
    fun b hb => ⟨hb, fun _ => trivial⟩
  refine uses_run_bind (hlift _ hsubscribe) fun subscribed =>
    uses_run_bind trivial fun _ => uses_run_bind (hlift _ hencode) fun encoded =>
    uses_run_bind trivial fun _ => uses_run_bind (hlift _ hpublish) fun published =>
    uses_run_bind trivial fun _ => uses_run_bind (hlift _ hack) fun acked =>
    uses_run_bind trivial fun _ => uses_run_bind (hlift _ hnext) fun next => ?_
  cases next with
  | none => trivial
  | some reply => exact uses_run_bind trivial fun _ => trivial

theorem uses_exchange {x : Exchange Auth ConfirmOutcome} {N : Wire Auth → Prop}
    (hx : x.run.Uses fun b => N (.broker b)) : (exchange x).Uses N :=
  uses_expand hx fun _ hb => uses_call hb

/-- A message stands for the port call that it is published for. -/
theorem uses_messages (ledger : ChainBridgeLedger Auth) (s : Port) :
    (relay ledger s).Uses (Says ledger s) := by
  cases s with
  | ledger m =>
      cases m with
      | snapshot => exact uses_call trivial
      | issue beneficiary amount nullifier =>
          refine uses_exchange ⟨trivial, fun id => ⟨trivial, fun now => ?_⟩⟩
          exact uses_run_bind (uses_request trivial trivial ⟨rfl, rfl, rfl⟩ trivial trivial)
            fun _ => trivial
      | escrowRedemption redemption => exact uses_exchange trivial
      | confirmRedemption user seq =>
          refine uses_exchange ⟨trivial, fun id => ⟨trivial, fun now => ?_⟩⟩
          exact uses_run_bind (uses_request trivial trivial ⟨rfl, rfl, rfl⟩ trivial trivial)
            fun _ => trivial
      | reclaimRedemption user seq => exact uses_exchange trivial
      | updateAttestation reserve encumbered =>
          refine uses_exchange ⟨trivial, fun id => ⟨trivial, fun now => ?_⟩⟩
          exact uses_run_bind (uses_request trivial trivial ⟨rfl, rfl, rfl⟩ trivial trivial)
            fun _ => trivial
  | _ => exact uses_call trivial

/-! ## A confirmed write -/

/-- The bridge has confirmed a message, on the subject that the message names. -/
structure Confirmed (ledger : ChainBridgeLedger Auth) (subject : String) (m : Message Auth)
    (l : List (Act (Broker Auth) Broker.Reply)) : Prop where
  subscribed : ⟨.subscribe m.replySubject, .ok ()⟩ ∈ l
  published : ⟨.publish subject m, .ok ()⟩ ∈ l
  acked : ⟨.ack subject, .ok ()⟩ ∈ l
  replied : ⟨.next m.replySubject ledger.confirmTimeoutSecs, some (.ok ⟨.confirmed⟩)⟩ ∈ l

theorem tried_ok {α : Type} {wrap : String → PortError} {answer : Except String α}
    {l : List (Act (Broker Auth) Broker.Reply)} {a : α}
    (h : (tried wrap answer : Exchange Auth α).run.Yields l (.ok a)) :
    l = [] ∧ answer = .ok a := by
  refine ⟨h.1, ?_⟩
  cases answer with
  | ok a' => exact congrArg Except.ok (Except.ok.inj h.2)
  | error e => cases h.2

theorem asked_ok {α : Type} {b : Broker Auth} {answer : b.Reply → Except String Unit}
    {wrap : String → PortError} {f : Exchange Auth α}
    {l : List (Act (Broker Auth) Broker.Reply)} {a : α}
    (h : (ExceptT.lift (Prog.call b) >>= fun r => tried wrap (answer r) >>= fun _ =>
      f).run.Yields l (.ok a)) :
    ∃ r l', l = ⟨b, r⟩ :: l' ∧ answer r = .ok () ∧ f.run.Yields l' (.ok a) := by
  obtain ⟨_, l₁, r, rfl, hcall, h₁⟩ := yields_run_bind h
  obtain rfl := yields_lift_call hcall
  obtain ⟨_, l₂, _, rfl, htried, h₂⟩ := yields_run_bind h₁
  obtain ⟨rfl, hr⟩ := tried_ok htried
  exact ⟨r, l₂, rfl, hr, h₂⟩

theorem mapReply_confirmed {reply : Option ResultMessage}
    (h : ChainBridgeLedger.mapReply reply = .confirmed) : reply = some ⟨.confirmed⟩ := by
  unfold ChainBridgeLedger.mapReply at h
  split at h
  all_goals first | rfl | cases h

/-- A confirmed request has had all of its answers. -/
theorem request_confirmed {l : List (Act (Broker Auth) Broker.Reply)} {reply}
    (h : (ledger.request subject msg msg.replySubject).run.Yields l (.ok reply))
    (hreply : ChainBridgeLedger.mapReply reply = .confirmed) :
    Confirmed ledger subject msg l := by
  obtain rfl := mapReply_confirmed hreply
  obtain ⟨_, l₁, rfl, rfl, h₁⟩ := asked_ok h
  obtain ⟨_, l₂, rfl, rfl, h₂⟩ := asked_ok h₁
  obtain ⟨_, l₃, rfl, rfl, h₃⟩ := asked_ok h₂
  obtain ⟨_, l₄, rfl, rfl, h₄⟩ := asked_ok h₃
  obtain ⟨_, l₅, next, rfl, hnext, h₅⟩ := yields_run_bind h₄
  obtain rfl := yields_lift_call hnext
  cases next with
  | none => cases h₅.2
  | some answer =>
      obtain ⟨_, _, decoded, rfl, hdecoded, h₆⟩ := yields_run_bind h₅
      obtain ⟨rfl, rfl⟩ := tried_ok hdecoded
      obtain rfl : decoded = ⟨.confirmed⟩ := Option.some.inj (Except.ok.inj h₆.2)
      refine ⟨?_, ?_, ?_, ?_⟩ <;> simp

theorem yields_exchange {x : Exchange Auth ConfirmOutcome}
    {l : List (Act (Wire Auth) Wire.Reply)} {r : PortResult ConfirmOutcome}
    (h : (exchange x).Yields l r) :
    ∃ l₀, x.run.Yields l₀ r ∧ ∀ a ∈ l₀, (⟨.broker a.1, a.2⟩ : Act (Wire Auth) Wire.Reply) ∈ l := by
  unfold exchange at h
  generalize x.run = p at h ⊢
  induction p generalizing l with
  | pure a =>
      obtain ⟨-, rfl⟩ := h
      exact ⟨[], ⟨rfl, rfl⟩, fun a ha => absurd ha List.not_mem_nil⟩
  | request b k ih =>
      obtain ⟨answer, l', rfl, h⟩ := h
      obtain ⟨l₀, hl₀, hmem⟩ := ih answer h
      refine ⟨⟨b, answer⟩ :: l₀, ⟨answer, l₀, rfl, hl₀⟩, fun a ha => ?_⟩
      obtain rfl | ha := List.mem_cons.mp ha
      · exact List.mem_cons_self
      · exact List.mem_cons_of_mem _ (hmem a ha)

/-- A program has had the bridge confirm the write, with a message that asks for it. -/
def Receipt (ledger : ChainBridgeLedger Auth) (log : List (ℕ × Act (Wire Auth) Wire.Reply))
    (m : LedgerPort) : Prop :=
  ∃ i msg l, intent msg = m ∧ msg.idempotencyKey = keyOf m ∧
    Confirmed ledger (subjectOf ledger m) msg l ∧
    ∀ a ∈ l, (i, (⟨.broker a.1, a.2⟩ : Act (Wire Auth) Wire.Reply)) ∈ log

theorem receipt_of_request {log : List (ℕ × Act (Wire Auth) Wire.Reply)} {i : ℕ} {m : LedgerPort}
    {l : List (Act (Broker Auth) Broker.Reply)} (hintent : intent msg = m)
    (hkey : msg.idempotencyKey = keyOf m)
    (h : (ledger.request (subjectOf ledger m) msg msg.replySubject >>= fun reply =>
      pure (ChainBridgeLedger.mapReply reply)).run.Yields l (.ok .confirmed))
    (hlog : ∀ a ∈ l, (i, (⟨.broker a.1, a.2⟩ : Act (Wire Auth) Wire.Reply)) ∈ log) :
    Receipt ledger log m := by
  obtain ⟨l₁, l₂, reply, rfl, hreply, -, houtcome⟩ := yields_run_bind h
  exact ⟨i, msg, l₁, hintent, hkey, request_confirmed hreply (Except.ok.inj houtcome),
    fun a ha => hlog a (List.mem_append_left _ ha)⟩

theorem issue_receipt {log : List (ℕ × Act (Wire Auth) Wire.Reply)} {i : ℕ}
    {l : List (Act (Wire Auth) Wire.Reply)} {beneficiary : String} {amount : Thb}
    {nullifier : BankRefHash}
    (h : (relay ledger (.ledger (.issue beneficiary amount nullifier))).Yields l
      (.ok .confirmed)) (hlog : ∀ a ∈ l, (i, a) ∈ log) :
    Receipt ledger log (.issue beneficiary amount nullifier) := by
  obtain ⟨l₀, ⟨id, l₁, rfl, at', l₂, rfl, hrequest⟩, hmem⟩ := yields_exchange h
  exact receipt_of_request rfl rfl hrequest fun a ha =>
    hlog _ (hmem a (List.mem_cons_of_mem _ (List.mem_cons_of_mem _ ha)))

theorem confirm_receipt {log : List (ℕ × Act (Wire Auth) Wire.Reply)} {i : ℕ}
    {l : List (Act (Wire Auth) Wire.Reply)} {user : String} {seq : UInt64}
    (h : (relay ledger (.ledger (.confirmRedemption user seq))).Yields l (.ok .confirmed))
    (hlog : ∀ a ∈ l, (i, a) ∈ log) : Receipt ledger log (.confirmRedemption user seq) := by
  obtain ⟨l₀, ⟨id, l₁, rfl, at', l₂, rfl, hrequest⟩, hmem⟩ := yields_exchange h
  exact receipt_of_request rfl rfl hrequest fun a ha =>
    hlog _ (hmem a (List.mem_cons_of_mem _ (List.mem_cons_of_mem _ ha)))

end Exchange

/-! ## An exchange leaves the tables alone -/

section Carries

variable [Sha256] {ledger : ChainBridgeLedger Auth}

theorem carries_exchange {x : Exchange Auth ConfirmOutcome}
    {does : Tables → PortResult ConfirmOutcome → Tables → Prop} (hdoes : ∀ b w, does w b w) :
    (exchange x).Carries exec id does :=
  Prog.Uses.carries (N := fun x => ∃ b, x = .broker b)
    (uses_exchange ((uses_any _).mono fun b _ => ⟨b, rfl⟩))
    (fun e x w ⟨b, hx⟩ => by rw [hx]; rfl) hdoes

/-- The ports that the tables do not decide. -/
def Open : Port → Prop
  | .deposits _ | .redemptions _ | .history _ => False
  | _ => True

theorem exec_open {s : Port} (hs : Open s) (b : s.Reply) (w : Tables) :
    ∃ e, Durable.exec e s w = (b, w) := by
  refine ⟨{ ample with answer := Function.update ample.answer s b }, ?_⟩
  have hanswer : Function.update ample.answer s b s = b := Function.update_self _ _ _
  cases s with
  | deposits m => exact hs.elim
  | redemptions m => exact hs.elim
  | history m => exact hs.elim
  | _ => exact Prod.ext hanswer rfl

theorem carries_relay (ledger : ChainBridgeLedger Auth) (s : Port) :
    (relay ledger s).Carries exec id fun w b w' => ∃ e, Durable.exec e s w = (b, w') := by
  cases s with
  | ledger m =>
      have hany := exec_open (s := .ledger m) trivial
      cases m with
      | snapshot => exact carries_call fun e w => ⟨e.rest, rfl⟩
      | _ => exact carries_exchange hany
  | _ => exact carries_call fun e w => ⟨e.rest, rfl⟩

end Carries

end Thbc.Relayed
