import Thbc.Proofs.Truthful
import Thbc.Lib.Latch

/-!
# What the reconciler reports

No failure ends the loop: every tick takes place and is reported on. That
reconciliation is not available is said once for each time it becomes so, and said
again only after a run that went through; any other failure is said at each tick. A
report that is returned has been recorded, a redemption that is named past Δ is one
that the repository holds to be due, and no more deposits are said to be issued than
mints have been confirmed to the reconciler itself.
-/

namespace Thbc.Reconciler

open Thbc.Lib Thbc.Service

/-! ## The latch -/

/-- What a reconciliation run does to the latch. -/
def signal : PortResult ReconciliationReport → Signal
  | .ok _ => .clear
  | .error (.unsupported _) => .set
  | .error _ => .none

theorem watch_latch (b : Bool) (r : PortResult ReconciliationReport) :
    (watch b r).1 = (signal r).apply b := by
  cases r with
  | ok report => rfl
  | error e =>
      cases e with
      | unsupported why => cases b <;> rfl
      | _ => rfl

theorem signal_set {r : PortResult ReconciliationReport} :
    signal r = .set ↔ ∃ why, r = .error (.unsupported why) := by
  cases r with
  | ok report => exact ⟨nofun, fun ⟨_, h⟩ => nomatch h⟩
  | error e =>
      cases e with
      | unsupported why => exact ⟨fun _ => ⟨why, rfl⟩, fun _ => rfl⟩
      | _ => exact ⟨nofun, fun ⟨_, h⟩ => nomatch h⟩

theorem signal_clear {r : PortResult ReconciliationReport} :
    signal r = .clear ↔ ∃ report, r = .ok report := by
  cases r with
  | ok report => exact ⟨fun _ => ⟨report, rfl⟩, fun _ => rfl⟩
  | error e =>
      cases e with
      | unsupported why => exact ⟨nofun, fun ⟨_, h⟩ => nomatch h⟩
      | _ => exact ⟨nofun, fun ⟨_, h⟩ => nomatch h⟩

/-- The lines of each tick, under the latch that the ticks before it have left. -/
def Logged : Bool → List (Findings × List LogLine) → Prop
  | _, [] => True
  | b, (f, lines) :: rest => lines = f.lines b ∧ Logged (watch b f.reconciled).1 rest

theorem Logged.at {b : Bool} {out : List (Findings × List LogLine)} (h : Logged b out) {k : ℕ}
    {f : Findings} {lines : List LogLine} (hk : out[k]? = some (f, lines)) :
    lines = f.lines (latched b ((out.take k).map fun t => signal t.1.reconciled)) := by
  induction out generalizing b k with
  | nil => cases hk
  | cons t out ih =>
      obtain ⟨g, ls⟩ := t
      obtain ⟨hfirst, hrest⟩ := h
      cases k with
      | zero =>
          obtain ⟨rfl, rfl⟩ := Prod.mk.inj (Option.some.inj hk)
          exact hfirst
      | succ k =>
          rw [ih hrest hk, watch_latch]
          rfl

theorem unavailable_mem {f : Findings} {b : Bool} {why : String} :
    .unavailable why ∈ f.lines b ↔ f.reconciled = .error (.unsupported why) ∧ b = false := by
  have hretry : .unavailable why ∉ retryLines f.held := by
    unfold retryLines
    split <;> simp
  have hsweep : .unavailable why ∉ sweepLines f.due := by
    unfold sweepLines
    split <;> simp
  simp only [Findings.lines, List.mem_append, hretry, hsweep, or_false]
  cases f.reconciled with
  | ok report => simp [watch]
  | error e =>
      cases e with
      | unsupported text => cases b <;> simp [watch, eq_comm]
      | _ => simp [watch]

theorem runFailed_mem {f : Findings} {b : Bool} {e : PortError} :
    .runFailed e ∈ f.lines b ↔
      f.reconciled = .error e ∧ ∀ why, e ≠ .unsupported why := by
  have hretry : .runFailed e ∉ retryLines f.held := by
    unfold retryLines
    split <;> simp
  have hsweep : .runFailed e ∉ sweepLines f.due := by
    unfold sweepLines
    split <;> simp
  simp only [Findings.lines, List.mem_append, hretry, hsweep, or_false]
  cases f.reconciled with
  | ok report => simp [watch]
  | error e' =>
      cases e' with
      | unsupported text => cases b <;> simp +contextual [watch, eq_comm]
      | _ => simp +contextual [watch, eq_comm]

theorem pastDelta_mem {f : Findings} {b : Bool} {user : String} {seq amountMinor : UInt64} :
    .pastDelta user seq amountMinor ∈ f.lines b ↔
      ∃ due, f.due = .ok due ∧
        ∃ r ∈ due, r.user = user ∧ r.seq = seq ∧ r.amount.minor = amountMinor := by
  have hwatch : .pastDelta user seq amountMinor ∉ (watch b f.reconciled).2 := by
    unfold watch
    split
    · simp
    · split <;> simp
    · simp
  have hretry : .pastDelta user seq amountMinor ∉ retryLines f.held := by
    unfold retryLines
    split <;> simp
  simp only [Findings.lines, List.mem_append, hwatch, hretry, false_or]
  cases f.due with
  | ok due => simp [sweepLines]
  | error e => simp [sweepLines]

/-! ## What a tick has gone through -/

section Ticks

variable {h : History Port Port.Reply}

/-- What has been found is in the history. -/
structure Sound (f : Findings) (h : History Port Port.Reply) : Prop where
  recorded : ∀ report, f.reconciled = .ok report → Server.Reconciled h report
  listed : ∀ due, f.due = .ok due →
    ∃ now, ⟨.clock, now⟩ ∈ h ∧ ⟨.redemptions (.reclaimable now), .ok due⟩ ∈ h

theorem Sound.mono {f : Findings} {h' : History Port Port.Reply} (hf : Sound f h) (hh : h ⊆ h') :
    Sound f h' where
  recorded := fun report hr => (hf.recorded report hr).mono hh
  listed := fun due hd =>
    let ⟨now, hclock, hlist⟩ := hf.listed due hd
    ⟨now, hh hclock, hh hlist⟩

variable [Sha256]

theorem tick_tells : tick.Tells Sound h := by
  refine tells_bind.mpr (Server.run_tells.mono fun reconciled h₁ hrec => ?_)
  refine tells_bind.mpr ((tells_of_forall fun _ _ => trivial).since.mono fun held h₂ hsuf₁ => ?_)
  refine tells_bind.mpr (Server.sweep_tells.since.mono fun due h₃ ⟨hdue, hsuf₂⟩ => ?_)
  exact ⟨fun report hr => (hrec report hr).mono fun _ ha => hsuf₂.subset (hsuf₁.2.subset ha), hdue⟩

theorem loop_tells (n : ℕ) (b : Bool) :
    (loop n b).Tells
      (fun out h' => out.length = n ∧ Logged b out ∧ ∀ t ∈ out, Sound t.1 h') h := by
  induction n generalizing b h with
  | zero => exact ⟨rfl, trivial, fun _ ht => absurd ht List.not_mem_nil⟩
  | succ n ih =>
      refine tells_bind.mpr (tick_tells.mono fun f h₁ hf => ?_)
      refine tells_bind.mpr ((ih _).since.mono fun rest h₂ ⟨⟨hlen, hlogged, hrest⟩, hsuf⟩ => ?_)
      refine ⟨congrArg _ hlen, ⟨rfl, hlogged⟩, fun t ht => ?_⟩
      obtain rfl | ht := List.mem_cons.mp ht
      · exact hf.mono hsuf.subset
      · exact hrest t ht

/-! ## How many deposits are issued -/

/-- A mint that is confirmed. -/
def isMint : Act Port Port.Reply → Bool
  | ⟨.ledger (.issue ..), .ok .confirmed⟩ => true
  | _ => false

/-- The deposits that a tick says are issued. -/
def Findings.issued (f : Findings) : ℕ :=
  match f.held with
  | .ok (_, issued) => issued
  | .error _ => 0

def wasIssued : PortResult IssuanceOutcome → ℕ
  | .ok (.issued _) => 1
  | _ => 0

theorem retryHeld_counts (bankRef : BankRef) :
    (IssuanceService.retryHeld bankRef).run.Counts isMint wasIssued := by
  refine counts_run_after (fun _ => rfl) fun found => ?_
  refine counts_run_after (fun _ => rfl) fun d => ?_
  split
  · exact counts_pure rfl
  · refine counts_run_after (fun _ => rfl) fun now => ?_
    refine counts_run_after (fun _ => rfl) fun state => ?_
    split
    · exact counts_pure rfl
    · refine counts_run_after (fun _ => rfl) fun d' => ?_
      refine counts_run_after (fun _ => rfl) fun _ => ?_
      refine counts_run_bind (counts_call _) (fun _ => rfl) fun outcome => ?_
      cases outcome with
      | confirmed =>
          refine counts_none fun r => ?_
          show wasIssued r - 1 = 0
          unfold wasIssued
          split <;> rfl
      | submitted => exact counts_pure rfl
      | failed => exact counts_pure rfl

omit [Sha256] in
theorem attempt_counts {α : Type} {p : Act Port Port.Reply → Bool} {x : Service α}
    {gain : PortResult α → ℕ} (hx : x.run.Counts p gain) :
    (attempt x).run.Counts p fun r => (r.map gain).toOption.getD 0 :=
  counts_bind hx fun r => counts_pure (Nat.sub_self (gain r))

theorem retryEach_counts (ds : List Deposit) (n : ℕ) :
    (IssuanceService.retryEach ds n).run.Counts isMint fun r => r.toOption.getD 0 - n := by
  induction ds generalizing n with
  | nil => exact counts_pure (Nat.sub_self n)
  | cons d ds ih =>
      refine counts_run_bind (attempt_counts (retryHeld_counts _)) (fun _ => Nat.zero_sub n)
        fun r => ?_
      split
      · exact (ih (n + 1)).mono fun r => Nat.le_of_eq (Nat.sub_sub _ n 1)
      · exact (ih n).mono fun r => Nat.sub_le _ _
      · exact (ih n).mono fun r => Nat.sub_le _ _

theorem retryAllHeld_counts :
    IssuanceService.retryAllHeld.run.Counts isMint fun r => (r.map Prod.snd).toOption.getD 0 := by
  refine counts_run_after (fun _ => rfl) fun held => ?_
  split
  · exact counts_pure rfl
  · refine counts_run_bind (retryEach_counts held 0) (fun _ => rfl) fun n => ?_
    exact counts_pure (Nat.sub_self n)

theorem tick_counts : tick.Counts isMint Findings.issued := by
  refine counts_after fun reconciled => ?_
  refine counts_bind retryAllHeld_counts fun held => counts_after fun due => counts_pure ?_
  cases held with
  | error e => rfl
  | ok r => exact Nat.sub_self r.2

theorem loop_counts (n : ℕ) (b : Bool) :
    (loop n b).Counts isMint fun out => (out.map fun t => t.1.issued).sum := by
  induction n generalizing b with
  | zero => exact counts_pure rfl
  | succ n ih =>
      refine counts_bind tick_counts fun f => counts_bind (ih _) fun rest => counts_pure ?_
      rw [List.map_cons, List.sum_cons, Nat.add_sub_cancel_left, Nat.sub_self]

theorem spawn_tells (intervalSecs : UInt64) (n : ℕ) :
    (spawn intervalSecs n).Tells (fun out h' => out.length = (if intervalSecs = 0 then 0 else n) ∧
      Logged false out ∧ ∀ t ∈ out, Sound t.1 h') h := by
  rw [spawn]
  split
  · exact ⟨rfl, trivial, fun _ ht => absurd ht List.not_mem_nil⟩
  · exact loop_tells n false

theorem spawn_counts (intervalSecs : UInt64) (n : ℕ) :
    (spawn intervalSecs n).Counts isMint fun out => (out.map fun t => t.1.issued).sum := by
  rw [spawn]
  split
  · exact counts_pure rfl
  · exact loop_counts n false

end Ticks

end Thbc.Reconciler

namespace Thbc.Server

open Thbc.Lib Thbc.Service Thbc.Durable Thbc.Reconciler

/-! ## A reconciler's reports -/

section Reports

variable [Sha256]

/-- Whenever reconciliation was not available before tick `k`, it has gone through
since. -/
def Rearmed (out : List (Findings × List LogLine)) (k : ℕ) : Prop :=
  ∀ j why g ls, j < k → out[j]? = some (g, ls) → g.reconciled = .error (.unsupported why) →
    ∃ m report g' ls', j < m ∧ m < k ∧ out[m]? = some (g', ls') ∧ g'.reconciled = .ok report

omit [Sha256] in
theorem signals_at {out : List (Findings × List LogLine)} {k j : ℕ} {s : Signal} :
    ((out.take k).map fun t => signal t.1.reconciled)[j]? = some s ↔
      j < k ∧ ∃ g ls, out[j]? = some (g, ls) ∧ signal g.reconciled = s := by
  rw [List.getElem?_map, Option.map_eq_some_iff, List.getElem?_take]
  split
  · next hlt => exact ⟨fun ⟨⟨g, ls⟩, hj, hs⟩ => ⟨hlt, g, ls, hj, hs⟩,
      fun ⟨_, g, ls, hj, hs⟩ => ⟨(g, ls), hj, hs⟩⟩
  · next hge => exact ⟨fun ⟨_, hj, _⟩ => (by cases hj), fun ⟨hlt, _⟩ => absurd hlt hge⟩

omit [Sha256] in
theorem rearmed_iff {out : List (Findings × List LogLine)} {k : ℕ} :
    latched false ((out.take k).map fun t => signal t.1.reconciled) = false ↔ Rearmed out k := by
  rw [latched_false_iff]
  constructor
  · intro h j why g ls hjk hj hwhy
    obtain ⟨m, hjm, hm⟩ := h j (signals_at.mpr ⟨hjk, g, ls, hj, signal_set.mpr ⟨why, hwhy⟩⟩)
    obtain ⟨hmk, g', ls', hm, hclear⟩ := signals_at.mp hm
    obtain ⟨report, hok⟩ := signal_clear.mp hclear
    exact ⟨m, report, g', ls', hjm, hmk, hm, hok⟩
  · intro h j hj
    obtain ⟨hjk, g, ls, hj, hset⟩ := signals_at.mp hj
    obtain ⟨why, hwhy⟩ := signal_set.mp hset
    obtain ⟨m, report, g', ls', hjm, hmk, hm, hok⟩ := h j why g ls hjk hj hwhy
    exact ⟨m, hjm, signals_at.mpr ⟨hmk, g', ls', hm, signal_clear.mpr ⟨report, hok⟩⟩⟩

/-- What is logged of tick `k`, where `own` is what the reconciler has asked and `log`
what everybody has. -/
structure Reported (log own : History Port Port.Reply) (out : List (Findings × List LogLine))
    (k : ℕ) (f : Findings) (lines : List LogLine) : Prop where
  unavailable : ∀ why, .unavailable why ∈ lines ↔
    f.reconciled = .error (.unsupported why) ∧ Rearmed out k
  runFailed : ∀ e, .runFailed e ∈ lines ↔ f.reconciled = .error e ∧ ∀ why, e ≠ .unsupported why
  recorded : ∀ report, f.reconciled = .ok report → Reconciled own report
  named : ∀ user seq amountMinor, .pastDelta user seq amountMinor ∈ lines ↔
    ∃ due, f.due = .ok due ∧
      ∃ rd ∈ due, rd.user = user ∧ rd.seq = seq ∧ rd.amount.minor = amountMinor
  /-- The list itself is the answer to its sweep. -/
  listed : ∀ due, f.due = .ok due →
    ∃ now, ⟨.clock, now⟩ ∈ own ∧ ⟨.redemptions (.reclaimable now), .ok due⟩ ∈ own ∧
      ∀ rd ∈ due, PastDelta log now rd

theorem reports_tell {state : AppState} {tasks : List Task} {w : Tables}
    {ts : List (ℕ × Conditions)}
    {R : List (Findings × List LogLine) → History Port Port.Reply → Prop} {i : ℕ}
    {intervalSecs : UInt64} {n : ℕ} {out : List (Findings × List LogLine)}
    (htask : tasks[i]? = some (.reconciler intervalSecs n))
    (hspawn : (spawn intervalSecs n).Tells R [])
    (hout : ((Tasks.start state tasks w).run Durable.exec ts).result i = some (.reports out)) :
    R out (own i ((Tasks.start state tasks w).run Durable.exec ts).log) := by
  have hprog : (Task.prog state (.reconciler intervalSecs n)).Tells
      (fun o h => ∀ out, o = .reports out → R out h) [] :=
    tells_bind.mpr (hspawn.mono fun a h hR out heq => Outcome.reports.inj heq ▸ hR)
  exact result_tells htask hprog hout out rfl

/-- From empty tables on, and beside any requests, a reconciler reports on every tick;
what it says is so, and of deposits it says no more are issued than it has had minted. -/
theorem reconciler_reports (state : AppState) (tasks : List Task)
    (runs : List ReconciliationRow) (ts : List (ℕ × Conditions)) :
    let c := (Tasks.start state tasks ⟨[], [], runs⟩).run Durable.exec ts
    ∀ i intervalSecs n out, tasks[i]? = some (.reconciler intervalSecs n) →
      c.result i = some (.reports out) →
      out.length = (if intervalSecs = 0 then 0 else n) ∧
      (∀ k f lines, out[k]? = some (f, lines) →
        Reported (c.log.map Prod.snd) (own i c.log) out k f lines) ∧
      (out.map fun t => t.1.issued).sum ≤ (own i c.log).countP isMint := by
  intro c i intervalSecs n out htask hout
  obtain ⟨hlen, hlogged, hsound⟩ := reports_tell htask (spawn_tells intervalSecs n) hout
  have hswept := (known_run state tasks runs ts).swept
  refine ⟨hlen, fun k f lines hk => ?_, ?_⟩
  · have hlines := hlogged.at hk
    have hf := hsound (f, lines) (List.mem_of_getElem? hk)
    subst hlines
    refine ⟨fun why => ?_, fun e => runFailed_mem, hf.recorded,
      fun user seq amount => pastDelta_mem, fun due hdue => ?_⟩
    · rw [unavailable_mem, rearmed_iff]
    · obtain ⟨now, hclock, hlist⟩ := hf.listed due hdue
      exact ⟨now, hclock, hlist, hswept now due (own_subset i c.log hlist)⟩
  · have hcount := reports_tell htask (R := fun out h => (out.map fun t => t.1.issued).sum ≤
      h.countP isMint) ?_ hout
    · exact hcount
    · exact (spawn_counts intervalSecs n []).mono fun out h hle => by
        rwa [List.countP_nil, Nat.zero_add] at hle

end Reports

/-! ## A redemption past Δ -/

section Unclaimed

open Sample

/-- A moment at which escrows are confirmed and there is no snapshot. -/
def unsnapped (now : Int64) : Conditions where
  answer
    | .clock => now
    | .ledger .snapshot => .error (.unsupported "no snapshot")
    | .ledger (.escrowRedemption _) => .ok .confirmed
    | s => ample.answer s
  depositTie _ := 0
  redemptionTie _ := 0
  runTie _ := 0
  fault := none

/-- Alice has one hundred satang put in escrow, and Δ later there are two ticks. -/
abbrev reconciled : Tasks :=
  (Tasks.start ⟨86400, true⟩ [.request (.requestRedemption "alice" 100), .reconciler 3600 2]
    ⟨[], [], []⟩).run Durable.exec
      (List.replicate 6 (0, unsnapped 0) ++ List.replicate 12 (1, unsnapped 86400))

def unclaimed : Redemption where
  user := "alice"
  seq := 1
  amount := ⟨100⟩
  state := .escrowed
  requestedAt := 0
  escrowedAt := some 0
  deltaSecs := 86400

/-- What a tick finds. -/
def found : Findings := ⟨.error (.unsupported "no snapshot"), .ok (0, 0), .ok [unclaimed]⟩

/-- What the two ticks log. -/
abbrev logged : List (Findings × List LogLine) :=
  [(found, [.unavailable "no snapshot", .pastDelta "alice" 1 100]),
    (found, [.pastDelta "alice" 1 100])]

theorem reconciler_reports_unclaimed :
    reconciled.result 1 = some (.reports logged) ∧
    Reported (reconciled.log.map Prod.snd) (own 1 reconciled.log) logged 1 found
      [.pastDelta "alice" 1 100] := by
  have hresult : reconciled.result 1 = some (.reports logged) := by decide +kernel
  obtain ⟨-, hreported, -⟩ := reconciler_reports ⟨86400, true⟩
    [.request (.requestRedemption "alice" 100), .reconciler 3600 2] []
    (List.replicate 6 (0, unsnapped 0) ++ List.replicate 12 (1, unsnapped 86400)) 1 3600 2 _
    rfl hresult
  exact ⟨hresult, hreported 1 found [.pastDelta "alice" 1 100] rfl⟩

end Unclaimed

end Thbc.Server
