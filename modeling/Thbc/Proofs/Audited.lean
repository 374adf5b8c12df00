import Thbc.Proofs.Archived
import Thbc.Proofs.Reports

/-!
# The history of reconciliation runs

Nothing in the service takes a row of `reconciliation_runs` back or writes one over. So
the table is at any moment what it was, followed by the reports that were asked to be
recorded, in their order: all that were answered so, and such as were carried out
although they were reported to fail. And the count of unhealthy runs that an operator
reads with a report has the report itself in it.
-/

namespace Thbc.Durable

open Thbc.Lib PgReconciliationRepository

section Archive

variable {rows rows' : List ReconciliationRow} {report : ReconciliationReport}

theorem append_ok {R K : Type} [DecidableEq K] {s : Schema R K} {row : R} {rows rows' : List R}
    (h : s.append row rows = .ok rows') : rows' = rows ++ [row] := by
  unfold Schema.append at h
  split at h
  · cases h
  · exact (Except.ok.inj h).symm

/-- A report is recorded in its row, or refused and not recorded. -/
theorem record_cases {r : PortResult Unit} (h : record rows report = (r, rows')) :
    (r ≠ .ok () ∧ rows' = rows) ∨ (r = .ok () ∧ rows' = rows ++ [.of report]) := by
  obtain ⟨e, -, rfl, rfl⟩ | ⟨hx, rfl⟩ := execute_cases h
  · exact .inl ⟨nofun, rfl⟩
  · refine .inr ⟨rfl, ?_⟩
    simp only [bind_ok, query_eq_ok, orRefuse_eq_ok, toI64_eq_ok, toText_eq_ok] at hx
    obtain ⟨drift, hdrift, expected, ⟨-, rfl⟩, supply, ⟨-, rfl⟩, free, ⟨-, rfl⟩, shortfall,
      ⟨-, rfl⟩, severity, ⟨-, rfl⟩, happend⟩ := hx
    unfold tryFromI128 at hdrift
    split at hdrift
    · obtain rfl := Option.some.inj hdrift
      exact append_ok happend
    · cases hdrift

/-- How many runs were not clean. -/
def unhealthy (rows : List ReconciliationRow) : ℕ := rows.countP fun r => r.severity ≠ "ok"

theorem unhealthy_of {reports : List ReconciliationReport} :
    unhealthy (reports.map .of) = reports.countP fun r => !r.isHealthy := by
  rw [unhealthy, List.countP_map]
  refine List.countP_congr fun r _ => ?_
  show decide (r.severity.asStr ≠ "ok") = true ↔ _
  unfold ReconciliationReport.isHealthy
  cases r.severity <;> simp [Severity.asStr]

theorem toNat_unhealthyCount {n : UInt64} (h : unhealthyCount rows = .ok n) :
    n.toNat = unhealthy rows := by
  obtain ⟨v, hv, hn⟩ := bind_ok.mp h
  obtain ⟨hlo, hlt, rfl⟩ := toBigint_eq_ok.mp (query_eq_ok.mp hv)
  have hto := Int64.toInt_ofInt_of_le hlo hlt
  have hpos : 0 ≤ (Int64.ofInt (rows.filter fun r => r.severity ≠ "ok").length).toInt := by omega
  rw [tryFromI64, if_pos hpos] at hn
  rw [← Except.ok.inj hn, Option.getD_some,
    Int64.toNat_toUInt64_of_le (Int64.le_iff_toInt_le.mpr hpos), unhealthy,
    List.countP_eq_length_filter]
  exact (congrArg Int.toNat hto).trans (Int.toNat_natCast _)

/-- A statement on the history, or its fault. -/
theorem exec_history [Sha256] (c : Conditions) (m : ReconciliationRepository) (w : Tables) :
    ∃ r runs', exec c (.history m) w = (r, { w with runs := runs' }) ∧
      ((r, runs') = call w.runs c.runTie m ∨
        ∃ e, r = .error e ∧ (runs' = w.runs ∨ runs' = (call w.runs c.runTie m).2)) :=
  ⟨_, _, rfl, (faulted_cases _ _ _).imp Eq.symm id⟩

end Archive

/-! ## What has been asked of it -/

/-- The report that a call asks to record. -/
def recording : Act Port Port.Reply → Option ReconciliationReport
  | ⟨.history (.record report), _⟩ => some report
  | _ => none

/-- The report that a call has recorded, as it was told. -/
def recorded : Act Port Port.Reply → Option ReconciliationReport
  | ⟨.history (.record report), .ok ()⟩ => some report
  | _ => none

/-- The rows that a history of calls accounts for, the earliest first. -/
def rowsOf (f : Act Port Port.Reply → Option ReconciliationReport)
    (log : History Port Port.Reply) : List ReconciliationRow :=
  (log.filterMap f).reverse.map .of

theorem rowsOf_cons_none {f : Act Port Port.Reply → Option ReconciliationReport}
    {a : Act Port Port.Reply} {log : History Port Port.Reply} (ha : f a = none) :
    rowsOf f (a :: log) = rowsOf f log := by
  simp [rowsOf, List.filterMap_cons_none ha]

theorem rowsOf_cons_some {f : Act Port Port.Reply → Option ReconciliationReport}
    {a : Act Port Port.Reply} {log : History Port Port.Reply} {report : ReconciliationReport}
    (ha : f a = some report) : rowsOf f (a :: log) = rowsOf f log ++ [.of report] := by
  simp [rowsOf, List.filterMap_cons_some ha]

/-- The unhealthy reports among them. -/
def unhealthyOf (f : Act Port Port.Reply → Option ReconciliationReport)
    (log : History Port Port.Reply) : ℕ :=
  (log.filterMap f).countP fun r => !r.isHealthy

theorem unhealthy_rowsOf {f : Act Port Port.Reply → Option ReconciliationReport}
    {log : History Port Port.Reply} : unhealthy (rowsOf f log) = unhealthyOf f log := by
  rw [rowsOf, unhealthy_of, List.countP_reverse, unhealthyOf]

/-- The table since `runs`, and what has been read of it. -/
structure Audited (runs : List ReconciliationRow) (w : State) : Prop where
  rows : ∃ added, w.1.runs = runs ++ added ∧ (rowsOf recorded w.2).Sublist added ∧
    added.Sublist (rowsOf recording w.2)
  counts : ∀ l₂ n l₁, w.2 = l₂ ++ ⟨.history .unhealthyCount, .ok n⟩ :: l₁ →
    unhealthy runs + unhealthyOf recorded l₁ ≤ n.toNat ∧
      n.toNat ≤ unhealthy runs + unhealthyOf recording l₁

section Audit

variable {runs : List ReconciliationRow} {w : State}

theorem Audited.unhealthy_le (h : Audited runs w) :
    unhealthy runs + unhealthyOf recorded w.2 ≤ unhealthy w.1.runs ∧
      unhealthy w.1.runs ≤ unhealthy runs + unhealthyOf recording w.2 := by
  obtain ⟨added, hruns, hlo, hhi⟩ := h.rows
  have hsplit : unhealthy w.1.runs = unhealthy runs + unhealthy added := by
    rw [hruns]
    exact List.countP_append
  rw [hsplit, ← unhealthy_rowsOf, ← unhealthy_rowsOf]
  exact ⟨Nat.add_le_add_left hlo.countP_le _, Nat.add_le_add_left hhi.countP_le _⟩

/-- A call that leaves the history alone, and has not read the count. -/
theorem Audited.other {v : Tables} {a : Act Port Port.Reply} (h : Audited runs w)
    (hruns : v.runs = w.1.runs) (hask : recording a = none) (htold : recorded a = none)
    (hread : ∀ n, a ≠ ⟨.history .unhealthyCount, .ok n⟩) : Audited runs (v, a :: w.2) := by
  refine ⟨?_, fun l₂ n l₁ heq => ?_⟩
  · rw [rowsOf_cons_none htold, rowsOf_cons_none hask]
    exact hruns.symm ▸ h.rows
  · cases l₂ with
    | nil => exact absurd (List.cons.inj heq).1 (hread n)
    | cons a' l₂ => exact h.counts l₂ n l₁ (List.cons.inj heq).2

/-- A report that is recorded or, it is said, is not. -/
theorem Audited.record {v : Tables} {report : ReconciliationReport} {r : PortResult Unit}
    (h : Audited runs w)
    (hr : (r ≠ .ok () ∧ v.runs = w.1.runs) ∨ v.runs = w.1.runs ++ [.of report]) :
    Audited runs (v, ⟨.history (.record report), r⟩ :: w.2) := by
  obtain ⟨added, hruns, hlo, hhi⟩ := h.rows
  have hasked : rowsOf recording (⟨.history (.record report), r⟩ :: w.2) =
      rowsOf recording w.2 ++ [.of report] := rowsOf_cons_some rfl
  have htold : rowsOf recorded (⟨.history (.record report), r⟩ :: w.2) =
      rowsOf recorded w.2 ++ if r = .ok () then [.of report] else [] := by
    cases r with
    | ok u => exact rowsOf_cons_some rfl
    | error e => simpa using rowsOf_cons_none (f := recorded) rfl
  refine ⟨?_, fun l₂ n l₁ heq => ?_⟩
  · rw [hasked, htold]
    obtain ⟨hne, hkept⟩ | hadded := hr
    · refine ⟨added, hkept.trans hruns, ?_, hhi.trans (List.sublist_append_left _ _)⟩
      simpa [hne] using hlo
    · refine ⟨added ++ [.of report], by rw [hadded, hruns, List.append_assoc], ?_,
        hhi.append (List.Sublist.refl _)⟩
      refine hlo.append ?_
      split
      · exact .refl _
      · exact List.nil_sublist _
  · cases l₂ with
    | nil => cases (List.cons.inj heq).1
    | cons a' l₂ => exact h.counts l₂ n l₁ (List.cons.inj heq).2

/-- A count that is read. -/
theorem Audited.count {v : Tables} {r : PortResult UInt64} (h : Audited runs w)
    (hruns : v.runs = w.1.runs) (hr : ∀ n, r = .ok n → n.toNat = unhealthy w.1.runs) :
    Audited runs (v, ⟨.history .unhealthyCount, r⟩ :: w.2) := by
  refine ⟨?_, fun l₂ n l₁ heq => ?_⟩
  · rw [rowsOf_cons_none rfl, rowsOf_cons_none rfl]
    exact hruns.symm ▸ h.rows
  · cases l₂ with
    | nil =>
        obtain ⟨ha, rfl⟩ := List.cons.inj heq
        rw [hr n (eq_of_heq (Sigma.mk.inj ha).2)]
        exact h.unhealthy_le
    | cons a' l₂ => exact h.counts l₂ n l₁ (List.cons.inj heq).2

variable [Sha256]

theorem Audited.step (h : Audited runs w) (e : Conditions) (s : Port) :
    Audited runs (Durable.exec.logged e s w).2 := by
  cases s with
  | history m =>
      obtain ⟨r, runs', hx, hr⟩ := exec_history e m w.1
      show Audited runs ((Durable.exec e (.history m) w.1).2,
        ⟨.history m, (Durable.exec e (.history m) w.1).1⟩ :: w.2)
      rw [hx]
      cases m with
      | record report =>
          refine h.record ?_
          obtain hcall | ⟨e', rfl, hkept | hdone⟩ := hr
          · exact (record_cases hcall.symm).imp id And.right
          · exact .inl ⟨nofun, hkept⟩
          · obtain ⟨-, hkept⟩ | ⟨-, hadded⟩ := record_cases (Prod.mk.eta (p := _)).symm
            · exact .inl ⟨nofun, hdone.trans hkept⟩
            · exact .inr (hdone.trans hadded)
      | recent limit =>
          have hkept : runs' = w.1.runs := by
            obtain hcall | ⟨_, _, hkept | hkept⟩ := hr
            · exact congrArg Prod.snd hcall
            · exact hkept
            · exact hkept
          exact h.other hkept rfl rfl fun n ha => by cases ha
      | unhealthyCount =>
          obtain hcall | ⟨_, rfl, hkept | hkept⟩ := hr
          · exact h.count (congrArg Prod.snd hcall) fun n hn =>
              toNat_unhealthyCount ((congrArg Prod.fst hcall).symm.trans hn)
          · exact h.count hkept fun n hn => by cases hn
          · exact h.count hkept fun n hn => by cases hn
  | _ => exact h.other rfl rfl rfl nofun

end Audit

end Thbc.Durable

namespace Thbc.Server

open Thbc.Lib Thbc.Service Thbc.Durable

section Trail

variable [Sha256]

/-- Whatever overlaps and stops, the history of runs only grows, by the reports that have
been recorded; and a report that an operator is given is recorded and, if it is not
healthy, counted. -/
theorem audit_trail (state : AppState) (tasks : List Task) (w : Tables)
    (ts : List (ℕ × Conditions)) :
    let c := (Tasks.start state tasks w).run Durable.exec ts
    Audited w.runs c.view ∧
    ∀ i headers v, tasks[i]? = some (.request (.admin headers .reconciliation)) →
      c.result i = some (.response ⟨.ok, .reconciliation v⟩) →
      Viewed state.simulated v (own i c.log) ∧
        unhealthy w.runs + (if v.healthy then 0 else 1) ≤ v.unhealthyRunsRecorded.toNat := by
  intro c
  have haudited : Audited w.runs c.view := by
    refine Pool.uses_run (N := fun _ => True) (fun p _ => uses_any p)
      (fun e s v _ hv => hv.step e s) ⟨⟨[], (List.append_nil _).symm, ?_, ?_⟩, ?_⟩ ts
    · exact List.Sublist.refl _
    · exact List.Sublist.refl _
    · exact fun l₂ n l₁ heq => by simp at heq
  refine ⟨haudited, fun i headers v htask hout => ?_⟩
  obtain ⟨v', hviewed, hv⟩ := response_tells htask
    (admin_tells (answers_respond getReconciliation_tells _)) hout rfl
  obtain rfl : v = v' := Body.reconciliation.inj (Response.mk.inj hv).2
  refine ⟨hviewed, ?_⟩
  obtain ⟨report, n, h₁, rfl, hown, hreport⟩ := hviewed
  obtain ⟨l₂, l₁, hlog, rfl⟩ := own_eq_cons hown
  have hcount := (haudited.counts (l₂.map Prod.snd) _ (l₁.map Prod.snd) (by
    show c.log.map Prod.snd = _
    rw [hlog, List.map_append, List.map_cons])).1
  refine le_trans (Nat.add_le_add_left ?_ _) hcount
  show (if report.isHealthy then 0 else 1) ≤ _
  cases hhealthy : report.isHealthy with
  | true => exact Nat.zero_le _
  | false =>
      have hin : report ∈ (l₁.map Prod.snd).filterMap recorded :=
        List.mem_filterMap.mpr ⟨_, own_subset i l₁ hreport.recorded, rfl⟩
      exact List.countP_pos_iff.mpr ⟨report, hin, by rw [hhealthy]; rfl⟩

end Trail

/-! ## A drift that is looked at -/

section Drifted

open Sample

/-- A ledger with a hundred satang that nobody was issued. -/
def drifted : Conditions where
  answer
    | .ledger .snapshot =>
      .ok ⟨⟨⟨⟨1000⟩, 0, 3600⟩, .zero, ⟨100⟩⟩, ⟨.zero, .zero⟩, ⟨0, 0, false⟩, none⟩
    | s => ample.answer s
  depositTie _ := 0
  redemptionTie _ := 0
  runTie _ := 0
  fault := none

def operator : HeaderMap := [(adminRoleHeader, ⟨"admin".toUTF8.toList⟩)]

abbrev looked : Tasks :=
  (Tasks.start ⟨86400, true⟩ [.request (.admin operator .reconciliation)] ⟨[], [], []⟩).run
    Durable.exec (List.replicate 7 (0, drifted))

def lookedView : ReconciliationView := ⟨1, .drift, 100, 0, 100, 1000, 0, 0, false, true⟩

theorem audit_trail_drifted :
    looked.result 0 = some (.response ⟨.ok, .reconciliation lookedView⟩) ∧
    Viewed true lookedView (own 0 looked.log) ∧
      unhealthy [] + 1 ≤ lookedView.unhealthyRunsRecorded.toNat := by
  have hresult : looked.result 0 = some (.response ⟨.ok, .reconciliation lookedView⟩) := by
    decide +kernel
  have htrail := (audit_trail ⟨86400, true⟩ [.request (.admin operator .reconciliation)]
    ⟨[], [], []⟩ (List.replicate 7 (0, drifted))).2 0 operator lookedView rfl hresult
  exact ⟨hresult, htrail⟩

end Drifted

end Thbc.Server
