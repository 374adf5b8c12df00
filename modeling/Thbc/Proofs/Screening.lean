import Thbc.Core.Histories

/-!
# What an issued deposit has been through

The comment on `resolve_dispute` says that the compliance screen has already
passed. It has when the dispute came after the screen. A dispute may also come
before it, and then the deposit is `Screened` without any screen, and `Issued`
two calls later.

So for the deposits that end `Issued` it depends on which came first, the screen
or the dispute: `issued_screened_iff`. That the attestation is made against the
amount last settled holds of all of them.
-/

namespace Thbc

open Thbc.Lib

namespace Deposit

def Method.leavesObserved : Method → Bool
  | .screen _ | .dispute => true
  | _ => false

/-- A screen comes before any dispute. -/
def ScreenedFirst (ms : List Method) : Prop :=
  ∃ outcome, ms.find? Method.leavesObserved = some (.screen outcome)

def PassedScreen (h : List (Deposit × Method)) : Prop :=
  ∃ c ∈ h, c.2 = .screen .pass

instance (h : List (Deposit × Method)) : Decidable (PassedScreen h) :=
  inferInstanceAs (Decidable (∃ c ∈ h, c.2 = .screen .pass))

/-- A call `mark_attested` has succeeded, and no `resolve_dispute` after it. -/
def AttestedLast (h : List (Deposit × Method)) : Prop :=
  ∃ before d later, h = before ++ (d, .markAttested) :: later ∧
    ∀ c ∈ later, ∀ settled, c.2 ≠ .resolveDispute settled

structure Traced (s : DepositState) (h : List (Deposit × Method)) : Prop where
  observed : s = .observed ↔ h = []
  later : ∀ c ∈ h.tail, ∀ outcome, c.2 ≠ .screen outcome
  failed : ∀ d, h.head? = some (d, .screen .fail) → s = .encumbered
  attested : s = .attested → ∃ before d, h = before ++ [(d, .markAttested)]
  issued : s = .issued →
    ∃ before d d', h = before ++ [(d, .markAttested), (d', .markIssued)]

variable {d : Deposit} {s s' : DepositState} {m : Method}
  {h : List (Deposit × Method)} {ms : List Method}

theorem Traced.nil : Traced .observed [] where
  observed := ⟨fun _ => rfl, fun _ => rfl⟩
  later c hc := by cases hc
  failed d hd := by cases hd
  attested hs := by cases hs
  issued hs := by cases hs

/-- No call but the first is a screen, and after a screen that failed there is no
call at all. -/
theorem Traced.step (ht : Traced s h) (hgoes : Goes s m s') :
    Traced s' (h ++ [(d, m)]) := by
  have hne : s' ≠ .observed := by cases hgoes <;> simp
  refine ⟨⟨fun hs => absurd hs hne, fun hnil => by simp at hnil⟩, ?_, ?_, ?_, ?_⟩
  · intro c hc outcome
    cases h with
    | nil => simp at hc
    | cons c' rest =>
        simp only [List.cons_append, List.tail_cons, List.mem_append,
          List.mem_singleton] at hc
        obtain hc | rfl := hc
        · exact ht.later c hc outcome
        · have hs : s ≠ .observed := fun hs => by cases ht.observed.mp hs
          intro hscreen
          cases hscreen
          cases hgoes <;> exact hs rfl
  · intro x hx
    cases h with
    | nil =>
        simp only [List.nil_append, List.head?_cons, Option.some.injEq,
          Prod.mk.injEq] at hx
        obtain ⟨-, rfl⟩ := hx
        cases hgoes
        rfl
    | cons c' rest =>
        have hs := ht.failed x hx
        subst hs
        cases hgoes
  · intro hs
    subst hs
    cases hgoes
    exact ⟨h, d, rfl⟩
  · intro hs
    subst hs
    cases hgoes
    obtain ⟨before, x, hx⟩ := ht.attested rfl
    exact ⟨before, x, d, by simp [hx]⟩

theorem traced_after (hs : d.state = .observed) :
    Traced (after invoke d ms).state (done invoke d ms) := by
  refine done_induct (J := fun x h => Traced x.state h) (l := [])
    (fun x h m y _ ht hm => ht.step (invoke_goes hm)) ?_
  rw [hs]
  exact .nil

theorem head_done (hs : d.state = .observed) :
    (done invoke d ms).head? = (ms.find? Method.leavesObserved).map fun m => (d, m) := by
  induction ms with
  | nil => rfl
  | cons m ms ih =>
      rw [done]
      cases hm : d.invoke m with
      | ok d' =>
          have hleaves : m.leavesObserved = true := by
            have hgoes := invoke_goes hm
            rw [hs] at hgoes
            generalize d'.state = s' at hgoes
            cases hgoes <;> rfl
          simp [hleaves]
      | error e =>
          have hstays : m.leavesObserved = false := by
            cases m with
            | screen outcome =>
                rw [invoke, screen_ok.mpr ⟨hs, rfl⟩] at hm
                cases hm
            | dispute =>
                rw [invoke, dispute_ok.mpr ⟨.inl hs, rfl⟩] at hm
                cases hm
            | _ => rfl
          simp [hstays, ih]

/-- A deposit that ends `Issued` has passed a screen exactly when a screen was the
first to come. The attestation is made after the last settlement. -/
theorem issued_screened_iff {bankRef : BankRef} {amount : Thb}
    {beneficiary wallet : String} {now : Int64}
    (hd : observe bankRef amount beneficiary wallet now = .ok d)
    (hissued : (after invoke d ms).state = .issued) :
    (PassedScreen (done invoke d ms) ∧ AttestedLast (done invoke d ms)) ↔
      ScreenedFirst ms := by
  have hs : d.state = .observed := by rw [(observe_ok.mp hd).2.2]
  have ht : Traced (after invoke d ms).state (done invoke d ms) := traced_after hs
  have hhead := @head_done d ms hs
  obtain ⟨before, x, x', hlast⟩ := ht.issued hissued
  have hattested : AttestedLast (done invoke d ms) := by
    refine ⟨before, x, [(x', .markIssued)], hlast, fun c hc settled => ?_⟩
    rw [List.mem_singleton.mp hc]
    simp
  obtain ⟨c, rest, hcons⟩ : ∃ c rest, done invoke d ms = c :: rest := by
    rw [hlast]
    cases before with
    | nil => exact ⟨_, _, rfl⟩
    | cons c before => exact ⟨_, _, rfl⟩
  rw [hcons] at hhead ht
  rw [and_iff_left hattested, hcons]
  constructor
  · intro ⟨y, hy, hpass⟩
    cases hy with
    | head =>
        obtain ⟨m, hm, hpair⟩ := Option.map_eq_some_iff.mp hhead.symm
        refine ⟨.pass, ?_⟩
        rw [hm, ← hpass, ← hpair]
    | tail _ hy => exact absurd hpass (ht.later y hy .pass)
  · intro ⟨outcome, hfirst⟩
    rw [hfirst] at hhead
    have hc : c = (d, .screen outcome) := Option.some.inj hhead
    cases outcome with
    | pass => exact ⟨c, List.mem_cons_self, by rw [hc]⟩
    | fail =>
        have henc := ht.failed d (by rw [hc]; rfl)
        rw [henc] at hissued
        cases hissued

/-- As the webhook of the tests leaves it. -/
def Sample.observed : Deposit :=
  ⟨Sample.scb1, ⟨100⟩, "user-1", "Wa11etOwner", .observed, 0⟩

open Deposit.Sample

theorem issued_screened_disputed :
    let ms := [.screen .pass, .dispute, .resolveDispute ⟨90⟩, .markAttested, .markIssued]
    (PassedScreen (done invoke observed ms) ∧ AttestedLast (done invoke observed ms)) ↔
      ScreenedFirst ms :=
  issued_screened_iff
    (rfl : observe observed.bankRef ⟨100⟩ "user-1" "Wa11etOwner" 0 = .ok observed) rfl

/-- Disputed before the screen, settled, attested and issued. -/
theorem issued_unscreened :
    let ms := [.dispute, .resolveDispute ⟨90⟩, .markAttested, .markIssued]
    observe observed.bankRef ⟨100⟩ "user-1" "Wa11etOwner" 0 = .ok observed ∧
      (after invoke observed ms).state = .issued ∧
      ¬ PassedScreen (done invoke observed ms) := by
  decide

end Deposit

end Thbc
