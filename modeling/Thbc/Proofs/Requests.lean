import Thbc.System.Requesting
import Thbc.System.OffRampStep

/-!
# Requests that overlap

`next_seq` is a read; the number it gives is used one port call later, and two
requests of one user may read the same. The insert decides: it refuses a key
that is there, and the loser returns with the conflict before it has touched
the ledger. So the rows of a user are always numbered `1, …, n`, and every
number read is one of `1, …, n + 1` (`Numbered`).

Past its insert a request has its key to itself. `Drafted` says what the row
and the escrow record of a key are at every moment, given who is drafting it;
once no one is, a record is there exactly where the row is `Escrowed`.
-/

namespace Thbc.OffRamp

open Thbc.Lib

/-! ## Numbers -/

/-- The rows of the user are the ones with the numbers `1` to `n`. -/
structure Numbered (rows : InMemoryRedemptionRepo) (user : String) (n : ℕ) :
    Prop where
  size : n ≤ UInt64.size
  rows : ∀ seq, (rows.lookup (user, seq)).isSome = true ↔
    ∃ i, 1 ≤ i ∧ i ≤ n ∧ seq = UInt64.ofNat i

instance maxEqOrUInt64 : Std.MaxEqOr UInt64 where
  max_eq_or a b := by
    show (if a ≤ b then b else a) = a ∨ (if a ≤ b then b else a) = b
    split
    · exact .inr rfl
    · exact .inl rfl

/-- The number a user is given is one that is taken, or the next one. -/
theorem Numbered.nextSeq {rows : InMemoryRedemptionRepo} {user : String} {n : ℕ}
    (h : Numbered rows user n) {seq : UInt64} (hseq : rows.nextSeq user = .ok seq) :
    ∃ i, 1 ≤ i ∧ i ≤ n + 1 ∧ seq = UInt64.ofNat i := by
  unfold InMemoryRedemptionRepo.nextSeq at hseq
  cases hmax : ((rows.keys.filter fun k => k.1 = user).map Prod.snd).max? with
  | none =>
      simp only [hmax] at hseq
      exact ⟨1, le_refl _, by omega, (Except.ok.inj hseq).symm⟩
  | some m =>
      simp only [hmax] at hseq
      obtain ⟨k, hk, rfl⟩ := List.mem_map.mp (List.max?_mem hmax)
      obtain ⟨hmem, hu⟩ := List.mem_filter.mp hk
      have hku : k.1 = user := of_decide_eq_true hu
      have hsome : (rows.lookup (user, k.2)).isSome = true := by
        rw [← hku]
        exact AList.lookup_isSome.mpr hmem
      obtain ⟨i, hi, hin, hki⟩ := (h.rows k.2).mp hsome
      refine ⟨i + 1, by omega, by omega, ?_⟩
      rw [← Except.ok.inj hseq, hki, UInt64.ofNat_add]
      rfl

theorem Numbered.insert {rows : InMemoryRedemptionRepo} {user : String} {n : ℕ}
    (h : Numbered rows user n) {r : Redemption} (hr : r.user = user)
    (hnone : rows.lookup r.key = none) {i : ℕ} (hi : 1 ≤ i) (hin : i ≤ n + 1)
    (hseq : r.seq = UInt64.ofNat i) : Numbered (AList.insert r.key r rows) user (n + 1) := by
  have hnew : ∀ j, 1 ≤ j → j ≤ n → r.seq ≠ UInt64.ofNat j := by
    intro j hj hjn hrj
    have hsome := (h.rows r.seq).mpr ⟨j, hj, hjn, hrj⟩
    rw [← hr, show (r.user, r.seq) = r.key from rfl, hnone] at hsome
    cases hsome
  have hi' : i = n + 1 := by
    by_contra hne
    exact hnew i hi (by omega) hseq
  refine ⟨?_, fun seq => ?_⟩
  · -- With every number taken the new one would be too.
    by_contra hlt
    have hn : n = UInt64.size := by
      have := h.size
      omega
    rw [hi', hn] at hseq
    refine hnew 1 (le_refl _) (by rw [hn]; decide) (hseq.trans ?_)
    rw [UInt64.ofNat_add]
    rfl
  · by_cases hs : seq = r.seq
    · rw [hs, ← hr, show (r.user, r.seq) = r.key from rfl, AList.lookup_insert]
      exact ⟨fun _ => ⟨i, hi, hin, hseq⟩, fun _ => rfl⟩
    · have hk : (user, seq) ≠ r.key := fun hk => hs (congrArg Prod.snd hk)
      rw [AList.lookup_insert_ne hk, h.rows]
      refine ⟨fun ⟨j, hj, hjn, hsj⟩ => ⟨j, hj, by omega, hsj⟩, ?_⟩
      intro ⟨j, hj, hjn, hsj⟩
      refine ⟨j, hj, ?_, hsj⟩
      by_contra hgt
      have hji : j = i := by omega
      rw [hji, ← hseq] at hsj
      exact hs hsj

/-! ## Keys -/

/-- The row and the escrow record of a key that nobody is drafting. -/
def Filed : Option Redemption → Option SimulatedLedger.EscrowRecord → Prop
  | some r, some record =>
      r.state = .escrowed ∧ record.amount = r.amount ∧ record.burned = false
  | some r, none => r.state = .requested
  | none, none => True
  | none, some _ => False

/-- The row and the escrow record of the key of a draft. -/
def Drafting (r : Redemption) (row : Option Redemption)
    (record : Option SimulatedLedger.EscrowRecord) : Draft → Prop
  | .inserted => row = some r ∧ r.state = .requested ∧ record = none
  | .answered o => row = some r ∧ r.state = .requested ∧ o = .confirmed ∧
      ∃ e, record = some e ∧ e.amount = r.amount ∧ e.burned = false
  | .applied => (∃ r', row = some r') ∧ r.state = .escrowed ∧
      ∃ e, record = some e ∧ e.amount = r.amount ∧ e.burned = false

/-- Each key is in the hands of one draft, or filed. -/
structure Drafted (rows : InMemoryRedemptionRepo)
    (escrows : HashMap (String × UInt64) SimulatedLedger.EscrowRecord)
    (stage : ℕ → Phase) : Prop where
  keyed : Keyed rows
  drafting : ∀ i r s, stage i = .drafting r s →
    Drafting r (rows.lookup r.key) (escrows.lookup r.key) s
  unique : ∀ i j r r' s s', stage i = .drafting r s → stage j = .drafting r' s' →
    r.key = r'.key → i = j
  settling : ∀ i r s, stage i ≠ .settling r s
  filed : ∀ k, (∀ i r s, stage i = .drafting r s → r.key ≠ k) →
    Filed (rows.lookup k) (escrows.lookup k)

theorem Drafting.row {r : Redemption} {row : Option Redemption}
    {record : Option SimulatedLedger.EscrowRecord} {s : Draft}
    (h : Drafting r row record s) : ∃ r', row = some r' := by
  cases s with
  | inserted => exact ⟨r, h.1⟩
  | answered o => exact ⟨r, h.1⟩
  | applied => exact h.1

namespace Drafted

variable {rows : InMemoryRedemptionRepo}
  {escrows : HashMap (String × UInt64) SimulatedLedger.EscrowRecord}
  {stage : ℕ → Phase}

/-- A call works on one key, which no other call is drafting. -/
theorem at_key (h : Drafted rows escrows stage) {t : ℕ} {key : String × UInt64}
    {rows' : InMemoryRedemptionRepo}
    {escrows' : HashMap (String × UInt64) SimulatedLedger.EscrowRecord} {q' : Phase}
    (hkeyed : Keyed rows') (hrows : ∀ k, k ≠ key → rows'.lookup k = rows.lookup k)
    (hescrows : ∀ k, k ≠ key → escrows'.lookup k = escrows.lookup k)
    (hmine : ∀ r s, stage t = .drafting r s → r.key = key)
    (hfree : ∀ i r s, i ≠ t → stage i = .drafting r s → r.key ≠ key)
    (hnew : (∃ r s, q' = .drafting r s ∧ r.key = key ∧
        Drafting r (rows'.lookup key) (escrows'.lookup key) s) ∨
      (q' = .idle ∧ Filed (rows'.lookup key) (escrows'.lookup key))) :
    Drafted rows' escrows' (Function.update stage t q') where
  keyed := hkeyed
  drafting i r s hi := by
    obtain ⟨-, rfl⟩ | ⟨hit, hi⟩ := Pool.update_cases hi
    · obtain ⟨r', s', hq, hkey, hd⟩ | ⟨hq, -⟩ := hnew
      · cases hq
        rw [hkey]
        exact hd
      · cases hq
    · have hk := hfree i r s hit hi
      rw [hrows _ hk, hescrows _ hk]
      exact h.drafting i r s hi
  unique i j r r' s s' hi hj hkey := by
    have hother : ∀ k r s, k ≠ t → stage k = .drafting r s →
        ∀ r' s', q' = .drafting r' s' → r.key ≠ r'.key := by
      intro k r s hkt hk r' s' hq hkk
      obtain ⟨r'', s'', hq', hkey', -⟩ | ⟨hq', -⟩ := hnew
      · rw [hq] at hq'
        cases hq'
        exact hfree k r s hkt hk (hkk.trans hkey')
      · rw [hq] at hq'
        cases hq'
    obtain ⟨hit, hqi⟩ | ⟨hit, hi⟩ := Pool.update_cases hi
    · obtain ⟨hjt, -⟩ | ⟨hjt, hj⟩ := Pool.update_cases hj
      · rw [hit, hjt]
      · exact absurd hkey.symm (hother j r' s' hjt hj r s hqi)
    · obtain ⟨-, hqj⟩ | ⟨-, hj⟩ := Pool.update_cases hj
      · exact absurd hkey (hother i r s hit hi r' s' hqj)
      · exact h.unique i j r r' s s' hi hj hkey
  settling i r s hi := by
    obtain ⟨-, hq⟩ | ⟨-, hi⟩ := Pool.update_cases hi
    · obtain ⟨r', s', hq', -, -⟩ | ⟨hq', -⟩ := hnew
      · rw [hq] at hq'
        cases hq'
      · rw [hq] at hq'
        cases hq'
    · exact h.settling i r s hi
  filed k hk := by
    by_cases hkk : k = key
    · subst hkk
      obtain ⟨r, s, hq, hkey, -⟩ | ⟨-, hfiled⟩ := hnew
      · exact absurd hkey (hk t r s (by rw [Function.update_self, hq]))
      · exact hfiled
    · rw [hrows k hkk, hescrows k hkk]
      refine h.filed k fun i r s hi hik => ?_
      by_cases hit : i = t
      · subst hit
        exact hkk (hik.symm.trans (hmine r s hi))
      · exact hk i r s (by rw [Function.update_of_ne hit]; exact hi) hik

section Step

variable {call : Call} {w w' : World} {t : ℕ} {q q' : Phase}
  {a : Act Port Port.Reply}

theorem step (h : Drafted w.redemptions w.ledger.escrows stage) (ht : stage t = q)
    (hcall : call.isRequest = true) (hs : Step call w w' q a q') :
    Drafted w'.redemptions w'.ledger.escrows (Function.update stage t q') := by
  -- The key of a draft is its own.
  have hmine : ∀ {r₀ s₀}, q = .drafting r₀ s₀ →
      (∀ r s, stage t = .drafting r s → r.key = r₀.key) ∧
      ∀ i r s, i ≠ t → stage i = .drafting r s → r.key ≠ r₀.key := by
    intro r₀ s₀ heq
    subst heq
    refine ⟨fun r s hr => ?_, fun i r s hit hi hk => ?_⟩
    · rw [ht] at hr
      cases hr
      rfl
    · exact hit (h.unique i t r r₀ s s₀ hi ht hk)
  cases hs with
  | @inserted r hr _ hnone hrow hled =>
      have hfree : ∀ i r' s, stage i = .drafting r' s → r'.key ≠ r.key := by
        intro i r' s hi hk
        obtain ⟨row, hrow'⟩ := (h.drafting i r' s hi).row
        rw [hk, hnone] at hrow'
        cases hrow'
      have hfiled := h.filed r.key hfree
      rw [hnone] at hfiled
      have hrec : w.ledger.escrows.lookup r.key = none := by
        cases hk : w.ledger.escrows.lookup r.key with
        | none => rfl
        | some record => rw [hk] at hfiled; exact hfiled.elim
      rw [hrow, hled]
      refine h.at_key (keyed_insert h.keyed rfl)
        (fun k hk => AList.lookup_insert_ne hk) (fun _ _ => rfl) ?_
        (fun i r' s _ => hfree i r' s)
        (.inl ⟨r, .inserted, rfl, rfl, AList.lookup_insert _, hr, hrec⟩)
      intro r' s' hr'
      rw [ht] at hr'
      cases hr'
  | @found user seq r stage' hstage _ _ =>
      cases call with
      | request user' amount => cases hstage
      | _ => cases hcall
  | @escrowed r hrow hnone hesc =>
      obtain ⟨hlook, hst, -⟩ := h.drafting t r _ ht
      rw [hrow, hesc]
      refine h.at_key h.keyed (fun _ _ => rfl)
        (fun k hk => AList.lookup_insert_ne hk) (hmine rfl).1 (hmine rfl).2
        (.inl ⟨r, .answered .confirmed, rfl, rfl, hlook, hst, rfl, ?_⟩)
      exact ⟨_, AList.lookup_insert _, rfl, rfl⟩
  | @applied r r' o now happ hw =>
      subst hw
      obtain ⟨hlook, hst, rfl, hrec⟩ := h.drafting t r _ ht
      obtain ⟨-, rfl⟩ := Redemption.applyEscrowOutcome_confirmed.mp happ
      exact h.at_key h.keyed (fun _ _ => rfl) (fun _ _ => rfl) (hmine rfl).1
        (hmine rfl).2 (.inl ⟨_, .applied, rfl, rfl, ⟨r, hlook⟩, rfl, hrec⟩)
  | @recorded r hrow hled =>
      obtain ⟨-, hst, e, hrec, hamount, hburned⟩ := h.drafting t r _ ht
      rw [hrow, hled]
      refine h.at_key (keyed_insert h.keyed rfl)
        (fun k hk => AList.lookup_insert_ne hk) (fun _ _ => rfl) (hmine rfl).1
        (hmine rfl).2 (.inr ⟨rfl, ?_⟩)
      rw [AList.lookup_insert, hrec]
      exact ⟨hst, hamount, hburned⟩
  | queued _ _ => exact absurd ht (h.settling t _ _)
  | enqueued _ _ => exact absurd ht (h.settling t _ _)
  | burned _ _ _ _ _ => exact absurd ht (h.settling t _ _)
  | confirmed _ _ => exact absurd ht (h.settling t _ _)
  | due _ _ => exact absurd ht (h.settling t _ _)
  | returned _ _ _ _ _ _ => exact absurd ht (h.settling t _ _)
  | reclaimed _ _ => exact absurd ht (h.settling t _ _)
  | other _ hdrop hrow hesc =>
      rw [hrow, hesc]
      cases q with
      | idle =>
          rw [← ht, Function.update_eq_self]
          exact h
      | settling r s => exact absurd ht (h.settling t r s)
      | drafting r s =>
          have hd := h.drafting t r s ht
          cases s with
          | inserted =>
              obtain ⟨hlook, hst, hrec⟩ := hd
              refine h.at_key h.keyed (fun _ _ => rfl) (fun _ _ => rfl)
                (hmine rfl).1 (hmine rfl).2 (.inr ⟨rfl, ?_⟩)
              rw [hlook, hrec]
              exact hst
          | answered o => exact absurd hd.2.1 hdrop
          | applied =>
              obtain ⟨row, hrow'⟩ := hd.1
              rw [hdrop r rfl] at hrow'
              cases hrow'

/-- A request fills a key that was free, or leaves the keys as they are. -/
theorem keys_of_step (h : Drafted w.redemptions w.ledger.escrows stage)
    (ht : stage t = q) (hs : Step call w w' q a q') :
    ((∀ r, a ≠ ⟨.redemptions (.insert r), .ok ()⟩) ∧
      ∀ k, (w'.redemptions.lookup k).isSome = (w.redemptions.lookup k).isSome) ∨
    ∃ r, a = ⟨.redemptions (.insert r), .ok ()⟩ ∧
      w.redemptions.lookup r.key = none ∧
      w'.redemptions = AList.insert r.key r w.redemptions := by
  cases hs with
  | inserted _ _ hnone hrow _ => exact .inr ⟨_, rfl, hnone, hrow⟩
  | @recorded r hrow _ =>
      obtain ⟨row, hlook⟩ := (h.drafting t r _ ht).1
      refine .inl ⟨?_, fun k => ?_⟩
      · intro r hr; cases hr
      · by_cases hk : k = r.key
        · rw [hrow, hk, AList.lookup_insert, hlook]
          rfl
        · rw [hrow, AList.lookup_insert_ne hk]
  | found _ _ hw =>
      subst hw
      refine .inl ⟨?_, fun _ => rfl⟩
      intro r hr; cases hr
  | escrowed hrow _ _ =>
      refine .inl ⟨?_, fun _ => by rw [hrow]⟩
      intro r hr; cases hr
  | applied _ hw =>
      subst hw
      refine .inl ⟨?_, fun _ => rfl⟩
      intro r hr; cases hr
  | queued _ _ => exact absurd ht (h.settling t _ _)
  | enqueued _ _ => exact absurd ht (h.settling t _ _)
  | burned _ _ _ _ _ => exact absurd ht (h.settling t _ _)
  | confirmed _ _ => exact absurd ht (h.settling t _ _)
  | due _ _ => exact absurd ht (h.settling t _ _)
  | returned _ _ _ _ _ _ => exact absurd ht (h.settling t _ _)
  | reclaimed _ _ => exact absurd ht (h.settling t _ _)
  | other ha _ hrow _ =>
      refine .inl ⟨?_, fun _ => by rw [hrow]⟩
      intro r heq
      subst heq
      cases ha

end Step

end Drafted

/-! ## Pools of requests -/

def isInsertAt (k : String × UInt64) : ℕ × Act Port Port.Reply → Bool
  | (_, ⟨.redemptions (.insert r), .ok _⟩) => r.key = k
  | _ => false

def escrowedRows (rows : InMemoryRedemptionRepo) (user : String) : ℕ :=
  rows.tally fun r =>
    if r.user = user ∧ r.state = .escrowed then r.amount.toNat else 0

/-- Where call `i` has got to, and the number it has read. -/
def requestAt (calls : List Call) (c : Calls) (i : ℕ) : Phase × Option UInt64 :=
  c.stage (fun i => (grammar (callAt calls i)).prod
    (Requesting.grammar (callAt calls i))) i

section Pools

variable [Sha256]

/-- What holds of a pool of requests at any moment. -/
structure Requested (calls : List Call) (held : String → ℕ) (c : Calls) : Prop where
  obeys : c.Obeys fun i => (grammar (callAt calls i)).prod
    (Requesting.grammar (callAt calls i))
  size : c.threads.length = calls.length
  inRange : c.InRange
  drafted : Drafted c.world.redemptions c.world.ledger.escrows
    fun i => (requestAt calls c i).1
  numbered : ∀ user, ∃ n, Numbered c.world.redemptions user n ∧
    ∀ i amount seq, callAt calls i = .request user amount →
      (requestAt calls c i).2 = some seq →
      ∃ j, 1 ≤ j ∧ j ≤ n + 1 ∧ seq = UInt64.ofNat j
  holdings : ∀ user, Requesting.holdings c.world.ledger user = held user
  once : ∀ k, Once (isInsertAt k) (c.world.redemptions.lookup k ≠ none) c.log

theorem Requested.step {calls : List Call} {held : String → ℕ} {c : Calls}
    (hcalls : ∀ call ∈ calls, call.isRequest = true) (h : Requested calls held c)
    (t : ℕ × Env) : Requested calls held (c.step World.exec t) := by
  have hobeys : (c.step World.exec t).Obeys _ :=
    Pool.obeys_step h.obeys fun s => ⟨hears_exec h.drafted.keyed s, trivial⟩
  rcases Pool.step_cases (fun i => (grammar (callAt calls i)).prod
    (Requesting.grammar (callAt calls i))) World.exec c t with heq | ⟨s, hworld, hm⟩
  · rw [heq]; exact h
  · obtain ⟨hramp, hreq⟩ := h.obeys.asks hm.asked
    have hcall : (callAt calls t.1).isRequest = true :=
      hcalls _ (callAt_mem (h.size ▸ Pool.lt_of_pending hm.asked))
    have hs := step_exec (e := t.2) (w := c.world) hramp
    rw [← hworld] at hs
    have hkeys := h.drafted.keys_of_step (t := t.1) rfl hs
    refine ⟨hobeys, by rw [Pool.length_threads_step, h.size],
      Pool.inRange_step h.inRange t, ?_, fun user => ?_, fun user => ?_, fun k => ?_⟩
    · have hphase : (fun i => (requestAt calls (c.step World.exec t) i).1) =
          Function.update (fun i => (requestAt calls c i).1) t.1 _ :=
        (congrArg (fun f => Prod.fst ∘ f) hm.stage).trans
          (Function.comp_update _ _ _ _)
      rw [hphase]
      exact h.drafted.step rfl hcall hs
    · obtain ⟨n, hn, hread⟩ := h.numbered user
      obtain ⟨n', hle, hn'⟩ : ∃ n', n ≤ n' ∧
          Numbered (c.step World.exec t).world.redemptions user n' := by
        rcases hkeys with ⟨-, hsame⟩ | ⟨r, ha, hnone, hrow⟩
        · exact ⟨n, le_refl n, hn.size, fun seq => by rw [hsame]; exact hn.rows seq⟩
        · obtain rfl : s = .redemptions (.insert r) := congrArg Sigma.fst ha
          obtain ⟨hcallr, hseq⟩ := hreq hcall
          rw [hrow]
          by_cases hu : r.user = user
          · obtain ⟨j, hj, hjn, hrj⟩ := hread t.1 r.amount r.seq (hu ▸ hcallr) hseq
            exact ⟨n + 1, by omega, hn.insert hu hnone hj hjn hrj⟩
          · refine ⟨n, le_refl n, hn.size, fun seq => ?_⟩
            have hk : (user, seq) ≠ r.key := fun hk => hu (congrArg Prod.fst hk).symm
            rw [AList.lookup_insert_ne hk]
            exact hn.rows seq
      refine ⟨n', hn', fun i amount seq hcalli hseq => ?_⟩
      have hold : ∃ j, 1 ≤ j ∧ j ≤ n + 1 ∧ seq = UInt64.ofNat j := by
        by_cases hit : i = t.1
        · subst hit
          have hadv := congrArg Prod.snd hm.stage_self
          rcases Requesting.seq_exec hcall hreq (hadv.symm.trans hseq) with
            hq | ⟨user', amount', hcall', hnext⟩
          · exact hread t.1 amount seq hcalli hq
          · rw [hcalli] at hcall'
            cases hcall'
            exact hn.nextSeq hnext
        · have hsame : requestAt calls (c.step World.exec t) i = requestAt calls c i :=
            hm.stage_of_ne hit
          rw [hsame] at hseq
          exact hread i amount seq hcalli hseq
      obtain ⟨j, hj, hjn, hsj⟩ := hold
      exact ⟨j, hj, by omega, hsj⟩
    · rw [hworld, Requesting.holdings_exec hcall hreq]
      exact h.holdings user
    · rw [hm.log]
      refine (h.once k).cons (fun hsome hnone => hsome ?_) fun hp => ?_
      · rcases hkeys with ⟨-, hsame⟩ | ⟨r, -, hfree, hrow⟩
        · have hk := hsame k
          rw [hnone] at hk
          exact Option.isNone_iff_eq_none.mp (Option.isSome_eq_false_iff.mp hk.symm)
        · rw [hrow] at hnone
          exact AList.lookup_of_insert_none hnone
      · rcases hkeys with ⟨hno, -⟩ | ⟨r, ha, hfree, hrow⟩
        · unfold isInsertAt at hp
          split at hp
          · next r u heq => exact absurd (Prod.mk.inj heq).2 (hno r)
          · cases hp
        · rw [ha] at hp
          have hk : r.key = k := of_decide_eq_true hp
          rw [hrow, ← hk, AList.lookup_insert]
          exact ⟨fun hsome => hsome hfree, Option.some_ne_none r⟩

theorem requested_start {calls : List Call} (deltaSecs : Int64)
    {ledger : SimulatedLedger.State} (hledger : ledger.escrows = ∅) :
    Requested calls (fun user => (ledger.balanceOf user).toNat)
      (Calls.start deltaSecs calls (.fresh ledger)) where
  obeys := Calls.obeys_start (G := fun call =>
    (grammar call).prod (Requesting.grammar call)) (fun call =>
      (call_obeys deltaSecs call).prod (Requesting.call_obeys deltaSecs call)) calls _
  size := List.length_map _
  inRange := Pool.inRange_start _ _
  drafted := by
    refine ⟨?_, ?_, ?_, ?_, ?_⟩
    · intro k r h; cases h
    · intro i r s h; cases h
    · intro i j r r' s s' h; cases h
    · intro i r s h; cases h
    · intro k _
      show Filed none (ledger.escrows.lookup k)
      rw [hledger]
      trivial
  numbered user := by
    refine ⟨0, ⟨Nat.zero_le _, fun seq => ⟨fun h => ?_, ?_⟩⟩, ?_⟩
    · cases h
    · intro ⟨i, hi, hin, _⟩
      omega
    · intro i amount seq _ h
      cases h
  holdings user := by
    show (ledger.balanceOf user).toNat + ledger.escrows.tallyBy _ = _
    rw [hledger]
    rfl
  once k := ⟨fun _ => rfl, Nat.zero_le 1⟩

omit [Sha256] in
theorem Requested.filed {calls : List Call} {held : String → ℕ} {c : Calls}
    (h : Requested calls held c) (hq : c.Quiet) (k : String × UInt64) :
    Filed (c.world.redemptions.lookup k) (c.world.ledger.escrows.lookup k) := by
  refine h.drafted.filed k fun i r s hi => ?_
  have hidle : (requestAt calls c i).1 = .idle := by
    by_cases hlt : i < c.threads.length
    · exact (h.obeys.ends hlt (Option.isNone_iff_eq_none.mp (hq i hlt))).1
    · exact congrArg Prod.fst (h.inRange.stage (Nat.le_of_not_lt hlt))
  rw [hidle] at hi
  cases hi

omit [Sha256] in
theorem Filed.weigh_same {rows : InMemoryRedemptionRepo}
    {escrows : HashMap (String × UInt64) SimulatedLedger.EscrowRecord}
    {k : String × UInt64} (hkeyed : Keyed rows)
    (h : Filed (rows.lookup k) (escrows.lookup k)) (user : String) :
    escrows.weight (fun record => if k.1 = user then record.amount.toNat else 0) k =
      rows.weight (fun r =>
        if r.user = user ∧ r.state = .escrowed then r.amount.toNat else 0) k := by
  unfold AList.weight
  cases hrow : rows.lookup k with
  | none =>
      rw [hrow] at h
      cases hrec : escrows.lookup k with
      | none => rfl
      | some record => rw [hrec] at h; exact h.elim
  | some r =>
      have hk : r.user = k.1 := congrArg Prod.fst (hkeyed k r hrow)
      rw [hrow] at h
      cases hrec : escrows.lookup k with
      | none =>
          rw [hrec] at h
          have hst : r.state = .requested := h
          simp [hst]
      | some record =>
          rw [hrec] at h
          obtain ⟨hst, hamount, -⟩ := h
          simp [hst, hamount, hk]

/-- However the requests overlap, no key is inserted twice and each user's
rows are numbered from 1 without a gap. Once all have returned, the ledger's
records are the `Escrowed` rows, and what a user has escrowed is what the
balance has gone down by. -/
theorem requests_apart (deltaSecs : Int64) (requests : List (String × Thb))
    (ledger : SimulatedLedger.State) (hledger : ledger.escrows = ∅)
    (ts : List (ℕ × Env)) :
    let calls := requests.map fun p => Call.request p.1 p.2
    let c := (Calls.start deltaSecs calls (.fresh ledger)).run World.exec ts
    (∀ k, c.log.countP (isInsertAt k) ≤ 1) ∧
      (∀ user, ∃ n, n ≤ UInt64.size ∧ ∀ seq,
        (c.world.redemptions.lookup (user, seq)).isSome = true ↔
          ∃ i, 1 ≤ i ∧ i ≤ n ∧ seq = UInt64.ofNat i) ∧
      (c.Quiet →
        (∀ k amount,
          (∃ record, c.world.ledger.escrows.lookup k = some record ∧
            record.amount = amount) ↔
          ∃ row, c.world.redemptions.lookup k = some row ∧
            row.state = .escrowed ∧ row.amount = amount) ∧
        ∀ user, (c.world.ledger.balanceOf user).toNat +
          escrowedRows c.world.redemptions user = (ledger.balanceOf user).toNat) := by
  intro calls c
  have hcalls : ∀ call ∈ calls, call.isRequest = true := by
    intro call hmem
    obtain ⟨p, -, rfl⟩ := List.mem_map.mp hmem
    rfl
  have h : Requested calls (fun user => (ledger.balanceOf user).toNat) c :=
    Pool.run_induct (fun c t h _ => h.step hcalls t) (Pool.along_true _ _ _)
      (requested_start deltaSecs hledger)
  refine ⟨fun k => (h.once k).once, fun user => ?_, fun hq => ⟨?_, fun user => ?_⟩⟩
  · obtain ⟨n, hn, -⟩ := h.numbered user
    exact ⟨n, hn.size, hn.rows⟩
  · intro k amount
    have hfiled := h.filed hq k
    cases hrow : c.world.redemptions.lookup k with
    | none =>
        cases hrec : c.world.ledger.escrows.lookup k with
        | none => simp
        | some record => rw [hrow, hrec] at hfiled; exact hfiled.elim
    | some r =>
        cases hrec : c.world.ledger.escrows.lookup k with
        | none =>
            rw [hrow, hrec] at hfiled
            have hst : r.state = .requested := hfiled
            simp [hst]
        | some record =>
            rw [hrow, hrec] at hfiled
            obtain ⟨hst, hamount, -⟩ := hfiled
            simp [hst, hamount]
  · have hsum : escrowedRows c.world.redemptions user =
        c.world.ledger.escrows.tallyBy fun k record =>
          if k.1 = user then record.amount.toNat else 0 := by
      rw [escrowedRows, AList.tally_eq_tallyBy]
      exact AList.tallyBy_congr fun k =>
        ((h.filed hq k).weigh_same h.drafted.keyed user).symm
    rw [hsum]
    exact h.holdings user

end Pools

open Sample

def colliding : List (String × Thb) := [("alice", ⟨60⟩), ("alice", ⟨70⟩), ("alice", ⟨70⟩)]

def interleaved : List (ℕ × Env) :=
  schedule (env 0 .pass) [0, 0, 1, 1, 0, 1, 2, 2, 2, 2, 0, 2, 2]

/-- Two requests of one user read the same number, and the second cannot file; the
third has more than half of the balance put in escrow, and the first then too little
left. -/
theorem requests_apart_colliding :
    let c := (Calls.start 86400 (colliding.map fun p => Call.request p.1 p.2)
      (.fresh funded)).run World.exec interleaved
    c.Quiet ∧ (∀ k, c.log.countP (isInsertAt k) ≤ 1) ∧
      (∀ user, ∃ n, n ≤ UInt64.size ∧ ∀ seq,
        (c.world.redemptions.lookup (user, seq)).isSome = true ↔
          ∃ i, 1 ≤ i ∧ i ≤ n ∧ seq = UInt64.ofNat i) ∧
      (∀ k amount,
        (∃ record, c.world.ledger.escrows.lookup k = some record ∧
          record.amount = amount) ↔
        ∃ row, c.world.redemptions.lookup k = some row ∧
          row.state = .escrowed ∧ row.amount = amount) ∧
      ∀ user, (c.world.ledger.balanceOf user).toNat +
        escrowedRows c.world.redemptions user = (funded.balanceOf user).toNat := by
  have hquiet : ((Calls.start 86400 (colliding.map fun p => Call.request p.1 p.2)
      (.fresh funded)).run World.exec interleaved).Quiet := by decide +kernel
  obtain ⟨honce, hnumbered, hsettled⟩ := requests_apart 86400 colliding funded rfl interleaved
  exact ⟨hquiet, honce, hnumbered, hsettled hquiet⟩

end Thbc.OffRamp
