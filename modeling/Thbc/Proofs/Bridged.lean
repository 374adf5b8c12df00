import Thbc.Logic.Treasury
import Thbc.Proofs.Decoded
import Thbc.Proofs.Quotes

/-!
# Quotes through the bridge

The snapshot of the real ledger has the THBC of the inventory vault and no GRX at
all, since `swap_vault` is not queried. A purchase is bounded by the THBC and by
nothing else, and it is priced as on the chain. A sale is paid out of the GRX and
is always refused, so it comes out right only where the chain could not pay it
either.
-/

namespace Thbc

/-- What goes in, what comes out and what is kept. -/
def ExchangeQuote.price (q : ExchangeQuote) : Grx × Thb × Thb := (q.grxIn, q.thbcOut, q.fee)

def ReverseQuote.price (q : ReverseQuote) : Thb × Grx × Grx := (q.thbcIn, q.grxOut, q.fee)

/-- The GRX of the inventory has no say in a purchase, as long as what is paid fits
in. -/
theorem quoteGrxForThbc_grx {grxIn : Grx} {params : ExchangeParams}
    {inventory inventory' : Inventory} {q : ExchangeQuote}
    (h : quoteGrxForThbc grxIn params inventory = .ok q)
    (hthbc : inventory'.thbc = inventory.thbc)
    (hgrx : inventory'.grx.toNat + grxIn.toNat < 2 ^ 64) :
    ∃ q', quoteGrxForThbc grxIn params inventory' = .ok q' ∧ q'.price = q.price := by
  obtain ⟨hpos, hvalid, gross, fee, hgross, hfee, hnet, hin, hout, hq, hleft, -⟩ :=
    quoteGrxForThbc_iff.mp h
  obtain ⟨grx, hgrx'⟩ := Grx.exists_toNat hgrx
  rw [← hthbc] at hleft
  exact ⟨{ q with inventoryAfter := ⟨q.inventoryAfter.thbc, grx⟩ },
    quoteGrxForThbc_iff.mpr ⟨hpos, hvalid, gross, fee, hgross, hfee, hnet, hin, hout, hq,
      hleft, hgrx'.symm⟩, rfl⟩

namespace ChainBridge

open Thbc.Lib TreasuryService

/-- A chain on which the snapshot succeeds: the treasury account, the vault of the
THBC inventory and the balance of `swap_vault`. -/
structure ChainState where
  image : List UInt8
  treasury : Treasury
  stores : treasury.Stores image
  vault : Option (List UInt8)
  thbc : Thb
  holds : Holds vault thbc
  grx : Grx

namespace ChainState

def params (c : ChainState) : ExchangeParams :=
  ⟨c.treasury.grxPerThbcRate, c.treasury.feeBps, c.treasury.paused⟩

def inventory (c : ChainState) : Inventory := ⟨c.thbc, c.grx⟩

/-- The service is answered by the ledger that reads this chain. -/
def Behind (c : ChainState) (config : ChainBridgeConfig) (answer : (s : Port) → s.Reply) :
    Prop :=
  result (delivering c.image c.vault) (snapshot config) =
    some (answer (.ledger .snapshot))

/-- The price of a sale in GRX, with no bound on the amounts. -/
def saleGross (c : ChainState) (thbcIn : Thb) : ℕ :=
  thbcIn.toNat * 10 ^ 9 / c.params.grxPerThbcRate.toNat

/-- What is left of it after the fee. -/
def saleNet (c : ChainState) (thbcIn : Thb) : ℤ :=
  c.saleGross thbcIn - (c.saleGross thbcIn * c.params.feeBps.toNat / 10000 : ℕ)

/-- A sale that the chain itself could not price or pay. -/
def Unsellable (c : ChainState) (thbcIn : Thb) : Prop :=
  thbcIn.toNat = 0 ∨ c.params.paused = true ∨ c.params.grxPerThbcRate.toNat = 0 ∨
    10000 < c.params.feeBps.toNat ∨ 2 ^ 64 ≤ c.saleGross thbcIn ∨ c.saleNet thbcIn ≤ 0 ∨
    c.grx.toNat < c.saleNet thbcIn

instance decidableUnsellable (c : ChainState) (thbcIn : Thb) :
    Decidable (c.Unsellable thbcIn) :=
  inferInstanceAs (Decidable (_ ∨ _ ∨ _ ∨ _ ∨ _ ∨ _ ∨ _))

end ChainState

def SamePrice {α β : Type} (price : α → β) (x : PortResult α) (y : CoreResult α) : Prop :=
  ∀ p, (∃ q, x = .ok q ∧ price q = p) ↔ ∃ q, y = .ok q ∧ price q = p

structure Faithful (c : ChainState) (answer : (s : Port) → s.Reply) (grxIn : Grx)
    (thbcIn : Thb) : Prop where
  buys : SamePrice ExchangeQuote.price (answered answer (quoteBuyThbc grxIn))
    (quoteGrxForThbc grxIn c.params c.inventory)
  sells : SamePrice ReverseQuote.price (answered answer (quoteSellThbc thbcIn))
    (quoteThbcForGrx thbcIn c.params c.inventory)

section Chain

variable {c : ChainState} {config : ChainBridgeConfig} {answer : (s : Port) → s.Reply}
  {grxIn : Grx} {thbcIn : Thb}

theorem answer_snapshot (hp : config.treasuryPda.isSome) (hv : config.inventoryVault.isSome)
    (h : c.Behind config answer) :
    answer (.ledger .snapshot) = .ok (c.treasury.snapshot c.thbc) := by
  obtain ⟨treasuryPda, hp⟩ := Option.isSome_iff_exists.mp hp
  obtain ⟨inventoryVault, hv⟩ := Option.isSome_iff_exists.mp hv
  have hresult := result_snapshot hp hv c.stores (inventoryThbc_of_holds c.holds)
  exact Option.some.inj (h.symm.trans hresult)

theorem buys_match (h : answer (.ledger .snapshot) = .ok (c.treasury.snapshot c.thbc))
    (hgrx : c.grx.toNat + grxIn.toNat < 2 ^ 64) :
    SamePrice ExchangeQuote.price (answered answer (quoteBuyThbc grxIn))
      (quoteGrxForThbc grxIn c.params c.inventory) := by
  intro p
  rw [answered_quoteBuyThbc h]
  simp only [mapError_ok]
  constructor
  · rintro ⟨q, hq, rfl⟩
    exact quoteGrxForThbc_grx hq rfl hgrx
  · rintro ⟨q, hq, rfl⟩
    have hfit : (Grx.zero).toNat + grxIn.toNat < 2 ^ 64 := by
      have hzero : Grx.zero.toNat = 0 := rfl
      rw [hzero, Nat.zero_add]
      exact grxIn.toNat_lt
    exact quoteGrxForThbc_grx hq rfl hfit

theorem sells_refused (h : answer (.ledger .snapshot) = .ok (c.treasury.snapshot c.thbc))
    (thbcIn : Thb) (q : ReverseQuote) :
    answered answer (quoteSellThbc thbcIn) ≠ .ok q := by
  intro hq
  rw [answered_quoteSellThbc h, mapError_ok] at hq
  obtain ⟨-, -, -, -, -, hpos, hle, -⟩ := (quoteThbcForGrx_accepts rfl rfl).mp ⟨q, hq⟩
  have hzero : (c.treasury.snapshot c.thbc).inventory.grx.toNat = 0 := rfl
  omega

theorem unsellable_iff (hthbc : c.thbc.toNat + thbcIn.toNat < 2 ^ 64) :
    c.Unsellable thbcIn ↔ ¬ ∃ q, quoteThbcForGrx thbcIn c.params c.inventory = .ok q := by
  rw [@quoteThbcForGrx_accepts c.params c.inventory (c.saleGross thbcIn)
    (c.saleNet thbcIn) thbcIn rfl rfl]
  have hthbc' : c.inventory.thbc.toNat + thbcIn.toNat < 2 ^ 64 := hthbc
  have hgrx : c.inventory.grx.toNat = c.grx.toNat := rfl
  unfold ChainState.Unsellable
  cases c.params.paused with
  | true => simp
  | false =>
      simp only [Bool.false_eq_true, false_or, true_and]
      omega

theorem availableInventory_no_grx
    (h : answer (.ledger .snapshot) = .ok (c.treasury.snapshot c.thbc)) :
    answered answer availableInventory = .ok ⟨c.thbc, .zero⟩ :=
  answered_ledger h

/-- The quotes are those of the chain exactly for the sales that it could not price
or pay. -/
theorem faithful_iff (hp : config.treasuryPda.isSome) (hv : config.inventoryVault.isSome)
    (h : c.Behind config answer) (hgrx : c.grx.toNat + grxIn.toNat < 2 ^ 64)
    (hthbc : c.thbc.toNat + thbcIn.toNat < 2 ^ 64) :
    Faithful c answer grxIn thbcIn ↔ c.Unsellable thbcIn := by
  have hs := answer_snapshot hp hv h
  rw [unsellable_iff hthbc]
  constructor
  · rintro ⟨-, hsells⟩ ⟨q, hq⟩
    obtain ⟨q', hq', -⟩ := (hsells q.price).mpr ⟨q, hq, rfl⟩
    exact sells_refused hs thbcIn q' hq'
  · intro hnone
    refine ⟨buys_match hs hgrx, fun p => ⟨?_, ?_⟩⟩
    · intro ⟨q, hq, _⟩
      exact absurd hq (sells_refused hs thbcIn q)
    · intro ⟨q, hq, _⟩
      exact absurd ⟨q, hq⟩ hnone

end Chain

namespace ChainState

/-- The treasury laid out over zeros, with no vault yet. -/
def laidOut (t : Treasury) (grx : Grx) : ChainState where
  image := writes (List.replicate 280 0) t.layout
  treasury := t
  stores := t.stores_writes (by rw [List.length_replicate])
  vault := none
  thbc := .zero
  holds := rfl
  grx := grx

/-- The same with a token account that holds `thbc`. -/
def stocked (t : Treasury) (thbc : Thb) (grx : Grx) : ChainState :=
  have hfit : 64 + (toLe 8 thbc.toNat).length ≤ (List.replicate 165 (0 : UInt8)).length := by
    rw [length_toLe, List.length_replicate]
    decide
  { laidOut t grx with
    vault := some (patch (List.replicate 165 0) 64 (toLe 8 thbc.toNat))
    thbc := thbc
    holds := ⟨by rw [length_patch hfit, List.length_replicate]; decide,
      window_patch_self hfit (length_toLe ..).symm⟩ }

def answers (c : ChainState) : (s : Port) → s.Reply
  | .clock => 0
  | .ledger .snapshot => .ok (c.treasury.snapshot c.thbc)
  | .ledger _ => .error .notFound
  | .deposits _ => .error .notFound
  | .redemptions _ => .error .notFound
  | .compliance _ => .error .notFound
  | .payouts _ => .error .notFound
  | .history _ => .error .notFound
  | .simulator _ => .error .notFound

theorem behind_answers (c : ChainState) (treasuryPda inventoryVault : String) :
    c.Behind ⟨some treasuryPda, some inventoryVault⟩ c.answers :=
  result_snapshot rfl rfl c.stores (inventoryThbc_of_holds c.holds)

end ChainState

/-- A purchase of 100 satang for one whole GRX, and a sale with nothing in `swap_vault`. -/
theorem faithful_iff_stocked :
    let c := ChainState.stocked ⟨⟨1000⟩, 0, 3600, ⟨900⟩, 100, 0, false, ⟨0⟩⟩ ⟨500⟩ ⟨0⟩
    answered c.answers (quoteBuyThbc ⟨1000000000⟩) =
        .ok ⟨⟨1000000000⟩, ⟨100⟩, ⟨0⟩, ⟨⟨400⟩, ⟨1000000000⟩⟩⟩ ∧
      Faithful c c.answers ⟨1000000000⟩ ⟨100⟩ := by
  intro c
  have hbehind := c.behind_answers "treasury" "vault"
  exact ⟨by decide, (faithful_iff rfl rfl hbehind (by decide) (by decide)).mpr (by decide)⟩

/-- A sale of 100 satang for the one whole GRX that there is. -/
theorem unpaid_sale :
    let c := ChainState.laidOut ⟨⟨1000⟩, 0, 3600, ⟨900⟩, 100, 0, false, ⟨0⟩⟩ ⟨1000000000⟩
    c.Behind ⟨some "treasury", some "vault"⟩ c.answers ∧
      quoteThbcForGrx ⟨100⟩ c.params c.inventory =
        .ok ⟨⟨100⟩, ⟨1000000000⟩, ⟨0⟩, ⟨⟨100⟩, ⟨0⟩⟩⟩ ∧
      answered c.answers availableInventory = .ok ⟨.zero, .zero⟩ ∧
      answered c.answers (quoteSellThbc ⟨100⟩) =
        .error (.domain (.insufficientInventory 1000000000 0 "GRX")) ∧
      ¬ Faithful c c.answers ⟨1⟩ ⟨100⟩ := by
  intro c
  have hquote : quoteThbcForGrx ⟨100⟩ c.params c.inventory =
      .ok ⟨⟨100⟩, ⟨1000000000⟩, ⟨0⟩, ⟨⟨100⟩, ⟨0⟩⟩⟩ := by decide
  refine ⟨c.behind_answers "treasury" "vault", hquote, availableInventory_no_grx (c := c) rfl,
    by decide, fun h => ?_⟩
  obtain ⟨q, hq, -⟩ := (h.sells _).mpr ⟨_, hquote, rfl⟩
  exact sells_refused rfl _ q hq

end ChainBridge

end Thbc
