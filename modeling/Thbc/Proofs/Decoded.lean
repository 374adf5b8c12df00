import Thbc.Ledger.ChainBridge

/-!
# The treasury account, decoded

One length test stands for all the reads: 280 bytes are enough for each of them,
so nothing panics, and less is refused. An account that `Stores` a treasury
decodes to it, and every account of that length stores exactly one, so the decoder
is the inverse of the layout. The eight fields do not overlap, whatever else the
account has.
-/

namespace Thbc.ChainBridge

open Thbc.Lib

/-- The account has the fields of `t` where the layout puts them. -/
structure Treasury.Stores (t : Treasury) (data : List UInt8) : Prop where
  length : 280 ≤ data.length
  attestedReserve : window data 184 8 = toLe 8 t.attestedReserve.toNat
  attestationTs : window data 192 8 = toLe 8 t.attestationTs.toUInt64.toNat
  attestationTtl : window data 200 8 = toLe 8 t.attestationTtl.toUInt64.toNat
  thbcSupply : window data 208 8 = toLe 8 t.thbcSupply.toNat
  grxPerThbcRate : window data 216 8 = toLe 8 t.grxPerThbcRate.toNat
  feeBps : window data 256 2 = toLe 2 t.feeBps.toNat
  paused : ∃ b, data[258]? = some b ∧ (b ≠ 0 ↔ t.paused = true)
  reserveEncumbered : window data 272 8 = toLe 8 t.reserveEncumbered.toNat

/-- The writes that lay out `t`. -/
def Treasury.layout (t : Treasury) : List (ℕ × List UInt8) :=
  [(184, toLe 8 t.attestedReserve.toNat), (192, toLe 8 t.attestationTs.toUInt64.toNat),
    (200, toLe 8 t.attestationTtl.toUInt64.toNat), (208, toLe 8 t.thbcSupply.toNat),
    (216, toLe 8 t.grxPerThbcRate.toNat), (256, toLe 2 t.feeBps.toNat),
    (258, [if t.paused then 1 else 0]), (272, toLe 8 t.reserveEncumbered.toNat)]

section Read

variable {data : List UInt8} {off : ℕ}

theorem ofNat_ofLe_toLe (n : UInt64) : UInt64.ofNat (ofLe (toLe 8 n.toNat)) = n := by
  rw [ofLe_toLe_of_lt n.toNat_lt, UInt64.ofNat_toNat]

theorem u64At_of_window {n : UInt64} (hlen : off + 8 ≤ data.length)
    (h : window data off 8 = toLe 8 n.toNat) : u64At data off = some n := by
  rw [u64At, window?_of_le hlen, h, Option.map_some, ofNat_ofLe_toLe]

theorem i64At_of_window {n : Int64} (hlen : off + 8 ≤ data.length)
    (h : window data off 8 = toLe 8 n.toUInt64.toNat) : i64At data off = some n := by
  rw [i64At, window?_of_le hlen, h, Option.map_some, ofNat_ofLe_toLe]
  exact congrArg some (Int64.toInt64_toUInt64 n)

theorem u16At_of_window {n : UInt16} (hlen : off + 2 ≤ data.length)
    (h : window data off 2 = toLe 2 n.toNat) : u16At data off = some n := by
  rw [u16At, window?_of_le hlen, h, Option.map_some, ofLe_toLe_of_lt n.toNat_lt,
    UInt16.ofNat_toNat]

end Read

namespace Treasury

variable {t : Treasury} {data background : List UInt8}

theorem read_of_stores (h : t.Stores data) : read data = some t := by
  have hlen := h.length
  have hreserve : u64At data (B + 176) = some t.attestedReserve.minor :=
    u64At_of_window (by simp only [B]; omega) h.attestedReserve
  have hts : i64At data (B + 184) = some t.attestationTs :=
    i64At_of_window (by simp only [B]; omega) h.attestationTs
  have httl : i64At data (B + 192) = some t.attestationTtl :=
    i64At_of_window (by simp only [B]; omega) h.attestationTtl
  have hsupply : u64At data (B + 200) = some t.thbcSupply.minor :=
    u64At_of_window (by simp only [B]; omega) h.thbcSupply
  have hrate : u64At data (B + 208) = some t.grxPerThbcRate :=
    u64At_of_window (by simp only [B]; omega) h.grxPerThbcRate
  have hfee : u16At data (B + 248) = some t.feeBps :=
    u16At_of_window (by simp only [B]; omega) h.feeBps
  have hencumbered : u64At data (B + 264) = some t.reserveEncumbered.minor :=
    u64At_of_window (by simp only [B]; omega) h.reserveEncumbered
  obtain ⟨b, hb, hnonzero⟩ := h.paused
  have hb' : data[B + 250]? = some b := hb
  have hpaused : (b != 0) = t.paused := by
    rw [Bool.eq_iff_iff, bne_iff_ne]
    exact hnonzero
  unfold read
  rw [hreserve, hts, httl, hsupply, hrate, hfee, hb', hencumbered]
  show some (Treasury.mk _ _ _ _ _ _ (b != 0) _) = _
  rw [hpaused]
  rfl

theorem layout_apart (t : Treasury) : t.layout.Pairwise Apart := by
  simp [layout, Apart, length_toLe]

theorem layout_fits (t : Treasury) (hlen : 280 ≤ background.length) :
    ∀ w ∈ t.layout, w.1 + w.2.length ≤ background.length := by
  simp only [layout, List.forall_mem_cons, length_toLe, List.length_singleton]
  refine ⟨by omega, by omega, by omega, by omega, by omega, by omega, by omega, by omega, ?_⟩
  exact fun w hw => absurd hw List.not_mem_nil

/-- The layout can be written over any account that is long enough. -/
theorem stores_writes (t : Treasury) (hlen : 280 ≤ background.length) :
    t.Stores (writes background t.layout) := by
  have hfits := t.layout_fits hlen
  have hread : ∀ {off len : ℕ} {s : List UInt8}, (off, s) ∈ t.layout → s.length = len →
      window (writes background t.layout) off len = s := by
    rintro off len s hw rfl
    exact window_writes hfits t.layout_apart hw
  have hpaused : window (writes background t.layout) 258 1 = [if t.paused then 1 else 0] :=
    hread (by simp [layout]) rfl
  have hbyte : (writes background t.layout)[258]? = some (if t.paused then 1 else 0) := by
    have hget := congrArg (fun w => w[0]?) hpaused
    rwa [getElem?_window] at hget
  exact {
    length := by rwa [length_writes hfits]
    attestedReserve := hread (by simp [layout]) (length_toLe 8 _)
    attestationTs := hread (by simp [layout]) (length_toLe 8 _)
    attestationTtl := hread (by simp [layout]) (length_toLe 8 _)
    thbcSupply := hread (by simp [layout]) (length_toLe 8 _)
    grxPerThbcRate := hread (by simp [layout]) (length_toLe 8 _)
    feeBps := hread (by simp [layout]) (length_toLe 2 _)
    paused := ⟨_, hbyte, by cases t.paused <;> decide⟩
    reserveEncumbered := hread (by simp [layout]) (length_toLe 8 _) }

/-- What is stored depends on the bytes of the fields alone. -/
theorem Stores.congr {data' : List UInt8} (h : t.Stores data)
    (hbytes : ∀ i, 184 ≤ i ∧ i < 224 ∨ 256 ≤ i ∧ i < 259 ∨ 272 ≤ i ∧ i < 280 →
      data[i]? = data'[i]?) : t.Stores data' := by
  have hwindow : ∀ {off len : ℕ}, (∀ i, off ≤ i → i < off + len →
      184 ≤ i ∧ i < 224 ∨ 256 ≤ i ∧ i < 259 ∨ 272 ≤ i ∧ i < 280) →
      window data' off len = window data off len := fun hin =>
    window_congr fun i hlo hhi => (hbytes i (hin i hlo hhi)).symm
  have hlast : data'[279]? = data[279]? := (hbytes 279 (by omega)).symm
  have hlen := h.length
  rw [List.getElem?_eq_getElem (l := data) (by omega)] at hlast
  obtain ⟨hlen', -⟩ := List.getElem?_eq_some_iff.mp hlast
  obtain ⟨b, hb, hnonzero⟩ := h.paused
  exact {
    length := hlen'
    attestedReserve := (hwindow (by omega)).trans h.attestedReserve
    attestationTs := (hwindow (by omega)).trans h.attestationTs
    attestationTtl := (hwindow (by omega)).trans h.attestationTtl
    thbcSupply := (hwindow (by omega)).trans h.thbcSupply
    grxPerThbcRate := (hwindow (by omega)).trans h.grxPerThbcRate
    feeBps := (hwindow (by omega)).trans h.feeBps
    paused := ⟨b, (hbytes 258 (by omega)).symm.trans hb, hnonzero⟩
    reserveEncumbered := (hwindow (by omega)).trans h.reserveEncumbered }

end Treasury

/-! ## The snapshot -/

/-- The replies of a chain that has `data` for the treasury and `vault` for the
vault, each when it is queried. -/
def delivering (data : List UInt8) (vault : Option (List UInt8)) :
    ℕ → String → Account
  | 0, _ => .ok (some data)
  | _ + 1, _ => .ok vault

section Snapshot

variable {config : ChainBridgeConfig} {treasuryPda inventoryVault : String}
  {t : Treasury} {data : List UInt8} {vault : Option (List UInt8)}

/-- What the vault has at the place of an `amount`. -/
def Holds : Option (List UInt8) → Thb → Prop
  | some v, amount => 72 ≤ v.length ∧ window v 64 8 = toLe 8 amount.toNat
  | none, amount => amount = .zero

theorem inventoryThbc_of_holds {amount : Thb} (h : Holds vault amount) :
    inventoryThbc vault = some amount := by
  cases vault with
  | none => exact congrArg some h.symm
  | some v =>
      rw [inventoryThbc, if_pos h.1, u64At_of_window (by have := h.1; omega) h.2]
      rfl

theorem result_snapshot (hp : config.treasuryPda = some treasuryPda)
    (hv : config.inventoryVault = some inventoryVault) (ht : t.Stores data) {amount : Thb}
    (hamount : inventoryThbc vault = some amount) :
    result (delivering data vault) (snapshot config) = some (.ok (t.snapshot amount)) := by
  have hlen := ht.length
  unfold snapshot
  rw [hp, hv]
  refine (result_query _ _).trans ?_
  show result _ (if data.length < 280 then _ else _) = _
  rw [if_neg (by omega)]
  refine (result_index _ _).trans ?_
  rw [Treasury.read_of_stores ht, Option.bind_some]
  refine (result_query _ _).trans ?_
  refine (result_index _ _).trans ?_
  rw [hamount]
  rfl

end Snapshot

end Thbc.ChainBridge
