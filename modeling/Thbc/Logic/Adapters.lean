import Thbc.Core.Ports

/-!
# Adapters with nothing behind them

`crates/thbc-logic/src/adapters.rs`, but for the clocks and the recording queue: the
compliance stub, and the payout queue that refuses.
-/

namespace Thbc

/-- Passes everything up to its ceiling. It screens nobody. -/
structure StubCompliance where
  autoPassCeiling : Thb

def StubCompliance.screen (stub : StubCompliance) (_subject : String) (amount : Thb) :
    PortResult ScreenOutcome :=
  .ok (if stub.autoPassCeiling < amount then .fail else .pass)

/-- `UnavailablePayoutQueue`: there is no fiat rail. -/
def UnavailablePayoutQueue.enqueue (_user : String) (_seq : UInt64) (_amount : Thb) :
    PortResult Unit :=
  .error (.unsupported
    "no fiat rail exists — the THB payout queue is not implemented (spec §12)")

end Thbc
