import Thbc.Bin.Environment
import Thbc.Logic.Adapters
import Thbc.System.Relayed
import Thbc.System.Server

/-!
# Wiring

`bin/thbc-service/src/startup.rs`: what `build` puts behind the ports, in either mode.
The repositories are the tables in both, as they are with a database configured; the
simulated ledger and its payout queue are left open. And what `main` makes of the
configuration: the state of the services, and the tasks that run over it.
-/

namespace Thbc

open Thbc.Lib Thbc.ChainBridge Thbc.Relayed

/-- There is no KYC adapter: fail closed. -/
def RefusingCompliance.screen (_subject : String) (_amount : Thb) : PortResult ScreenOutcome :=
  .error (.unsupported
    "no KYC adapter exists (spec §12); refusing to screen rather than auto-passing")

namespace Startup

variable {Auth : Type}

/-- The adapters of chain-bridge mode. -/
def chainBridge (ledger : ChainBridgeLedger Auth) :
    (s : Port) → Prog (Wire Auth) Wire.Reply s.Reply
  | .compliance (.screen subject amount) => .pure (RefusingCompliance.screen subject amount)
  | .payouts (.enqueue user seq amount) =>
      .pure (UnavailablePayoutQueue.enqueue user seq amount)
  | s => relay ledger s

/-- The adapters of simulated mode. -/
def simulated (stub : StubCompliance) : (s : Port) → Prog Port Port.Reply s.Reply
  | .compliance (.screen subject amount) => .pure (stub.screen subject amount)
  | s => Prog.call s

/-- What `build` tells the services of the configuration. -/
def appState (settings : Settings) : AppState :=
  ⟨settings.redemptionDeltaSecs, settings.isSimulated⟩

/-- What `main` spawns, and what it serves. -/
def tasks (settings : Settings) (ticks : ℕ) (requests : List Request) : List Server.Task :=
  .reconciler settings.reconcileIntervalSecs ticks :: requests.map .request

end Startup

end Thbc
