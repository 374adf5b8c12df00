import Thbc.Lib.Tally
import Thbc.Lib.Prog
import Thbc.Lib.Pool
import Thbc.Core.Money
import Thbc.Core.BankRef
import Thbc.Core.Reserve
import Thbc.Core.Deposit
import Thbc.Core.Redemption
import Thbc.Core.Reconcile
import Thbc.Core.Exchange
import Thbc.Core.Ports
import Thbc.Ledger.Simulated
import Thbc.Ledger.Steps
import Thbc.Ledger.Conservation
import Thbc.Ledger.Ceiling
import Thbc.Ledger.Revert
import Thbc.Persistence.Memory
import Thbc.Logic.Service
import Thbc.Logic.Issuance
import Thbc.Logic.Redemption
import Thbc.Logic.Reserve
import Thbc.System.World
import Thbc.System.Uses
import Thbc.System.OnRamp
import Thbc.System.OnRampStep
import Thbc.System.OffRamp
import Thbc.System.OffRampStep
import Thbc.System.Attesting
import Thbc.System.Requesting
import Thbc.Proofs.Refinement
import Thbc.Proofs.Identity
import Thbc.Proofs.Settling
import Thbc.Proofs.Payout
import Thbc.Proofs.Finished
import Thbc.Proofs.Copies
import Thbc.Proofs.Uniqueness
import Thbc.Proofs.Compliance
import Thbc.Proofs.Issued
import Thbc.Proofs.Stranded
import Thbc.Proofs.Trading
import Thbc.Proofs.Recorded
import Thbc.Proofs.Encumbrance
import Thbc.Proofs.Requests
import Thbc.Lib.Run
import Thbc.System.Delivery
import Thbc.System.Clocked
import Thbc.Proofs.Resumes
import Thbc.Proofs.Redelivery
import Thbc.Proofs.Timed
import Thbc.Proofs.Recoverable
import Thbc.System.Reconciling
import Thbc.Proofs.Exclusive
import Thbc.Proofs.Drift
import Thbc.Lib.Table
import Thbc.Lib.Session
import Thbc.Lib.Record
import Thbc.Core.Histories
import Thbc.Persistence.Postgres
import Thbc.System.Repositories
import Thbc.Proofs.Stored
import Thbc.Proofs.Interchangeable
import Thbc.Proofs.Screening
import Thbc.Proofs.Timelock
import Thbc.Lib.Tariff
import Thbc.Proofs.Quotes
import Thbc.Proofs.Refused
import Thbc.Proofs.InFlight
import Thbc.Proofs.Unrecorded
import Thbc.Proofs.Enqueued
import Thbc.Proofs.Current
import Thbc.Lib.Greedy
import Thbc.Proofs.Sweep
import Thbc.Api.State
import Thbc.Api.Public
import Thbc.Api.Partner
import Thbc.Api.Admin
import Thbc.Api.Router
import Thbc.Proofs.References
import Thbc.Proofs.Countdown
import Thbc.Proofs.Archived
import Thbc.Lib.Split
import Thbc.Bin.Config
import Thbc.Proofs.SharedDatabase
import Thbc.Lib.Bytes
import Thbc.Ledger.ChainBridge
import Thbc.Proofs.Decoded
import Thbc.Logic.Treasury
import Thbc.Proofs.Bridged
import Thbc.System.Intake
import Thbc.Proofs.Wallets
import Thbc.Lib.Crash
import Thbc.Lib.Rely
import Thbc.System.Durable
import Thbc.Proofs.MintedOnce
import Thbc.Proofs.PaidOnce
import Thbc.Proofs.Backed
import Thbc.Lib.Expand
import Thbc.Ledger.Bridge
import Thbc.System.Relayed
import Thbc.Proofs.Receipts
import Thbc.Logic.Adapters
import Thbc.Bin.Startup
import Thbc.Proofs.FailClosed
import Thbc.Lib.Journal
import Thbc.Bin.Reconciler
import Thbc.System.Server
import Thbc.Proofs.Answers
import Thbc.Proofs.Seen
import Thbc.Proofs.Truthful
import Thbc.Proofs.Gates
import Thbc.Proofs.ServerErrors
import Thbc.Lib.Latch
import Thbc.Proofs.Reports
import Thbc.Proofs.Audited
import Thbc.Lib.Within
import Thbc.Proofs.Answered
import Thbc.Lib.Decimal
import Thbc.Bin.Environment
import Thbc.Proofs.Starting
import Thbc.Proofs.Configured
